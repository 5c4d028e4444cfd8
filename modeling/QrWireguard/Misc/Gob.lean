import Mathlib.Data.Nat.Digits.Defs
import QrWireguard.Misc.CString

/-!
# Gob streams and their checksum

The parts of Go's `encoding/gob` that a first value of a struct type with string and boolean
fields needs, and the IEEE polynomial of `hash/crc32`.
-/

namespace QrWireguard

/-- An unsigned integer: one byte below 128, else the bytes behind their negated count. -/
def gobUint (n : Nat) : Str :=
  if n < 128 then [Char.ofNat n]
  else
    let bytes := ((Nat.digits 256 n).map Char.ofNat).reverse
    Char.ofNat (256 - bytes.length) :: bytes

/-- A signed integer: the sign stands in the lowest bit. -/
def gobInt (i : Int) : Str :=
  match i with
  | .ofNat n => gobUint (2 * n)
  | .negSucc n => gobUint (2 * n + 1)

/-- A string behind its length. -/
def gobString (s : Str) : Str := gobUint s.length ++ s

/-- A message behind its length. -/
def gobMessage (s : Str) : Str := gobUint s.length ++ s

/-- The fields of a struct that are not zero, each behind its distance from the field sent
before it, and the closing zero. `gap` counts the fields left out since. -/
def gobFields (gap : Nat) : List (Option Str) → Str
  | [] => gobUint 0
  | none :: fields => gobFields (gap + 1) fields
  | some s :: fields => gobUint gap ++ s ++ gobFields 1 fields

/-- The field of a string, which is left out when it is empty. -/
def gobStringField (s : Str) : Option Str := if s = [] then none else some (gobString s)

/-- The field of a boolean, which is left out when it is false. -/
def gobBoolField (b : Bool) : Option Str := if b then some (gobUint 1) else none

/-- The number gob gives the first type of a process, and those of its own types. -/
def firstUserId : Int := 65
def tBool : Int := 1
def tString : Int := 6

/-- The descriptor of a struct type, a `wireType` with only its `StructT` set. -/
def gobStructType (name : Str) (id : Int) (fields : List (Str × Int)) : Str :=
  let commonType := gobFields 1 [some (gobString name), some (gobInt id)]
  let fieldTypes := fields.map fun f => gobFields 1 [some (gobString f.1), some (gobInt f.2)]
  let structType := gobFields 1
    [some commonType, some (gobUint fields.length ++ fieldTypes.flatten)]
  gobInt (-id) ++ gobFields 1 [none, none, some structType]

/-- What a new encoder writes for a struct: the type's descriptor, then the value. -/
def gobEncode (name : Str) (fields : List (Str × Int)) (values : List (Option Str)) : Str :=
  gobMessage (gobStructType name firstUserId fields) ++
    gobMessage (gobInt firstUserId ++ gobFields 1 values)

/-- One bit of the checksum's division. -/
def crcBit (c : Nat) : Nat := if c % 2 = 1 then (c >>> 1) ^^^ 0xEDB88320 else c >>> 1

/-- The checksum register after a byte. -/
def crcByte (c : Nat) (byte : Char) : Nat :=
  (List.range 8).foldl (fun c _ => crcBit c) (c ^^^ byte.toNat)

/-- `crc32.ChecksumIEEE`. -/
def checksumIEEE (s : Str) : UInt32 :=
  UInt32.ofNat (s.foldl crcByte 0xFFFFFFFF ^^^ 0xFFFFFFFF)

example : checksumIEEE (str "123456789") = 0xCBF43926 := by decide +kernel

end QrWireguard
