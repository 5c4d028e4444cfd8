import QrWireguard.Misc.GoNet

/-!
# Addresses of the C library

The conversions of `arpa/inet.h` between IPv4 addresses and texts. The numbers of a text are
written as in C, and the last one fills the bytes that are left.
-/

namespace QrWireguard

/-- An octal digit. -/
def isodigit (c : Char) : Bool := decide ('0' ≤ c) && decide (c ≤ '7')

/-- The number a run of octal digits denotes. -/
def octal (s : Str) : Nat := s.foldl (fun n c => 8 * n + digitVal c) 0

/-- `strtoul` in the base that the text asks for, and what it leaves of a text that starts with
a digit. -/
def strtoul (s : Str) : Nat × Str :=
  match s with
  | '0' :: x :: c :: cs =>
    if (x = 'x' ∨ x = 'X') ∧ isxdigit c = true then
      (hexadecimal ((c :: cs).takeWhile isxdigit), (c :: cs).dropWhile isxdigit)
    else (octal (s.takeWhile isodigit), s.dropWhile isodigit)
  | '0' :: _ => (octal (s.takeWhile isodigit), s.dropWhile isodigit)
  | s => (decimal (s.takeWhile isdigit), s.dropWhile isdigit)

/-- The loop of `inet_aton`: the bytes before the dots read so far, and how many more dots there
may be. White space ends the address, and what follows it is not read. -/
def inetAtonLoop (room address : Nat) (s : Str) : Option (BitVec 32) :=
  if isdigit (firstByte s) then
    let (val, rest) := strtoul s
    match room, rest with
    | 0, '.' :: _ => none
    | room + 1, '.' :: rest =>
      if val ≤ 0xFF then inetAtonLoop room (address * 256 + val) rest else none
    | room, rest =>
      if (rest = [] ∨ isspace (firstByte rest) = true) ∧ val < 256 ^ (room + 1) then
        some (BitVec.ofNat 32 (address * 256 ^ (room + 1) + val))
      else none
  else none

/-- `inet_aton`. -/
def inetAton (s : Str) : Option (BitVec 32) := inetAtonLoop 3 0 s

/-- `inet_ntoa`. -/
def inetNtoa (addr : BitVec 32) : Str :=
  unsplit ['.'] ((List.range 4).map fun i => natDigits (addr.extractLsb' (8 * (3 - i)) 8).toNat)

example : inetAton (str "0x7f.1 and more") = some 0x7F000001#32 := by decide +kernel
example : (inetAton (str "192.168.010.1")).map inetNtoa = some (str "192.168.8.1") := by
  decide +kernel

end QrWireguard
