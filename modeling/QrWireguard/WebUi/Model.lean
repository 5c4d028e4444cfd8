import QrWireguard.Misc.Base64
import QrWireguard.Misc.GoStr

/-!
# Records of the web UI

The records of `model/` that the client and server pages work on, and the checks of their
fields that the libraries make.
-/

namespace QrWireguard.WebUi

/-- A point in time, in UTC. -/
structure Time where
  year : Nat
  month : Nat
  day : Nat
  hour : Nat
  minute : Nat
  second : Nat
  nanosecond : Nat
  deriving DecidableEq, Repr

/-- A number with leading zeros up to a width. -/
def zeroPadded (width n : Nat) : Str :=
  List.replicate (width - (natDigits n).length) '0' ++ natDigits n

/-- The fraction of a second, without trailing zeros. -/
def fractionString (nanosecond : Nat) : Str :=
  if nanosecond = 0 then []
  else '.' :: ((zeroPadded 9 nanosecond).reverse.dropWhile (· == '0')).reverse

/-- `Time.String`, whose layout is `2006-01-02 15:04:05.999999999 -0700 MST`. -/
def Time.toText (t : Time) : Str :=
  zeroPadded 4 t.year ++ '-' :: zeroPadded 2 t.month ++ '-' :: zeroPadded 2 t.day ++
    ' ' :: zeroPadded 2 t.hour ++ ':' :: zeroPadded 2 t.minute ++ ':' :: zeroPadded 2 t.second ++
    fractionString t.nanosecond ++ str " +0000 UTC"

/-- The zero `time.Time`. -/
def Time.zero : Time := ⟨1, 1, 1, 0, 0, 0, 0⟩

example : Time.toText ⟨2025, 3, 9, 7, 5, 1, 120000000⟩ = str "2025-03-09 07:05:01.12 +0000 UTC" := by
  decide

/-- A record of `model.Client`. -/
structure Client where
  id : Str
  privateKey : Str
  publicKey : Str
  presharedKey : Str
  name : Str
  tgUserid : Str
  email : Str
  subnetRanges : List Str
  allocatedIPs : List Str
  allowedIPs : List Str
  extraAllowedIPs : List Str
  endpoint : Str
  additionalNotes : Str
  useServerDNS : Bool
  enabled : Bool
  createdAt : Time
  updatedAt : Time
  deriving DecidableEq, Repr

/-- The zero `model.Client`, which a body that binds nothing leaves. -/
def Client.zero : Client where
  id := []
  privateKey := []
  publicKey := []
  presharedKey := []
  name := []
  tgUserid := []
  email := []
  subnetRanges := []
  allocatedIPs := []
  allowedIPs := []
  extraAllowedIPs := []
  endpoint := []
  additionalNotes := []
  useServerDNS := false
  enabled := false
  createdAt := Time.zero
  updatedAt := Time.zero

/-- A record of `model.ServerKeypair`. -/
structure ServerKeypair where
  privateKey : Str
  publicKey : Str
  updatedAt : Time
  deriving DecidableEq, Repr

/-- A record of `model.ServerInterface`. -/
structure ServerInterface where
  addresses : List Str
  listenPort : Int
  updatedAt : Time
  postUp : Str
  preDown : Str
  postDown : Str
  deriving DecidableEq, Repr

/-- A record of `model.Server`. -/
structure Server where
  keyPair : ServerKeypair
  interface : ServerInterface
  deriving DecidableEq, Repr

/-- A record of `model.GlobalSetting`. -/
structure GlobalSetting where
  endpointAddress : Str
  dnsServers : List Str
  mtu : Int
  persistentKeepalive : Int
  firewallMark : Str
  table : Str
  configFilePath : Str
  updatedAt : Time
  deriving DecidableEq, Repr

/-- A record of `model.ClientServerHashes`. -/
structure ClientServerHashes where
  client : Str
  server : Str
  deriving DecidableEq, Repr

/-- A WireGuard key: 32 bytes. -/
structure Key where
  bytes : List Nat
  length_eq : bytes.length = 32
  lt_256 : ∀ b ∈ bytes, b < 256
  deriving DecidableEq

/-- `wgtypes.ParseKey`. -/
def parseKey (s : Str) : Option Key :=
  match h : decodeBase64 s with
  | some bytes =>
    if hlen : bytes.length = 32 then some ⟨bytes, hlen, lt_256_of_mem_base64Groups h⟩ else none
  | none => none

/-- `Key.String`. -/
def Key.toText (key : Key) : Str := encodeBase64 key.bytes

theorem parseKey_toText (key : Key) : parseKey key.toText = some key := by
  have hdecode := decodeBase64_encode key.lt_256
  unfold parseKey Key.toText
  split
  · rename_i bytes hbytes
    obtain rfl : key.bytes = bytes := Option.some.inj (hdecode.symm.trans hbytes)
    rw [dif_pos key.length_eq]
  · rename_i hnone
    rw [hdecode] at hnone
    cases hnone

/-- A key text has the characters of base64 texts, and perhaps line breaks. -/
theorem isBase64Char_of_parseKey {s : Str} {key : Key} (h : parseKey s = some key) :
    ∀ c ∈ s, isBase64Char c = true ∨ isLineBreak c = true := by
  unfold parseKey at h
  split at h
  · rename_i bytes hbytes
    exact isBase64Char_of_decode hbytes
  · cases h

/-- A character of an xid. -/
def isXidChar (c : Char) : Bool := isdigit c || (decide ('a' ≤ c) && decide (c ≤ 'v'))

/-- `xid.FromString` accepts twenty characters of its alphabet. The last one carries a single
bit. -/
def validXid (s : Str) : Bool :=
  s.length == 20 && s.all isXidChar && (s.getLast? == some '0' || s.getLast? == some 'g')

end QrWireguard.WebUi
