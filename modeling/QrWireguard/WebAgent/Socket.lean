import QrWireguard.WebAgent.Segments

/-!
# The socket of a client

`Client` of the C++ agent: the loop that reads from the socket and publishes what has happened,
and the writing of a reply. What `recv` and `send` return is kept in variables of type `size_t`,
where an error is a large number.
-/

namespace QrWireguard.WebAgent.Cpp.Client

/-- A signed result in a variable of type `size_t`. -/
def sizeT (n : Int) : BitVec 64 := BitVec.ofInt 64 n

/-- The bytes of a `recv` that has received some, none of which is NUL. -/
structure Packet where
  bytes : Str
  ne_nil : bytes ≠ []
  length_le : bytes.length ≤ maxPacketSize
  nul_not_mem : '\x00' ∉ bytes

/-- How a call of `recv` ends. An error comes with its text. -/
inductive RecvOutcome where
  | received (packet : Packet)
  | closed
  | failed (strerror : Str)

namespace RecvOutcome

/-- What `recv` returns. -/
def returned : RecvOutcome → Int
  | received packet => packet.bytes.length
  | closed => 0
  | failed _ => -1

/-- What the buffer holds after the call. -/
def written (receivedMessage : Buffer) : RecvOutcome → Str
  | received packet => receivedMessage.recv packet.bytes
  | closed => receivedMessage.toList
  | failed _ => receivedMessage.toList

/-- `strerror (errno)`. -/
def strerror : RecvOutcome → Str
  | failed strerror => strerror
  | _ => []

end RecvOutcome

/-- A round of the loop: the result of `fd_wait::waitFor` and, where there is something to read,
what the buffer happens to hold and how `recv` ends. -/
inductive Round where
  | failure (strerror : Str)
  | timeout
  | success (receivedMessage : Buffer) (outcome : RecvOutcome)

/-- `ClientEvent`, with its message. -/
inductive ClientEvent where
  | disconnected (msg : Str)
  | incomingMsg (msg : Str)
  deriving DecidableEq

/-- Where the loop stands: it waits for the next round, it has returned or thrown, or it has read
behind the end of the buffer. -/
inductive Status where
  | running
  | returned
  | thrown (what : Str)
  | overread
  deriving DecidableEq

/-- The published events and where the loop stands. -/
structure Published where
  events : List ClientEvent
  status : Status
  deriving DecidableEq

/-- An event in front of what is published later. -/
def Published.behind (later : Published) (event : ClientEvent) : Published :=
  { later with events := event :: later.events }

/-- The string that `publishEvent` gets for a buffer, which needs a NUL to end. -/
def stdString (buffer : Str) : Option Str := if '\x00' ∈ buffer then some (cstr buffer) else none

/-- `Client::receiveTask`. -/
def receiveTask : List Round → Published
  | [] => ⟨[], .running⟩
  | .failure strerror :: _ => ⟨[], .thrown strerror⟩
  | .timeout :: rounds => receiveTask rounds
  | .success receivedMessage outcome :: rounds =>
    let numOfBytesReceived := sizeT outcome.returned
    if numOfBytesReceived < 1 then
      let disconnectionMessage :=
        if numOfBytesReceived = 0 then str "Client closed connection" else outcome.strerror
      ⟨[.disconnected disconnectionMessage], .returned⟩
    else match stdString (outcome.written receivedMessage) with
      | none => ⟨[], .overread⟩
      | some msg => (receiveTask rounds).behind (.incomingMsg msg)

/-- What there is to report about a connection: a message for each packet, and the end of the
connection or its error. -/
def reported : List Round → Published
  | [] => ⟨[], .running⟩
  | .failure strerror :: _ => ⟨[], .thrown strerror⟩
  | .timeout :: rounds => reported rounds
  | .success _ (.received packet) :: rounds => (reported rounds).behind (.incomingMsg packet.bytes)
  | .success _ .closed :: _ => ⟨[.disconnected (str "Client closed connection")], .returned⟩
  | .success _ (.failed strerror) :: _ => ⟨[.disconnected strerror], .returned⟩

/-- Until the connection is closed no `recv` fails, and a NUL stands behind each packet. -/
def Undisturbed : List Round → Prop
  | [] => True
  | .failure _ :: _ => True
  | .timeout :: rounds => Undisturbed rounds
  | .success receivedMessage (.received packet) :: rounds =>
    (receivedMessage.toList.drop packet.bytes.length).head? = some '\x00' ∧ Undisturbed rounds
  | .success _ .closed :: _ => True
  | .success _ (.failed _) :: _ => False

/-- How a call of `send` ends. -/
inductive SendOutcome (msgSize : BitVec 64) where
  | sent (n : Nat) (hle : n ≤ msgSize.toNat)
  | failed (strerror : Str)

namespace SendOutcome

variable {msgSize : BitVec 64}

/-- What `send` returns. -/
def returned : SendOutcome msgSize → Int
  | sent n _ => n
  | failed _ => -1

/-- `strerror (errno)`. -/
def strerror : SendOutcome msgSize → Str
  | failed strerror => strerror
  | _ => []

/-- All bytes were sent. -/
def Complete : SendOutcome msgSize → Prop
  | sent n _ => n = msgSize.toNat
  | failed _ => False

end SendOutcome

/-- The message about a short write. -/
def errorMsg (numBytesSent msgSize : BitVec 64) : Str :=
  str "Only " ++ natDigits numBytesSent.toNat ++ str " bytes out of " ++
    natDigits msgSize.toNat ++ str " was sent to client"

/-- `Client::send`, with the text of what it throws. -/
def send (isConnected : Bool) (msgSize : BitVec 64) (outcome : SendOutcome msgSize) :
    Except Str Unit :=
  if !isConnected then .ok ()
  else
    let numBytesSent := sizeT outcome.returned
    if numBytesSent < 0 then .error outcome.strerror
    else if numBytesSent < msgSize then .error (errorMsg numBytesSent msgSize)
    else .ok ()

theorem toNat_sizeT {n : Nat} (h : n < 2 ^ 64) : (sizeT n).toNat = n := by
  rw [sizeT, BitVec.ofInt_natCast, BitVec.toNat_ofNat, Nat.mod_eq_of_lt h]

/-- The message fits its buffer of 100 bytes. -/
theorem length_errorMsg_lt (numBytesSent msgSize : BitVec 64) :
    (errorMsg numBytesSent msgSize).length < 100 := by
  have hdigits : ∀ n : BitVec 64, (natDigits n.toNat).length ≤ 20 := by
    intro n
    apply length_natDigits_le (by decide)
    have hlt := n.isLt
    omega
  have hsent := hdigits numBytesSent
  have hsize := hdigits msgSize
  simp only [errorMsg, List.length_append, show (str "Only ").length = 5 from rfl,
    show (str " bytes out of ").length = 14 from rfl,
    show (str " was sent to client").length = 19 from rfl]
  omega

section
variable {receivedMessage : Buffer} {packet : Packet} {rounds : List Round}

/-- Behind the bytes of a packet the string ends at the first NUL that is left in the buffer. -/
theorem stdString_received :
    stdString (receivedMessage.recv packet.bytes) = some packet.bytes ↔
      (receivedMessage.toList.drop packet.bytes.length).head? = some '\x00' := by
  have hkeep := bne_of_not_mem packet.nul_not_mem
  unfold stdString Buffer.recv
  generalize receivedMessage.toList.drop packet.bytes.length = left
  cases left with
  | nil =>
    have hnul := packet.nul_not_mem
    simp [hnul]
  | cons c left =>
    constructor
    · intro h
      split at h
      · have hcstr := Option.some.inj h
        rw [cstr, List.takeWhile_append_of_pos hkeep, List.append_right_eq_self] at hcstr
        by_contra hne
        rw [List.takeWhile_cons_of_pos (by simpa using hne)] at hcstr
        cases hcstr
      · cases h
    · intro h
      obtain rfl := Option.some.inj h
      rw [if_pos (by simp), cstr_append_nul packet.nul_not_mem]

/-- A packet is published as the string that its buffer holds. -/
theorem receiveTask_received :
    receiveTask (.success receivedMessage (.received packet) :: rounds) =
      match stdString (receivedMessage.recv packet.bytes) with
      | none => ⟨[], .overread⟩
      | some msg => (receiveTask rounds).behind (.incomingMsg msg) := by
  have hsome : ¬ sizeT (RecvOutcome.received packet).returned < 1 := by
    have hpos := List.length_pos_iff.mpr packet.ne_nil
    have hle : packet.bytes.length ≤ 4096 := packet.length_le
    have hn : (sizeT (RecvOutcome.received packet).returned).toNat = packet.bytes.length :=
      toNat_sizeT (by omega)
    rw [BitVec.lt_def, hn, show (1 : BitVec 64).toNat = 1 from rfl]
    omega
  rw [receiveTask]
  rw [if_neg hsome]
  rfl

/-- The result of a `recv` that has failed is not below one, and what the buffer holds is
published as a message. -/
theorem receiveTask_failed {strerror : Str} :
    receiveTask (.success receivedMessage (.failed strerror) :: rounds) =
      match stdString receivedMessage.toList with
      | none => ⟨[], .overread⟩
      | some msg => (receiveTask rounds).behind (.incomingMsg msg) := rfl

theorem Published.behind_inj {later later' : Published} {event event' : ClientEvent} :
    later.behind event = later'.behind event' ↔ event = event' ∧ later = later' := by
  cases later
  cases later'
  simp only [Published.behind, Published.mk.injEq, List.cons.injEq]
  tauto

/-- The loop publishes what there is to report just when nothing disturbs it. -/
theorem receiveTask_eq_reported (rounds : List Round) :
    receiveTask rounds = reported rounds ↔ Undisturbed rounds := by
  induction rounds with
  | nil => exact iff_of_true rfl trivial
  | cons round rounds ih =>
    cases round with
    | failure strerror => exact iff_of_true rfl trivial
    | timeout => exact ih
    | success receivedMessage outcome =>
      cases outcome with
      | received packet =>
        rw [receiveTask_received, Undisturbed, ← stdString_received, ← ih, reported]
        cases stdString (receivedMessage.recv packet.bytes) with
        | none =>
          apply iff_of_false
          · intro h
            cases congrArg Published.events h
          · rintro ⟨h, -⟩
            cases h
        | some msg =>
          dsimp only
          rw [Published.behind_inj, ClientEvent.incomingMsg.injEq, Option.some.injEq]
      | closed => exact iff_of_true rfl trivial
      | failed strerror =>
        apply iff_of_false
        · rw [receiveTask_failed, reported]
          intro h
          split at h
          · cases congrArg Published.events h
          · have hevents := congrArg Published.events h
            cases (List.cons.inj hevents).1
        · exact id

end

/-! ## The requests that are handled -/

/-- What the observer makes of the published messages, until one of them takes the agent down. -/
def handledMessages : List ClientEvent → List Handled
  | .incomingMsg msg :: events =>
    match onIncomingMsg msg with
    | .error _ => []
    | .ok handled => handled :: handledMessages events
  | _ => []

/-- The rounds in which packets arrive, with what the buffer holds before each of them. -/
def packetRounds (receivedMessage : Nat → Buffer) (i : Nat) : List Packet → List Round
  | [] => []
  | packet :: packets =>
    .success (receivedMessage i) (.received packet) :: packetRounds receivedMessage (i + 1) packets

theorem length_recv {receivedMessage : Buffer} {packet : Packet} :
    (receivedMessage.recv packet.bytes).length = maxPacketSize := by
  have hle := packet.length_le
  simp only [Buffer.recv, List.length_append, List.length_drop, Vector.length_toList]
  omega

/-- A full buffer is handled as the string that it holds. -/
theorem onIncomingMsg_stdString {buffer msg : Str} (hlen : buffer.length = maxPacketSize)
    (h : stdString buffer = some msg) : onIncomingMsg buffer = onIncomingMsg msg := by
  unfold stdString at h
  split at h
  · rename_i hnul
    obtain rfl := Option.some.inj h
    have hcstr : cstr (cstr buffer) = cstr buffer := by
      apply cstr_of_not_mem
      intro hmem
      have hkept := List.mem_takeWhile_imp hmem
      simp at hkept
    have hlt : (cstr buffer).length < maxPacketSize := by
      rw [← hlen]
      apply lt_of_le_of_ne (List.takeWhile_sublist _).length_le
      intro heq
      have hall := List.takeWhile_eq_self_iff.mp ((List.takeWhile_sublist _).eq_of_length heq)
      simpa using hall _ hnul
    unfold onIncomingMsg
    rw [hcstr, if_neg (by omega), if_neg (by omega)]
  · cases h

/-- A full buffer in which no string ends takes the agent down. -/
theorem onIncomingMsg_overread {buffer : Str} (hlen : buffer.length = maxPacketSize)
    (h : stdString buffer = none) : onIncomingMsg buffer = .error .overflow := by
  unfold stdString at h
  split at h
  · cases h
  · rename_i hnul
    unfold onIncomingMsg
    rw [cstr_of_not_mem hnul, if_pos (by omega)]

/-- The requests that the agent handles on a connection are the messages that the loop publishes
for its packets. -/
theorem receiveTask_packets (receivedMessage : Nat → Buffer) (i : Nat) (packets : List Packet) :
    Cpp.receiveTask receivedMessage i (packets.map (·.bytes)) =
      handledMessages (receiveTask (packetRounds receivedMessage i packets)).events := by
  induction packets generalizing i with
  | nil => rfl
  | cons packet packets ih =>
    rw [List.map_cons, Cpp.receiveTask, if_neg packet.ne_nil, packetRounds, receiveTask_received]
    cases hstring : stdString ((receivedMessage i).recv packet.bytes) with
    | none =>
      rw [onIncomingMsg_overread length_recv hstring]
      rfl
    | some msg =>
      rw [onIncomingMsg_stdString length_recv hstring]
      dsimp only [Published.behind]
      rw [ih]
      rfl

/-! ## Reports -/

/-- A reply is written without an exception just when all its bytes were sent, unless the call
has failed, which goes unnoticed. -/
theorem send_iff {msgSize : BitVec 64} (outcome : SendOutcome msgSize) :
    (send true msgSize outcome = .ok () ↔ outcome.Complete) ↔
      ∀ strerror, outcome ≠ .failed strerror := by
  have hzero : ∀ n : BitVec 64, ¬ n < 0 := fun n => BitVec.not_lt_zero
  cases outcome with
  | sent n hle =>
    apply iff_of_true
    · have hn : (sizeT (n : Int)).toNat = n := toNat_sizeT (hle.trans_lt msgSize.isLt)
      simp only [send, SendOutcome.returned, SendOutcome.Complete, Bool.not_true, hzero, if_false,
        Bool.false_eq_true, BitVec.lt_def, hn]
      split
      · rename_i hlt
        exact iff_of_false (fun h => by cases h) (by omega)
      · exact iff_of_true rfl (by omega)
    · intro strerror h
      cases h
  | failed strerror =>
    apply iff_of_false
    · have hmax : (sizeT (-1)).toNat = 2 ^ 64 - 1 := by decide
      intro h
      apply h.mp
      have hlt : ¬ sizeT (-1) < msgSize := by
        rw [BitVec.lt_def, hmax]
        have hsize := msgSize.isLt
        omega
      simp only [send, SendOutcome.returned, Bool.not_true, hzero, if_false, Bool.false_eq_true,
        hlt]
    · intro h
      exact h strerror rfl

/-- The socket layer reports what has happened on a connection and to a reply just when neither
`recv` nor `send` fails and a NUL stands behind each packet. -/
theorem client_reports (rounds : List Round) (msgSize : BitVec 64) (outcome : SendOutcome msgSize) :
    (receiveTask rounds = reported rounds ∧
        (send true msgSize outcome = .ok () ↔ outcome.Complete)) ↔
      Undisturbed rounds ∧ ∀ strerror, outcome ≠ .failed strerror := by
  rw [receiveTask_eq_reported, send_iff]

/-- A `recv` that fails over a buffer of zeros is published as an empty message, and a `send`
that fails returns as if it had sent everything. -/
theorem client_not_reports :
    ¬ (receiveTask [.success zeros (.failed (str "Connection reset by peer"))] =
        reported [.success zeros (.failed (str "Connection reset by peer"))] ∧
      (send true 4096 (.failed (str "Broken pipe")) = .ok () ↔
        (SendOutcome.failed (str "Broken pipe") : SendOutcome 4096).Complete)) := by
  rintro ⟨hreceived, -⟩
  have hevents := congrArg Published.events hreceived
  revert hevents
  decide +kernel

end QrWireguard.WebAgent.Cpp.Client
