import QrWireguard.WebAgent.Connections
import QrWireguard.WebAgent.Messages
import QrWireguard.WebAgent.Segments

/-!
# Connections of the C++ agent

Every client has a thread that receives its messages. The observer is told of a message under
`_subscribersMtx`, and runs the shells for it before the mutex is released, so that the messages of
all clients are handled one after the other, whatever the order of steps. A further thread removes
clients whose connections have ended, under `_clientsMtx`, and waits for their threads.
-/

namespace QrWireguard.WebAgent.Cpp

open Vtysh
open Go (Execution replay)

/-- Where the receive thread of a client stands. A shell that has loaded the configuration file has
the contents in its memory, and it writes the file after its command. -/
inductive Thread where
  | unborn
  | waiting
  | incoming (msg : Str)
  | handling (msg : Str)
  | running (msg : Str) (ok : Bool) (args : List Str)
  | loaded (msg : Str) (ok : Bool) (e : Env) (arg : Str) (contents : Option Str) (rest : List Str)
  | executed (msg : Str) (ok : Bool) (e : Env) (arg : Str) (contents : Option Str)
    (rest : List Str)
  | disconnected
  | notifying
  | returned
  | deleted

/-- Where the thread that accepts clients stands. -/
inductive Acceptor (ι : Type) where
  | accepting
  | started (i : ι)
  | pushing (i : ι)

/-- Where the thread that removes dead clients stands. -/
inductive Remover (ι : Type) where
  | sleeping
  | scanning
  | joining (i : ι)

/-- Who holds `_clientsMtx`. -/
inductive ClientsOwner where
  | acceptor
  | remover
  deriving DecidableEq

/-- An answer to a message. -/
structure Answer (ι : Type) where
  client : ι
  msg : Str
  ok : Bool

/-- `TcpServer` with its threads, the configuration file, the messages that each client has sent,
and the answers and the shells so far. -/
structure TcpServer (ι : Type) where
  clients : List ι
  connected : ι → Bool
  thread : ι → Thread
  acceptor : Acceptor ι
  remover : Remover ι
  subscribersMtx : Option ι
  clientsMtx : Option ClientsOwner
  crashed : Bool
  config : Option Str
  received : ι → List Str
  answers : List (Answer ι)
  log : List (Execution ι)

/-- `observer.wantedIP`. -/
def wantedIP : Str := str "127.0.0.1"

/-- What takes a step: the acceptor with a new client or on its own, a connection that brings a
message or its end, the thread of a client, or the remover. -/
inductive Action (ι : Type) where
  | accept (i : ι)
  | acceptor
  | receive (i : ι) (msg : Str)
  | hangUp (i : ι)
  | run (i : ι) (e : Env)
  | remover

section
variable {ι : Type} [DecidableEq ι]

/-- Move the thread of a client. -/
def TcpServer.move (s : TcpServer ι) (i : ι) (thread : Thread) : TcpServer ι :=
  { s with thread := Function.update s.thread i thread }

/-- The next step of a thread that waits, has a message, or reports the end of its connection.
`sh` gives the arguments with which a line makes the shell run `vtysh -e`. -/
def runThread (sh : Str → List Str) (ip : ι → Str) (s : TcpServer ι) (i : ι) (e : Env) :
    Option (TcpServer ι) :=
  match s.thread i with
  | .waiting => if s.connected i then none else some (s.move i .returned)
  | .incoming msg =>
    if s.subscribersMtx.isNone then
      some { s.move i (.handling msg) with subscribersMtx := some i }
    else none
  | .handling msg =>
    if ip i = wantedIP then
      match onIncomingMsg msg with
      | .ok handled => some (s.move i (.running msg handled.ok (handled.commands.flatMap sh)))
      | .error _ => some { s with crashed := true }
    else some { s.move i .waiting with subscribersMtx := none }
  | .running msg ok [] =>
    some { s.move i .waiting with subscribersMtx := none, answers := s.answers ++ [⟨i, msg, ok⟩] }
  | .running msg ok (arg :: rest) => some (s.move i (.loaded msg ok e arg s.config rest))
  | .loaded msg ok e arg contents rest =>
    some { s.move i (.executed msg ok e arg contents rest) with
      config := (commandText e startupConfig arg contents).or s.config }
  | .executed msg ok e arg contents rest =>
    some { s.move i (.running msg ok rest) with
      config := (finalText e startupConfig arg contents).or s.config
      log := s.log ++ [⟨i, e, arg⟩] }
  | .disconnected =>
    if s.subscribersMtx.isNone then some { s.move i .notifying with subscribersMtx := some i }
    else none
  | .notifying => some { s.move i .returned with subscribersMtx := none }
  | .unborn => none
  | .returned => none
  | .deleted => none

/-- The next step of the thread that removes dead clients. -/
def runRemover (s : TcpServer ι) : Option (TcpServer ι) :=
  match s.remover with
  | .sleeping =>
    if s.clientsMtx.isNone then some { s with remover := .scanning, clientsMtx := some .remover }
    else none
  | .scanning =>
    match s.clients.find? (!s.connected ·) with
    | some i =>
      some { s with remover := .joining i, connected := Function.update s.connected i false }
    | none => some { s with remover := .sleeping, clientsMtx := none }
  | .joining i =>
    match s.thread i with
    | .returned =>
      some { s.move i .deleted with clients := s.clients.erase i, remover := .scanning }
    | _ => none

/-- The next step of the thread that accepts clients, after `startListen`. -/
def runAcceptor (s : TcpServer ι) : Option (TcpServer ι) :=
  match s.acceptor with
  | .accepting => none
  | .started i =>
    if s.clientsMtx.isNone then
      some { s with acceptor := .pushing i, clientsMtx := some .acceptor }
    else none
  | .pushing i =>
    some { s with acceptor := .accepting, clientsMtx := none, clients := s.clients ++ [i] }

/-- A step. A thread that waits for a mutex, for another thread or for what its connection brings
has none, and nothing has one after a fault. -/
def serverStep (sh : Str → List Str) (ip : ι → Str) (s : TcpServer ι) :
    Action ι → Option (TcpServer ι)
  | .accept i =>
    match s.crashed, s.acceptor, s.thread i with
    | false, .accepting, .unborn =>
      some { s.move i .waiting with
        acceptor := .started i, connected := Function.update s.connected i true }
    | _, _, _ => none
  | .receive i msg =>
    match s.crashed, s.thread i, s.connected i with
    | false, .waiting, true =>
      some { s.move i (.incoming msg) with
        received := Function.update s.received i (s.received i ++ [msg]) }
    | _, _, _ => none
  | .hangUp i =>
    match s.crashed, s.thread i, s.connected i with
    | false, .waiting, true =>
      some { s.move i .disconnected with connected := Function.update s.connected i false }
    | _, _, _ => none
  | .acceptor => if s.crashed then none else runAcceptor s
  | .run i e => if s.crashed then none else runThread sh ip s i e
  | .remover => if s.crashed then none else runRemover s

end

/-- A server that has just been started on a configuration file. -/
structure Started {ι : Type} (config : Option Str) (s : TcpServer ι) : Prop where
  clients : s.clients = []
  thread : ∀ i, s.thread i = .unborn
  acceptor : s.acceptor = .accepting
  remover : s.remover = .sleeping
  subscribersMtx : s.subscribersMtx = none
  clientsMtx : s.clientsMtx = none
  crashed : s.crashed = false
  config : s.config = config
  received : ∀ i, s.received i = []
  answers : s.answers = []
  log : s.log = []

/-- The runs of a server, in any order of steps. -/
def ServerReach {ι : Type} [DecidableEq ι] (sh : Str → List Str) (ip : ι → Str)
    (config : Option Str) (ok : TcpServer ι → Action ι → Prop) : TcpServer ι → Prop :=
  Reach (Started config) (fun s a t => serverStep sh ip s a = some t) ok

/-! ## One message after the other -/

/-- A thread has `_subscribersMtx`. -/
def Thread.holds : Thread → Bool
  | .handling _ | .running .. | .loaded .. | .executed .. | .notifying => true
  | _ => false

/-- The message that a thread has received and not answered. -/
def Thread.pending : Thread → List Str
  | .incoming msg => [msg]
  | .handling msg => [msg]
  | .running msg _ _ => [msg]
  | .loaded msg _ _ _ _ _ => [msg]
  | .executed msg _ _ _ _ _ => [msg]
  | _ => []

/-- The agent answers a message so, and runs shells with these arguments for it. -/
def Handles (sh : Str → List Str) (msg : Str) (ok : Bool) (args : List Str) : Prop :=
  ∃ commands, onIncomingMsg msg = .ok ⟨ok, commands⟩ ∧ commands.flatMap sh = args

/-- The arguments of the shells for a message. -/
def messageArgs (sh : Str → List Str) (msg : Str) : List Str :=
  match onIncomingMsg msg with
  | .ok handled => handled.commands.flatMap sh
  | .error _ => []

/-- The shells for the messages that have been answered, each for its client. -/
def answeredArgs {ι : Type} (sh : Str → List Str) (answers : List (Answer ι)) : List (ι × Str) :=
  answers.flatMap fun a => (messageArgs sh a.msg).map (Prod.mk a.client)

/-- The shells that have been run. -/
def logArgs {ι : Type} (log : List (Execution ι)) : List (ι × Str) :=
  log.map fun r => (r.connection, r.arg)

/-- What a thread that has the mutex has run of its message, when the shells that have ended make
these contents of the file. -/
def Thread.Doing (sh : Str → List Str) (contents config : Option Str) (done : List Str) :
    Thread → Prop
  | .handling _ => done = [] ∧ config = contents
  | .notifying => done = [] ∧ config = contents
  | .running msg ok rest => Handles sh msg ok (done ++ rest) ∧ config = contents
  | .loaded msg ok _ arg memory rest =>
    Handles sh msg ok (done ++ arg :: rest) ∧ config = contents ∧ memory = contents
  | .executed msg ok e arg memory rest => Handles sh msg ok (done ++ arg :: rest) ∧
    memory = contents ∧ config = (commandText e startupConfig arg memory).or memory
  | _ => False

/-- The shells for a message are being run. -/
def Thread.runs : Thread → Bool
  | .running .. | .loaded .. | .executed .. => true
  | _ => false

theorem Thread.holds_of_runs {thread : Thread} (h : thread.runs = true) :
    thread.holds = true := by
  cases thread <;> first | rfl | cases h

/-- A thread that runs no shells for a message has run none. -/
theorem Thread.Doing.quiet {sh : Str → List Str} {contents config : Option Str} {done : List Str}
    {thread : Thread} (h : thread.Doing sh contents config done) (hruns : thread.runs = false) :
    done = [] ∧ config = contents := by
  cases thread <;> first | exact h | exact h.elim | cases hruns

section
variable {ι : Type} [DecidableEq ι]

/-- The messages of a client that have been answered. -/
def TcpServer.answered (s : TcpServer ι) (i : ι) : List Str :=
  (s.answers.filter (·.client = i)).map (·.msg)

/-- Messages are handled one after the other: the thread that has the mutex is the only one that
handles anything. -/
structure Serial (sh : Str → List Str) (ip : ι → Str) (config : Option Str) (s : TcpServer ι) :
    Prop where
  holder : ∀ i, (s.thread i).holds = true ↔ s.subscribersMtx = some i
  idle : s.subscribersMtx = none →
    s.config = replay config s.log ∧ logArgs s.log = answeredArgs sh s.answers
  busy : ∀ i, s.subscribersMtx = some i → ∃ done,
    logArgs s.log = answeredArgs sh s.answers ++ done.map (Prod.mk i) ∧
      (s.thread i).Doing sh (replay config s.log) s.config done
  wanted : ∀ i, (s.thread i).runs = true → ip i = wantedIP
  answers : ∀ a ∈ s.answers, ip a.client = wantedIP ∧
    Handles sh a.msg a.ok (messageArgs sh a.msg)
  history : ∀ i, ip i = wantedIP → s.answered i ++ (s.thread i).pending = s.received i

variable {sh : Str → List Str} {ip : ι → Str} {config : Option Str} {s t : TcpServer ι} {i : ι}
  {thread : Thread}

omit [DecidableEq ι] in
theorem Handles.messageArgs_eq {msg : Str} {ok : Bool} {args : List Str}
    (h : Handles sh msg ok args) : messageArgs sh msg = args := by
  obtain ⟨commands, hhandled, rfl⟩ := h
  rw [messageArgs, hhandled]

theorem answered_append {a : Answer ι} (hanswers : t.answers = s.answers ++ [a]) (j : ι) :
    t.answered j = if a.client = j then s.answered j ++ [a.msg] else s.answered j := by
  rw [TcpServer.answered, hanswers, List.filter_append, List.map_append, List.filter_singleton]
  by_cases hj : a.client = j
  · simp [TcpServer.answered, hj]
  · simp [TcpServer.answered, hj]

/-- A thread takes a step, and those of the other clients stay where they are. -/
theorem Serial.move (h : Serial sh ip config s)
    (hthread : t.thread = Function.update s.thread i thread)
    (hholds : thread.holds = true ↔ t.subscribersMtx = some i)
    (hothers : ∀ j, j ≠ i → (t.subscribersMtx = some j ↔ s.subscribersMtx = some j))
    (hidle : t.subscribersMtx = none →
      t.config = replay config t.log ∧ logArgs t.log = answeredArgs sh t.answers)
    (hbusy : ∀ j, t.subscribersMtx = some j → ∃ done,
      logArgs t.log = answeredArgs sh t.answers ++ done.map (Prod.mk j) ∧
        (t.thread j).Doing sh (replay config t.log) t.config done)
    (hwanted : thread.runs = true → ip i = wantedIP)
    (hanswers : ∀ a ∈ t.answers, a ∈ s.answers ∨ ip a.client = wantedIP ∧
      Handles sh a.msg a.ok (messageArgs sh a.msg))
    (hhistory : ip i = wantedIP → t.answered i ++ thread.pending = t.received i)
    (hkept : ∀ j, j ≠ i → t.answered j = s.answered j ∧ t.received j = s.received j) :
    Serial sh ip config t := by
  have hthread : ∀ j, t.thread j = if j = i then thread else s.thread j := by
    intro j
    rw [hthread, Function.update_apply]
  refine ⟨fun j => ?_, hidle, hbusy, fun j hruns => ?_, fun a ha => ?_, fun j hj => ?_⟩
  · rw [hthread]
    split_ifs with hji
    · rw [hji]
      exact hholds
    · rw [hothers j hji]
      exact h.holder j
  · rw [hthread] at hruns
    split_ifs at hruns with hji
    · rw [hji]
      exact hwanted hruns
    · exact h.wanted j hruns
  · exact (hanswers a ha).elim (h.answers a) id
  · rw [hthread]
    split_ifs with hji
    · rw [hji] at hj ⊢
      exact hhistory hj
    · obtain ⟨hanswered, hreceived⟩ := hkept j hji
      rw [hanswered, hreceived]
      exact h.history j hj

/-- A step of a thread that has not got the mutex and does not take it. -/
theorem Serial.away (h : Serial sh ip config s)
    (hthread : t.thread = Function.update s.thread i thread)
    (hbefore : (s.thread i).holds = false) (hafter : thread.holds = false)
    (hruns : thread.runs = false) (hmtx : t.subscribersMtx = s.subscribersMtx)
    (hconfig : t.config = s.config) (hlog : t.log = s.log) (hanswers : t.answers = s.answers)
    (hhistory : ip i = wantedIP → s.answered i ++ thread.pending = t.received i)
    (hkept : ∀ j, j ≠ i → t.received j = s.received j) : Serial sh ip config t := by
  have hanswered : ∀ j, t.answered j = s.answered j := by
    intro j
    rw [TcpServer.answered, hanswers, TcpServer.answered]
  have hfree : ∀ j, t.subscribersMtx = some j → j ≠ i := by
    rintro j hj rfl
    rw [hmtx, ← h.holder, hbefore] at hj
    cases hj
  apply h.move hthread
  · rw [hafter]
    exact iff_of_false Bool.false_ne_true fun hi => hfree i hi rfl
  · intro j _
    rw [hmtx]
  · intro hnone
    rw [hconfig, hlog, hanswers]
    exact h.idle (hmtx ▸ hnone)
  · intro j hj
    rw [hconfig, hlog, hanswers, hthread, Function.update_of_ne (hfree j hj)]
    exact h.busy j (hmtx ▸ hj)
  · intro hnot
    rw [hruns] at hnot
    cases hnot
  · intro a ha
    exact .inl (hanswers ▸ ha)
  · intro hi
    rw [hanswered]
    exact hhistory hi
  · intro j hj
    exact ⟨hanswered j, hkept j hj⟩

/-- A step of the thread that has the mutex, or takes it and keeps it. -/
theorem Serial.within (h : Serial sh ip config s)
    (hthread : t.thread = Function.update s.thread i thread)
    (hbefore : s.subscribersMtx = none ∨ s.subscribersMtx = some i)
    (hholds : thread.holds = true) (hmtx : t.subscribersMtx = some i)
    (hanswers : t.answers = s.answers) (hreceived : t.received = s.received)
    (hpending : thread.pending = (s.thread i).pending)
    (hwanted : thread.runs = true → ip i = wantedIP)
    (hdoing : ∃ done, logArgs t.log = answeredArgs sh s.answers ++ done.map (Prod.mk i) ∧
      thread.Doing sh (replay config t.log) t.config done) : Serial sh ip config t := by
  have hanswered : ∀ j, t.answered j = s.answered j := by
    intro j
    rw [TcpServer.answered, hanswers, TcpServer.answered]
  apply h.move hthread
  · exact iff_of_true hholds hmtx
  · intro j hj
    rw [hmtx, Option.some.injEq]
    refine iff_of_false (Ne.symm hj) fun hother => ?_
    rcases hbefore with hnone | hmine
    · rw [hnone] at hother
      cases hother
    · rw [hmine] at hother
      exact hj (Option.some.inj hother).symm
  · intro hnone
    rw [hmtx] at hnone
    cases hnone
  · intro j hj
    obtain rfl : i = j := Option.some.inj (hmtx.symm.trans hj)
    rw [hanswers, hthread, Function.update_self]
    exact hdoing
  · exact hwanted
  · intro a ha
    exact .inl (hanswers ▸ ha)
  · intro hi
    rw [hanswered, hpending, hreceived]
    exact h.history i hi
  · intro j _
    exact ⟨hanswered j, by rw [hreceived]⟩

/-- The thread that has the mutex releases it. -/
theorem Serial.release (h : Serial sh ip config s)
    (hthread : t.thread = Function.update s.thread i thread)
    (hmine : s.subscribersMtx = some i) (hholds : thread.holds = false)
    (hruns : thread.runs = false) (hmtx : t.subscribersMtx = none)
    (hidle : t.config = replay config t.log ∧ logArgs t.log = answeredArgs sh t.answers)
    (hanswers : ∀ a ∈ t.answers, a ∈ s.answers ∨ ip a.client = wantedIP ∧
      Handles sh a.msg a.ok (messageArgs sh a.msg))
    (hhistory : ip i = wantedIP → t.answered i ++ thread.pending = s.answered i ++
      (s.thread i).pending)
    (hkept : ∀ j, j ≠ i → t.answered j = s.answered j) (hreceived : t.received = s.received) :
    Serial sh ip config t := by
  apply h.move hthread
  · rw [hholds, hmtx]
    simp
  · intro j hj
    rw [hmtx, hmine, Option.some.injEq]
    exact iff_of_false (by simp) (Ne.symm hj)
  · exact fun _ => hidle
  · intro j hj
    rw [hmtx] at hj
    cases hj
  · intro hnot
    rw [hruns] at hnot
    cases hnot
  · exact hanswers
  · intro hi
    rw [hhistory hi, hreceived]
    exact h.history i hi
  · intro j hj
    exact ⟨hkept j hj, by rw [hreceived]⟩

/-- A step of a thread that handles no messages. -/
theorem Serial.congr (h : Serial sh ip config s) (hthread : t.thread = s.thread)
    (hmtx : t.subscribersMtx = s.subscribersMtx) (hconfig : t.config = s.config)
    (hlog : t.log = s.log) (hanswers : t.answers = s.answers)
    (hreceived : t.received = s.received) : Serial sh ip config t := by
  obtain ⟨hholder, hidle, hbusy, hwanted, hall, hhistory⟩ := h
  refine ⟨?_, ?_, ?_, ?_, ?_, ?_⟩
  · rwa [hthread, hmtx]
  · rwa [hmtx, hconfig, hlog, hanswers]
  · rwa [hmtx, hconfig, hlog, hanswers, hthread]
  · rwa [hthread]
  · rwa [hanswers]
  · intro j hj
    rw [TcpServer.answered, hanswers, hthread, hreceived]
    exact hhistory j hj

/-- The thread of a client keeps the order. -/
theorem Serial.runThread {e : Env} (h : Serial sh ip config s)
    (hstep : runThread sh ip s i e = some t) : Serial sh ip config t := by
  unfold Cpp.runThread at hstep
  have hmine : (s.thread i).holds = true → s.subscribersMtx = some i := (h.holder i).mp
  have hhistory := h.history i
  have hwanted := h.wanted i
  -- what is asserted where the thread has the mutex
  have hbusy := h.busy i
  cases hst : s.thread i with
  | unborn => simp [hst] at hstep
  | waiting =>
    simp only [hst] at hstep
    split at hstep
    · cases hstep
    · obtain rfl := Option.some.inj hstep
      refine h.away rfl (by rw [hst]; rfl) rfl rfl rfl rfl rfl rfl (fun hi => ?_) fun _ _ => rfl
      have hsame := hhistory hi
      rwa [hst] at hsame
  | incoming msg =>
    simp only [hst] at hstep
    split at hstep
    · next hfree =>
      obtain rfl := Option.some.inj hstep
      have hnone := Option.isNone_iff_eq_none.mp hfree
      obtain ⟨hconfig, hlog⟩ := h.idle hnone
      refine h.within rfl (.inl hnone) rfl rfl rfl rfl (by rw [hst]; rfl) (fun hnot => ?_) ⟨[], ?_⟩
      · cases hnot
      · exact ⟨by rw [List.map_nil, List.append_nil]; exact hlog, rfl, hconfig⟩
    · cases hstep
  | handling msg =>
    have hmtx := hmine (by rw [hst]; rfl)
    obtain ⟨done, hlog, hdoing⟩ := hbusy hmtx
    rw [hst] at hdoing
    obtain ⟨rfl, hconfig⟩ := hdoing
    simp only [hst] at hstep
    split at hstep
    · next hip =>
      split at hstep
      · next handled hhandled =>
        obtain rfl := Option.some.inj hstep
        refine h.within rfl (.inr hmtx) rfl hmtx rfl rfl (by rw [hst]; rfl) (fun _ => hip) ⟨[], ?_⟩
        exact ⟨hlog, ⟨handled.commands, hhandled, rfl⟩, hconfig⟩
      · obtain rfl := Option.some.inj hstep
        exact h.congr rfl rfl rfl rfl rfl rfl
    · next hip =>
      obtain rfl := Option.some.inj hstep
      rw [List.map_nil, List.append_nil] at hlog
      exact h.release rfl hmtx rfl rfl rfl ⟨hconfig, hlog⟩ (fun _ ha => .inl ha)
        (fun hi => absurd hi hip) (fun _ _ => rfl) rfl
  | running msg ok args =>
    have hmtx := hmine (by rw [hst]; rfl)
    have hip := hwanted (by rw [hst]; rfl)
    obtain ⟨done, hlog, hdoing⟩ := hbusy hmtx
    rw [hst] at hdoing
    obtain ⟨hhandles, hconfig⟩ := hdoing
    cases args with
    | nil =>
      simp only [hst] at hstep
      obtain rfl := Option.some.inj hstep
      rw [List.append_nil] at hhandles
      have hargs := hhandles.messageArgs_eq
      refine h.release rfl hmtx rfl rfl rfl ⟨hconfig, ?_⟩ ?_ ?_ ?_ rfl
      · change logArgs s.log = answeredArgs sh (s.answers ++ [⟨i, msg, ok⟩])
        rw [answeredArgs, List.flatMap_append, List.flatMap_singleton, hargs]
        exact hlog
      · intro a ha
        rcases List.mem_append.mp ha with ha | ha
        · exact .inl ha
        · rw [List.mem_singleton.mp ha, hargs]
          exact .inr ⟨hip, hhandles⟩
      · intro _
        rw [hst, answered_append rfl, if_pos rfl]
        exact List.append_nil _
      · intro j hj
        rw [answered_append rfl, if_neg (Ne.symm hj)]
    | cons arg rest =>
      simp only [hst] at hstep
      obtain rfl := Option.some.inj hstep
      exact h.within rfl (.inr hmtx) rfl hmtx rfl rfl (by rw [hst]; rfl) (fun _ => hip)
        ⟨done, hlog, hhandles, hconfig, hconfig⟩
  | loaded msg ok e' arg memory rest =>
    have hmtx := hmine (by rw [hst]; rfl)
    have hip := hwanted (by rw [hst]; rfl)
    obtain ⟨done, hlog, hdoing⟩ := hbusy hmtx
    rw [hst] at hdoing
    obtain ⟨hhandles, hconfig, hmemory⟩ := hdoing
    simp only [hst] at hstep
    obtain rfl := Option.some.inj hstep
    refine h.within rfl (.inr hmtx) rfl hmtx rfl rfl (by rw [hst]; rfl) (fun _ => hip)
      ⟨done, hlog, hhandles, hmemory, ?_⟩
    rw [hmemory, ← hconfig]
  | executed msg ok e' arg memory rest =>
    have hmtx := hmine (by rw [hst]; rfl)
    have hip := hwanted (by rw [hst]; rfl)
    obtain ⟨done, hlog, hdoing⟩ := hbusy hmtx
    rw [hst] at hdoing
    obtain ⟨hhandles, hmemory, hconfig⟩ := hdoing
    simp only [hst] at hstep
    obtain rfl := Option.some.inj hstep
    refine h.within rfl (.inr hmtx) rfl hmtx rfl rfl (by rw [hst]; rfl) (fun _ => hip)
      ⟨done ++ [arg], ?_, ?_, ?_⟩
    · change logArgs (s.log ++ [⟨i, e', arg⟩]) = _
      rw [logArgs, List.map_append, ← logArgs, hlog, List.map_append, List.append_assoc]
      rfl
    · rw [List.append_assoc]
      exact hhandles
    · change _ = replay config (s.log ++ [⟨i, e', arg⟩])
      rw [Go.replay_append, ← hmemory, vtyshEval, hconfig]
  | disconnected =>
    simp only [hst] at hstep
    split at hstep
    · next hfree =>
      obtain rfl := Option.some.inj hstep
      have hnone := Option.isNone_iff_eq_none.mp hfree
      obtain ⟨hconfig, hlog⟩ := h.idle hnone
      refine h.within rfl (.inl hnone) rfl rfl rfl rfl (by rw [hst]; rfl) (fun hnot => ?_) ⟨[], ?_⟩
      · cases hnot
      · exact ⟨by rw [List.map_nil, List.append_nil]; exact hlog, rfl, hconfig⟩
    · cases hstep
  | notifying =>
    have hmtx := hmine (by rw [hst]; rfl)
    obtain ⟨done, hlog, hdoing⟩ := hbusy hmtx
    rw [hst] at hdoing
    obtain ⟨rfl, hconfig⟩ := hdoing
    rw [List.map_nil, List.append_nil] at hlog
    simp only [hst] at hstep
    obtain rfl := Option.some.inj hstep
    exact h.release rfl hmtx rfl rfl rfl ⟨hconfig, hlog⟩ (fun _ ha => .inl ha)
      (fun _ => by rw [hst]; rfl) (fun _ _ => rfl) rfl
  | returned => simp [hst] at hstep
  | deleted => simp [hst] at hstep

theorem Serial.step {a : Action ι} (h : Serial sh ip config s)
    (hstep : serverStep sh ip s a = some t) : Serial sh ip config t := by
  have hhistory := h.history
  cases a with
  | accept i =>
    simp only [serverStep] at hstep
    split at hstep
    · next hunborn =>
      obtain rfl := Option.some.inj hstep
      refine h.away rfl (by rw [hunborn]; rfl) rfl rfl rfl rfl rfl rfl (fun hi => ?_) fun _ _ => rfl
      have hsame := hhistory i hi
      rwa [hunborn] at hsame
    · cases hstep
  | acceptor =>
    simp only [serverStep, runAcceptor] at hstep
    split at hstep
    · cases hstep
    · split at hstep
      · cases hstep
      · split at hstep
        · obtain rfl := Option.some.inj hstep
          exact h.congr rfl rfl rfl rfl rfl rfl
        · cases hstep
      · obtain rfl := Option.some.inj hstep
        exact h.congr rfl rfl rfl rfl rfl rfl
  | receive i msg =>
    simp only [serverStep] at hstep
    split at hstep
    · next hwaiting _ =>
      obtain rfl := Option.some.inj hstep
      refine h.away rfl (by rw [hwaiting]; rfl) rfl rfl rfl rfl rfl rfl (fun hi => ?_)
        fun j hj => Function.update_of_ne hj _ _
      have hsame := hhistory i hi
      rw [hwaiting] at hsame
      have hsame : s.answered i = s.received i := (List.append_nil _).symm.trans hsame
      change s.answered i ++ [msg] = Function.update s.received i (s.received i ++ [msg]) i
      rw [Function.update_self, hsame]
    · cases hstep
  | hangUp i =>
    simp only [serverStep] at hstep
    split at hstep
    · next hwaiting _ =>
      obtain rfl := Option.some.inj hstep
      refine h.away rfl (by rw [hwaiting]; rfl) rfl rfl rfl rfl rfl rfl (fun hi => ?_)
        fun _ _ => rfl
      have hsame := hhistory i hi
      rwa [hwaiting] at hsame
    · cases hstep
  | run i e =>
    simp only [serverStep] at hstep
    split at hstep
    · cases hstep
    · exact h.runThread hstep
  | remover =>
    simp only [serverStep, runRemover] at hstep
    split at hstep
    · cases hstep
    · split at hstep
      · split at hstep
        · obtain rfl := Option.some.inj hstep
          exact h.congr rfl rfl rfl rfl rfl rfl
        · cases hstep
      · split at hstep
        · obtain rfl := Option.some.inj hstep
          exact h.congr rfl rfl rfl rfl rfl rfl
        · obtain rfl := Option.some.inj hstep
          exact h.congr rfl rfl rfl rfl rfl rfl
      · next i _ =>
        split at hstep
        · next hreturned =>
          obtain rfl := Option.some.inj hstep
          refine h.away rfl (by rw [hreturned]; rfl) rfl rfl rfl rfl rfl rfl (fun hi => ?_)
            fun _ _ => rfl
          have hsame := hhistory i hi
          rwa [hreturned] at hsame
        · cases hstep

theorem serial_of_started (h : Started config s) : Serial sh ip config s := by
  refine ⟨fun i => ?_, fun _ => ?_, fun i hi => ?_, fun i hruns => ?_, fun a ha => ?_,
    fun i _ => ?_⟩
  · rw [h.thread, h.subscribersMtx]
    exact iff_of_false (by decide) (by simp)
  · rw [h.config, h.log, h.answers]
    exact ⟨rfl, rfl⟩
  · rw [h.subscribersMtx] at hi
    cases hi
  · rw [h.thread] at hruns
    cases hruns
  · rw [h.answers] at ha
    cases ha
  · rw [TcpServer.answered, h.answers, h.thread, h.received]
    rfl

theorem serial_of_reach {ok : TcpServer ι → Action ι → Prop}
    (h : ServerReach sh ip config ok s) : Serial sh ip config s :=
  Reach.invariant (fun _ hinit => serial_of_started hinit) (fun _ _ _ hs _ hstep => hs.step hstep) h

end

/-- The state after steps, if all of them can be taken. -/
def serverSteps {ι : Type} [DecidableEq ι] (sh : Str → List Str) (ip : ι → Str) :
    TcpServer ι → List (Action ι) → Option (TcpServer ι)
  | s, [] => some s
  | s, a :: as => (serverStep sh ip s a).bind (serverSteps sh ip · as)

theorem serverReach_steps {ι : Type} [DecidableEq ι] {sh : Str → List Str} {ip : ι → Str}
    {config : Option Str} {ok : TcpServer ι → Action ι → Prop} {s t : TcpServer ι}
    {as : List (Action ι)} (h : ServerReach sh ip config ok s) (hok : ∀ s, ∀ a ∈ as, ok s a)
    (hsteps : serverSteps sh ip s as = some t) : ServerReach sh ip config ok t := by
  induction as generalizing s with
  | nil => exact Option.some.inj hsteps ▸ h
  | cons a as ih =>
    obtain ⟨u, hstep, hrest⟩ := Option.bind_eq_some_iff.mp hsteps
    exact ih (h.step (hok s a List.mem_cons_self) hstep)
      (fun s b hb => hok s b (List.mem_cons_of_mem _ hb)) hrest

/-- A server for two clients, before they connect. -/
def idleServer : TcpServer Bool where
  clients := []
  connected _ := false
  thread _ := .unborn
  acceptor := .accepting
  remover := .sleeping
  subscribersMtx := none
  clientsMtx := none
  crashed := false
  config := none
  received _ := []
  answers := []
  log := []

/-- A message that sets the host name. -/
def hostNameText (i : Bool) : Str :=
  unlines (messageLines (str "SET_HOST_NAME") [(str "HostName", Go.hostNames i)])

/-- Both clients send their message before the first is answered. -/
def bothSend : List (Action Bool) :=
  [.accept true, .acceptor, .acceptor, .accept false, .receive true (hostNameText true), .acceptor,
    .run true obligingEnv, .receive false (hostNameText false), .acceptor, .remover,
    .run true obligingEnv, .remover] ++
    List.replicate 7 (.run true obligingEnv) ++ List.replicate 9 (.run false obligingEnv)

theorem idleServer_started : Started none idleServer :=
  ⟨rfl, fun _ => rfl, rfl, rfl, rfl, rfl, rfl, rfl, fun _ => rfl, rfl, rfl⟩

end QrWireguard.WebAgent.Cpp
