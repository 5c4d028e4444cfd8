import Mathlib.Algebra.Order.BigOperators.Group.List
import Mathlib.Logic.Relation
import QrWireguard.WebAgent.TcpServer

/-!
# The C++ agent at rest

The threads of the agent wait for each other: for `_clientsMtx`, for `_subscribersMtx`, and the
remover, which has `_clientsMtx`, for a receive thread that may need `_subscribersMtx`. When no
client connects, sends or hangs up, and the remover is not woken, what they do on their own comes
to an end, and not because they wait for each other.
-/

namespace QrWireguard.WebAgent.Cpp

open Vtysh
open Go (replay)

/-! ## The objects of the clients -/

/-- The object of a client exists. -/
def Thread.created : Thread → Bool
  | .unborn | .deleted => false
  | _ => true

/-- The client that the acceptor has created and not put in the list. -/
def Acceptor.fresh {ι : Type} : Acceptor ι → Option ι
  | .accepting => none
  | .started i => some i
  | .pushing i => some i

section
variable {ι : Type} [DecidableEq ι]

/-- The objects that exist are those in the list and the one that the acceptor holds, and
`_clientsMtx` is with the thread that changes the list. -/
structure Objects (s : TcpServer ι) : Prop where
  nodup : s.clients.Nodup
  created : ∀ i, (s.thread i).created = true ↔ i ∈ s.clients ∨ s.acceptor.fresh = some i
  fresh : ∀ i, s.acceptor.fresh = some i → i ∉ s.clients
  joining : ∀ i, s.remover = .joining i → i ∈ s.clients ∧ s.connected i = false
  pushing : s.clientsMtx = some .acceptor ↔ ∃ i, s.acceptor = .pushing i
  removing : s.clientsMtx = some .remover ↔ s.remover ≠ .sleeping

variable {sh : Str → List Str} {ip : ι → Str} {config : Option Str} {s t : TcpServer ι} {i : ι}

/-- What is left to do for a thread before it waits for its connection or returns. -/
def Thread.left (sh : Str → List Str) : Thread → Nat
  | .incoming msg => 3 * (messageArgs sh msg).length + 4
  | .handling msg => 3 * (messageArgs sh msg).length + 3
  | .running _ _ rest => 3 * rest.length + 2
  | .loaded _ _ _ _ _ rest => 3 * rest.length + 4
  | .executed _ _ _ _ _ rest => 3 * rest.length + 3
  | .disconnected => 3
  | .notifying => 2
  | .waiting => 1
  | .unborn | .returned | .deleted => 0

/-- All that a step of a client's thread can do: it is a fault, or the thread moves on. -/
theorem runThread_cases {e : Env} (hstep : runThread sh ip s i e = some t) :
    (∃ msg err, ip i = wantedIP ∧ s.thread i = .handling msg ∧ onIncomingMsg msg = .error err ∧
      t = { s with crashed := true }) ∨
    ∃ thread, t.thread = Function.update s.thread i thread ∧ thread.created = true ∧
      (s.thread i).created = true ∧ thread.left sh < (s.thread i).left sh ∧
      t.clients = s.clients ∧ t.connected = s.connected ∧ t.acceptor = s.acceptor ∧
      t.remover = s.remover ∧ t.clientsMtx = s.clientsMtx ∧ t.crashed = s.crashed := by
  unfold runThread at hstep
  cases hst : s.thread i with
  | unborn => simp [hst] at hstep
  | returned => simp [hst] at hstep
  | deleted => simp [hst] at hstep
  | waiting =>
    simp only [hst] at hstep
    split at hstep
    · cases hstep
    · obtain rfl := Option.some.inj hstep
      exact .inr ⟨.returned, rfl, rfl, rfl, Nat.zero_lt_one, rfl, rfl, rfl, rfl, rfl, rfl⟩
  | incoming msg =>
    simp only [hst] at hstep
    split at hstep
    · obtain rfl := Option.some.inj hstep
      exact .inr ⟨.handling msg, rfl, rfl, rfl, Nat.lt_succ_self _, rfl, rfl, rfl, rfl, rfl, rfl⟩
    · cases hstep
  | handling msg =>
    simp only [hst] at hstep
    split at hstep
    · next hip =>
      split at hstep
      · next handled hhandled =>
        obtain rfl := Option.some.inj hstep
        refine .inr ⟨_, rfl, rfl, rfl, ?_, rfl, rfl, rfl, rfl, rfl, rfl⟩
        rw [Thread.left, Thread.left, messageArgs, hhandled]
        exact Nat.lt_succ_self _
      · next err herr =>
        obtain rfl := Option.some.inj hstep
        exact .inl ⟨msg, err, hip, rfl, herr, rfl⟩
    · obtain rfl := Option.some.inj hstep
      refine .inr ⟨.waiting, rfl, rfl, rfl, ?_, rfl, rfl, rfl, rfl, rfl, rfl⟩
      simp only [Thread.left]
      omega
  | running msg ok args =>
    cases args with
    | nil =>
      simp only [hst] at hstep
      obtain rfl := Option.some.inj hstep
      exact .inr ⟨.waiting, rfl, rfl, rfl, Nat.one_lt_two, rfl, rfl, rfl, rfl, rfl, rfl⟩
    | cons arg rest =>
      simp only [hst] at hstep
      obtain rfl := Option.some.inj hstep
      exact .inr ⟨_, rfl, rfl, rfl, Nat.lt_succ_self _, rfl, rfl, rfl, rfl, rfl, rfl⟩
  | loaded msg ok e' arg memory rest =>
    simp only [hst] at hstep
    obtain rfl := Option.some.inj hstep
    exact .inr ⟨_, rfl, rfl, rfl, Nat.lt_succ_self _, rfl, rfl, rfl, rfl, rfl, rfl⟩
  | executed msg ok e' arg memory rest =>
    simp only [hst] at hstep
    obtain rfl := Option.some.inj hstep
    exact .inr ⟨_, rfl, rfl, rfl, Nat.lt_succ_self _, rfl, rfl, rfl, rfl, rfl, rfl⟩
  | disconnected =>
    simp only [hst] at hstep
    split at hstep
    · obtain rfl := Option.some.inj hstep
      exact .inr ⟨.notifying, rfl, rfl, rfl, Nat.lt_succ_self _, rfl, rfl, rfl, rfl, rfl, rfl⟩
    · cases hstep
  | notifying =>
    simp only [hst] at hstep
    obtain rfl := Option.some.inj hstep
    exact .inr ⟨.returned, rfl, rfl, rfl, Nat.two_pos, rfl, rfl, rfl, rfl, rfl, rfl⟩

/-- A step of a thread whose object exists before and after it. -/
theorem Objects.moves {thread : Thread} (h : Objects s)
    (hthread : t.thread = Function.update s.thread i thread)
    (hbefore : (s.thread i).created = true) (hafter : thread.created = true)
    (hclients : t.clients = s.clients)
    (hconnected : ∀ j, s.connected j = false → t.connected j = false)
    (hacceptor : t.acceptor = s.acceptor) (hremover : t.remover = s.remover)
    (hmtx : t.clientsMtx = s.clientsMtx) : Objects t := by
  obtain ⟨hnodup, hcreated, hfresh, hjoining, hpushing, hremoving⟩ := h
  refine ⟨?_, fun j => ?_, ?_, fun j hj => ?_, ?_, ?_⟩
  · rwa [hclients]
  · rw [hclients, hacceptor, ← hcreated, hthread]
    by_cases hji : j = i
    · rw [hji, Function.update_self, hbefore, hafter]
    · rw [Function.update_of_ne hji]
  · rwa [hclients, hacceptor]
  · rw [hremover] at hj
    rw [hclients]
    exact ⟨(hjoining j hj).1, hconnected j (hjoining j hj).2⟩
  · rwa [hacceptor, hmtx]
  · rwa [hremover, hmtx]

theorem Objects.accept (h : Objects s) (hunborn : s.thread i = .unborn)
    (haccepting : s.acceptor = .accepting) :
    Objects { s.move i .waiting with
      acceptor := .started i, connected := Function.update s.connected i true } := by
  obtain ⟨hnodup, hcreated, hfresh, hjoining, hpushing, hremoving⟩ := h
  rw [haccepting] at hcreated hpushing
  have hnew : i ∉ s.clients := by
    intro hi
    have hyes := (hcreated i).mpr (.inl hi)
    rw [hunborn] at hyes
    cases hyes
  refine ⟨hnodup, fun j => ?_, fun j hj => ?_, fun j hj => ?_, ?_, hremoving⟩
  · change (Function.update s.thread i .waiting j).created = true ↔
      j ∈ s.clients ∨ some i = some j
    by_cases hji : j = i
    · rw [hji, Function.update_self]
      exact iff_of_true rfl (.inr rfl)
    · have hij : some i ≠ some j := fun hij => hji (Option.some.inj hij).symm
      rw [Function.update_of_ne hji, hcreated, Acceptor.fresh, or_iff_left hij,
        or_iff_left (Option.some_ne_none j).symm]
  · exact Option.some.inj hj ▸ hnew
  · have hji : j ≠ i := by
      intro hji
      exact hnew (hji ▸ (hjoining j hj).1)
    exact ⟨(hjoining j hj).1, (Function.update_of_ne hji _ _).trans (hjoining j hj).2⟩
  · rw [show ({ s.move i .waiting with
      acceptor := .started i, connected := Function.update s.connected i true } :
        TcpServer ι).clientsMtx = s.clientsMtx from rfl, hpushing]
    simp

omit [DecidableEq ι] in
theorem Objects.acceptor (h : Objects s) (hstep : runAcceptor s = some t) : Objects t := by
  obtain ⟨hnodup, hcreated, hfresh, hjoining, hpushing, hremoving⟩ := h
  unfold runAcceptor at hstep
  split at hstep
  · cases hstep
  · next i hi =>
    rw [hi] at hcreated hfresh
    split at hstep
    · next hfree =>
      obtain rfl := Option.some.inj hstep
      rw [Option.isNone_iff_eq_none.mp hfree] at hremoving
      refine ⟨hnodup, hcreated, hfresh, hjoining, iff_of_true rfl ⟨i, rfl⟩, ?_⟩
      rw [← hremoving]
      simp
    · cases hstep
  · next i hi =>
    obtain rfl := Option.some.inj hstep
    rw [hi] at hcreated hfresh
    have hmtx := hpushing.mpr ⟨i, hi⟩
    rw [hmtx] at hremoving
    refine ⟨?_, fun j => ?_, fun j hj => ?_, fun j hj => ?_, ?_, ?_⟩
    · exact List.nodup_append.mpr ⟨hnodup, List.nodup_singleton i, fun a ha b hb hab =>
        hfresh i rfl (List.mem_singleton.mp hb ▸ hab ▸ ha)⟩
    · rw [hcreated, Acceptor.fresh, Acceptor.fresh, List.mem_append, List.mem_singleton,
        Option.some.injEq, eq_comm (a := i)]
      simp
    · cases hj
    · exact ⟨List.mem_append_left _ (hjoining j hj).1, (hjoining j hj).2⟩
    · simp
    · rw [← hremoving]
      simp

theorem Objects.remover (h : Objects s) (hstep : runRemover s = some t) : Objects t := by
  obtain ⟨hnodup, hcreated, hfresh, hjoining, hpushing, hremoving⟩ := h
  unfold runRemover at hstep
  split at hstep
  · split at hstep
    · next hfree =>
      obtain rfl := Option.some.inj hstep
      rw [Option.isNone_iff_eq_none.mp hfree] at hpushing
      refine ⟨hnodup, hcreated, hfresh, fun j hj => ?_, ?_, iff_of_true rfl ?_⟩
      · cases hj
      · rw [← hpushing]
        simp
      · simp
    · cases hstep
  · next hscanning =>
    have hmtx : s.clientsMtx = some .remover := hremoving.mpr (by rw [hscanning]; simp)
    split at hstep
    · next i hi =>
      obtain rfl := Option.some.inj hstep
      refine ⟨hnodup, hcreated, hfresh, fun j hj => ?_, hpushing, iff_of_true hmtx (by simp)⟩
      injection hj with hj
      rw [← hj]
      exact ⟨List.mem_of_find?_eq_some hi, Function.update_self ..⟩
    · obtain rfl := Option.some.inj hstep
      rw [hmtx] at hpushing
      refine ⟨hnodup, hcreated, hfresh, fun j hj => ?_, ?_, ?_⟩
      · cases hj
      · rw [← hpushing]
        simp
      · simp
  · next i hi =>
    obtain ⟨hmem, -⟩ := hjoining i hi
    split at hstep
    · obtain rfl := Option.some.inj hstep
      have hmtx : s.clientsMtx = some .remover := hremoving.mpr (by rw [hi]; simp)
      refine ⟨hnodup.erase i, fun j => ?_, fun j hj hmem' => ?_, fun j hj => ?_, hpushing,
        iff_of_true hmtx (by simp)⟩
      · change (Function.update s.thread i .deleted j).created = true ↔
          j ∈ s.clients.erase i ∨ s.acceptor.fresh = some j
        by_cases hji : j = i
        · rw [hji, Function.update_self]
          refine iff_of_false Bool.false_ne_true fun hin => hin.elim ?_ fun hf => hfresh i hf hmem
          exact fun hin => hnodup.not_mem_erase hin
        · rw [Function.update_of_ne hji, hcreated, List.mem_erase_of_ne hji]
      · exact hfresh j hj (List.mem_of_mem_erase hmem')
      · cases hj
    · cases hstep

theorem Objects.step {a : Action ι} (h : Objects s) (hstep : serverStep sh ip s a = some t) :
    Objects t := by
  cases a with
  | accept i =>
    simp only [serverStep] at hstep
    split at hstep
    · next haccepting hunborn =>
      obtain rfl := Option.some.inj hstep
      exact h.accept hunborn haccepting
    · cases hstep
  | acceptor =>
    simp only [serverStep] at hstep
    split at hstep
    · cases hstep
    · exact h.acceptor hstep
  | receive i msg =>
    simp only [serverStep] at hstep
    split at hstep
    · next hwaiting _ =>
      obtain rfl := Option.some.inj hstep
      exact h.moves rfl (by rw [hwaiting]; rfl) rfl rfl (fun _ hj => hj) rfl rfl rfl
    · cases hstep
  | hangUp i =>
    simp only [serverStep] at hstep
    split at hstep
    · next hwaiting _ =>
      obtain rfl := Option.some.inj hstep
      refine h.moves rfl (by rw [hwaiting]; rfl) rfl rfl (fun j hj => ?_) rfl rfl rfl
      change Function.update s.connected i false j = false
      rw [Function.update_apply, hj, ite_self]
    · cases hstep
  | run i e =>
    simp only [serverStep] at hstep
    split at hstep
    · cases hstep
    · rcases runThread_cases hstep with ⟨_, _, _, _, _, rfl⟩ |
        ⟨_, hthread, hafter, hbefore, _, hclients, hconnected, hacceptor, hremover, hmtx, _⟩
      · exact ⟨h.nodup, h.created, h.fresh, h.joining, h.pushing, h.removing⟩
      · exact h.moves hthread hbefore hafter hclients (fun j hj => hconnected ▸ hj) hacceptor
          hremover hmtx
  | remover =>
    simp only [serverStep] at hstep
    split at hstep
    · cases hstep
    · exact h.remover hstep

omit [DecidableEq ι] in
theorem objects_of_started (h : Started config s) : Objects s := by
  refine ⟨?_, fun i => ?_, fun i _ => ?_, fun i hi => ?_, ?_, ?_⟩
  · rw [h.clients]
    exact List.nodup_nil
  · rw [h.thread, h.clients, h.acceptor]
    simp [Thread.created, Acceptor.fresh]
  · rw [h.clients]
    exact List.not_mem_nil
  · rw [h.remover] at hi
    cases hi
  · rw [h.clientsMtx, h.acceptor]
    simp
  · rw [h.clientsMtx, h.remover]
    simp

/-! ## What the threads do on their own -/

/-- The threads take this step on their own, the remover after it has been woken. -/
def Action.Own (s : TcpServer ι) : Action ι → Prop
  | .acceptor => True
  | .run _ _ => True
  | .remover => s.remover ≠ .sleeping
  | .accept _ | .receive _ _ | .hangUp _ => False

/-- A step that no client makes. -/
def OwnStep (sh : Str → List Str) (ip : ι → Str) (s t : TcpServer ι) : Prop :=
  ∃ a : Action ι, a.Own s ∧ serverStep sh ip s a = some t

omit [DecidableEq ι] in
/-- What is left to do for the acceptor, which may lengthen the list. -/
def Acceptor.left : Acceptor ι → Nat
  | .accepting => 0
  | .started _ => 4
  | .pushing _ => 3

omit [DecidableEq ι] in
/-- What is left to do for the remover, with as many clients in the list. -/
def Remover.left (n : Nat) : Remover ι → Nat
  | .sleeping => 0
  | .scanning => 2 * n + 1
  | .joining _ => 2 * n

/-- What is left to do when the objects of these clients exist. -/
def TcpServer.left (sh : Str → List Str) (created : List ι) (s : TcpServer ι) : Nat :=
  (created.map fun i => (s.thread i).left sh).sum + s.acceptor.left +
    s.remover.left s.clients.length + (!s.crashed).toNat

theorem sum_left_lt {created : List ι} {thread : Thread} (hi : i ∈ created)
    (hthread : t.thread = Function.update s.thread i thread)
    (hlt : thread.left sh < (s.thread i).left sh) :
    (created.map fun i => (t.thread i).left sh).sum <
      (created.map fun i => (s.thread i).left sh).sum := by
  have hpoint : ∀ j, j ≠ i → (t.thread j).left sh = (s.thread j).left sh := by
    intro j hj
    rw [hthread, Function.update_of_ne hj]
  have hat : (t.thread i).left sh < (s.thread i).left sh := by
    rw [hthread, Function.update_self]
    exact hlt
  apply List.sum_lt_sum
  · intro j _
    by_cases hji : j = i
    · rw [hji]
      exact hat.le
    · exact (hpoint j hji).le
  · exact ⟨i, hi, hat⟩

/-- A step that no client makes leaves less to do, and creates no client. -/
theorem OwnStep.decreases {created : List ι} (h : Objects s)
    (hcreated : ∀ i, (s.thread i).created = true → i ∈ created) (hstep : OwnStep sh ip s t) :
    (∀ i, (t.thread i).created = true → i ∈ created) ∧ t.left sh created < s.left sh created := by
  obtain ⟨a, hown, hstep⟩ := hstep
  cases a with
  | accept i => exact hown.elim
  | receive i msg => exact hown.elim
  | hangUp i => exact hown.elim
  | acceptor =>
    simp only [serverStep, runAcceptor] at hstep
    split at hstep
    · cases hstep
    · split at hstep
      · cases hstep
      · next i hi =>
        split at hstep
        · obtain rfl := Option.some.inj hstep
          refine ⟨hcreated, ?_⟩
          simp only [TcpServer.left, hi, Acceptor.left]
          omega
        · cases hstep
      · next i hi =>
        obtain rfl := Option.some.inj hstep
        have hremover : s.remover = .sleeping := by
          by_contra hawake
          have hmtx := h.removing.mpr hawake
          rw [h.pushing.mpr ⟨i, hi⟩] at hmtx
          cases hmtx
        refine ⟨hcreated, ?_⟩
        simp only [TcpServer.left, hi, hremover, Acceptor.left, Remover.left]
        omega
  | run i e =>
    simp only [serverStep] at hstep
    split at hstep
    · cases hstep
    · next hcrashed =>
      rw [Bool.not_eq_true] at hcrashed
      rcases runThread_cases hstep with ⟨_, _, _, _, _, rfl⟩ |
        ⟨_, hthread, hafter, hbefore, hlt, hclients, _, hacceptor, hremover, _, hsame⟩
      · refine ⟨hcreated, ?_⟩
        simp only [TcpServer.left, hcrashed]
        exact Nat.lt_succ_self _
      · refine ⟨fun j hj => ?_, ?_⟩
        · rw [hthread] at hj
          by_cases hji : j = i
          · exact hji ▸ hcreated i hbefore
          · rw [Function.update_of_ne hji] at hj
            exact hcreated j hj
        · have hsum := sum_left_lt (hcreated i hbefore) hthread hlt
          simp only [TcpServer.left, hclients, hacceptor, hremover, hsame]
          omega
  | remover =>
    simp only [serverStep, runRemover] at hstep
    split at hstep
    · cases hstep
    · split at hstep
      · next hsleeping => exact absurd hsleeping hown
      · next hscanning =>
        split at hstep
        · obtain rfl := Option.some.inj hstep
          refine ⟨hcreated, ?_⟩
          simp only [TcpServer.left, hscanning, Remover.left]
          omega
        · obtain rfl := Option.some.inj hstep
          refine ⟨hcreated, ?_⟩
          simp only [TcpServer.left, hscanning, Remover.left]
          omega
      · next i hi =>
        split at hstep
        · next hreturned =>
          obtain rfl := Option.some.inj hstep
          obtain ⟨hmem, -⟩ := h.joining i hi
          have hlength := List.length_erase_of_mem hmem
          have hpos := List.length_pos_of_mem hmem
          have hleft : ∀ j, (Function.update s.thread i .deleted j).left sh =
              (s.thread j).left sh := by
            intro j
            by_cases hji : j = i
            · rw [hji, Function.update_self, hreturned]
              rfl
            · rw [Function.update_of_ne hji]
          refine ⟨fun j hj => ?_, ?_⟩
          · by_cases hji : j = i
            · exact hji ▸ hcreated i (by rw [hreturned]; rfl)
            · rw [show ({ s.move i .deleted with
                clients := s.clients.erase i, remover := .scanning } : TcpServer ι).thread j =
                  s.thread j from Function.update_of_ne hji _ _] at hj
              exact hcreated j hj
          · simp only [TcpServer.left, TcpServer.move, hleft, hi, Remover.left, hlength]
            omega
        · cases hstep

/-! ## Faults -/

/-- The agent has crashed on a text that a local client has sent. -/
def Fault (ip : ι → Str) (s : TcpServer ι) : Prop :=
  ∃ i msg err, ip i = wantedIP ∧ s.thread i = .handling msg ∧ onIncomingMsg msg = .error err

theorem fault_of_step {a : Action ι} (hstep : serverStep sh ip s a = some t)
    (hcrashed : t.crashed = true) : Fault ip t := by
  have hsame : s.crashed = false → t.crashed = s.crashed → False := by
    intro hnot hsame
    rw [hsame, hnot] at hcrashed
    cases hcrashed
  cases a with
  | accept i =>
    simp only [serverStep] at hstep
    split at hstep
    · next hnot _ _ =>
      obtain rfl := Option.some.inj hstep
      exact (hsame hnot rfl).elim
    · cases hstep
  | receive i msg =>
    simp only [serverStep] at hstep
    split at hstep
    · next hnot _ _ =>
      obtain rfl := Option.some.inj hstep
      exact (hsame hnot rfl).elim
    · cases hstep
  | hangUp i =>
    simp only [serverStep] at hstep
    split at hstep
    · next hnot _ _ =>
      obtain rfl := Option.some.inj hstep
      exact (hsame hnot rfl).elim
    · cases hstep
  | acceptor =>
    simp only [serverStep, runAcceptor] at hstep
    split at hstep
    · cases hstep
    · next hnot =>
      rw [Bool.not_eq_true] at hnot
      apply (hsame hnot _).elim
      split at hstep
      · cases hstep
      · split at hstep
        · exact Option.some.inj hstep ▸ rfl
        · cases hstep
      · exact Option.some.inj hstep ▸ rfl
  | run i e =>
    simp only [serverStep] at hstep
    split at hstep
    · cases hstep
    · next hnot =>
      rw [Bool.not_eq_true] at hnot
      rcases runThread_cases hstep with ⟨msg, err, hip, hhandling, herr, rfl⟩ |
        ⟨_, _, _, _, _, _, _, _, _, _, hkept⟩
      · exact ⟨i, msg, err, hip, hhandling, herr⟩
      · exact (hsame hnot hkept).elim
  | remover =>
    simp only [serverStep, runRemover] at hstep
    split at hstep
    · cases hstep
    · next hnot =>
      rw [Bool.not_eq_true] at hnot
      apply (hsame hnot _).elim
      split at hstep
      · split at hstep
        · exact Option.some.inj hstep ▸ rfl
        · cases hstep
      · split at hstep
        · exact Option.some.inj hstep ▸ rfl
        · exact Option.some.inj hstep ▸ rfl
      · split at hstep
        · exact Option.some.inj hstep ▸ rfl
        · cases hstep

/-! ## At rest -/

/-- Nothing is left to do but to wait for clients, and all objects that exist are in the list. -/
structure AtRest (ip : ι → Str) (config : Option Str) (s : TcpServer ι) : Prop where
  threads : ∀ i, i ∈ s.clients ↔ s.thread i = .waiting ∨ s.thread i = .returned
  acceptor : s.acceptor = .accepting
  remover : s.remover = .sleeping
  subscribersMtx : s.subscribersMtx = none
  clientsMtx : s.clientsMtx = none
  served : ∀ i, ip i = wantedIP → s.answered i = s.received i
  file : s.config = replay config s.log

/-- A thread that has the mutex of the subscribers has a step. -/
theorem runThread_isSome_of_holds (hholds : (s.thread i).holds = true) (e : Env) :
    (runThread sh ip s i e).isSome = true := by
  unfold runThread
  cases hst : s.thread i with
  | handling msg =>
    dsimp only
    split_ifs
    · split <;> rfl
    · rfl
  | running msg ok args => cases args <;> rfl
  | loaded msg ok e' arg memory rest => rfl
  | executed msg ok e' arg memory rest => rfl
  | notifying => rfl
  | _ => rw [hst] at hholds; cases hholds

/-- Where nobody has the mutex of the subscribers, a thread whose object exists has a step, or
waits for its connection, or has returned. -/
theorem runThread_isSome_of_free (hfree : s.subscribersMtx = none)
    (hholds : (s.thread i).holds = false) (hcreated : (s.thread i).created = true) (e : Env) :
    (runThread sh ip s i e).isSome = true ∨
      (s.thread i = .waiting ∧ s.connected i = true) ∨ s.thread i = .returned := by
  unfold runThread
  cases hst : s.thread i with
  | waiting =>
    cases hconnected : s.connected i with
    | true => exact .inr (.inl ⟨rfl, rfl⟩)
    | false => exact .inl rfl
  | incoming msg =>
    left
    dsimp only
    rw [hfree]
    rfl
  | disconnected =>
    left
    dsimp only
    rw [hfree]
    rfl
  | returned => exact .inr (.inr rfl)
  | unborn => rw [hst] at hcreated; cases hcreated
  | deleted => rw [hst] at hcreated; cases hcreated
  | _ => rw [hst] at hholds; cases hholds

/-- Where no thread has a step of its own, none waits for another. -/
theorem atRest_of_stuck (hobjects : Objects s) (hserial : Serial sh ip config s)
    (hcrashed : s.crashed = false) (hstuck : ∀ t, ¬ OwnStep sh ip s t) :
    AtRest ip config s := by
  have hrun : ∀ i, ¬ (runThread sh ip s i obligingEnv).isSome = true := by
    intro i hsome
    obtain ⟨t, ht⟩ := Option.isSome_iff_exists.mp hsome
    refine hstuck t ⟨.run i obligingEnv, trivial, ?_⟩
    rw [serverStep, hcrashed]
    exact ht
  have hholds : ∀ i, (s.thread i).holds = false := by
    intro i
    rw [← Bool.not_eq_true]
    exact fun hyes => hrun i (runThread_isSome_of_holds hyes obligingEnv)
  have hfree : s.subscribersMtx = none := by
    cases hmtx : s.subscribersMtx with
    | none => rfl
    | some i =>
      have hyes := (hserial.holder i).mpr hmtx
      rw [hholds] at hyes
      cases hyes
  have hthreads : ∀ i, (s.thread i).created = true →
      (s.thread i = .waiting ∧ s.connected i = true) ∨ s.thread i = .returned := by
    intro i hcreated
    exact (runThread_isSome_of_free hfree (hholds i) hcreated obligingEnv).resolve_left (hrun i)
  have hremover : s.remover = .sleeping := by
    by_contra hawake
    have hnone : ¬ (runRemover s).isSome = true := by
      intro hsome
      obtain ⟨t, ht⟩ := Option.isSome_iff_exists.mp hsome
      refine hstuck t ⟨.remover, hawake, ?_⟩
      rw [serverStep, hcrashed]
      exact ht
    apply hnone
    unfold runRemover
    cases hst : s.remover with
    | sleeping => exact absurd hst hawake
    | scanning =>
      dsimp only
      split <;> rfl
    | joining i =>
      obtain ⟨hmem, hconnected⟩ := hobjects.joining i hst
      rcases hthreads i ((hobjects.created i).mpr (.inl hmem)) with ⟨-, hyes⟩ | hreturned
      · rw [hconnected] at hyes
        cases hyes
      · dsimp only
        rw [hreturned]
        rfl
  have hnone : ¬ (runAcceptor s).isSome = true := by
    intro hsome
    obtain ⟨t, ht⟩ := Option.isSome_iff_exists.mp hsome
    refine hstuck t ⟨.acceptor, trivial, ?_⟩
    rw [serverStep, hcrashed]
    exact ht
  have hmtx : s.clientsMtx = none := by
    cases hmtx : s.clientsMtx with
    | none => rfl
    | some owner =>
      cases owner with
      | acceptor =>
        obtain ⟨i, hi⟩ := hobjects.pushing.mp hmtx
        rw [runAcceptor, hi] at hnone
        exact absurd rfl hnone
      | remover => exact absurd hremover (hobjects.removing.mp hmtx)
  have hacceptor : s.acceptor = .accepting := by
    cases hst : s.acceptor with
    | accepting => rfl
    | started i =>
      rw [runAcceptor, hst, hmtx] at hnone
      exact absurd rfl hnone
    | pushing i =>
      rw [runAcceptor, hst] at hnone
      exact absurd rfl hnone
  refine ⟨fun i => ?_, hacceptor, hremover, hfree, hmtx, fun i hi => ?_, (hserial.idle hfree).1⟩
  · have hlist : (s.thread i).created = true ↔ i ∈ s.clients := by
      rw [hobjects.created i, hacceptor, Acceptor.fresh, or_iff_left (Option.some_ne_none i).symm]
    rw [← hlist]
    refine ⟨fun hcreated => (hthreads i hcreated).imp_left And.left, fun hst => ?_⟩
    rcases hst with hst | hst
    · rw [hst]
      rfl
    · rw [hst]
      rfl
  · have hhistory := hserial.history i hi
    have hpending : (s.thread i).pending = [] := by
      cases hcreated : (s.thread i).created with
      | true =>
        rcases hthreads i hcreated with ⟨hst, -⟩ | hst
        · rw [hst]
          rfl
        · rw [hst]
          rfl
      | false =>
        cases hst : s.thread i with
        | unborn => rfl
        | deleted => rfl
        | _ => rw [hst] at hcreated; cases hcreated
    rwa [hpending, List.append_nil] at hhistory

theorem objects_of_reach {ok : TcpServer ι → Action ι → Prop}
    (h : ServerReach sh ip config ok s) : Objects s :=
  Reach.invariant (fun _ hinit => objects_of_started hinit) (fun _ _ _ hs _ hstep => hs.step hstep) h

theorem fault_of_reach {ok : TcpServer ι → Action ι → Prop}
    (h : ServerReach sh ip config ok s) (hcrashed : s.crashed = true) : Fault ip s := by
  cases h with
  | init hinit =>
    rw [hinit.crashed] at hcrashed
    cases hcrashed
  | step _ _ hstep => exact fault_of_step hstep hcrashed

theorem reach_of_ownSteps {ok : TcpServer ι → Action ι → Prop}
    (h : ServerReach sh ip config ok s) (hsteps : Relation.ReflTransGen (OwnStep sh ip) s t) :
    ServerReach sh ip config (fun _ _ => True) t := by
  induction hsteps with
  | refl => exact h.mono fun _ _ _ => trivial
  | tail _ hstep ih =>
    obtain ⟨a, -, hstep⟩ := hstep
    exact ih.step trivial hstep

end

end QrWireguard.WebAgent.Cpp
