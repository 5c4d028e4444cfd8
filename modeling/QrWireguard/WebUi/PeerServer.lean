import QrWireguard.WebAgent.TcpServer
import QrWireguard.WebUi.PeerFile

/-!
# Peers of several connections

Any number of local clients are connected to the agent at once and send it messages about peers. The
agent handles them one after the other, in the order in which it answers them, so that the file is
what the messages make of it in that order.
-/

namespace QrWireguard.WebUi

open BePlugin WebAgent Vtysh WebAgent.Cpp
open WebAgent.Go (Execution replay)

variable {ι : Type} {sh : Str → List Str} {ip : ι → Str} {config : List Str} {contents : Option Str}

/-- A text is the message of a change whose texts are carried. -/
def PeerChange.Sent (change : PeerChange) (text : Str) : Prop :=
  change.Carried ∧ handleConnectionCPP change.message = some text

/-- Local clients send changes of peers only, and nothing fails in the shells. -/
def PeersOnly (ip : ι → Str) : TcpServer ι → Action ι → Prop
  | _, .receive i msg => ip i = wantedIP → ∃ change : PeerChange, change.Sent msg
  | _, .run _ e => Serving e
  | _, _ => True

/-- What the shell of a thread finds. -/
def shellEnv : Thread → Option Vtysh.Env
  | .loaded _ _ e _ _ _ => some e
  | .executed _ _ e _ _ _ => some e
  | _ => none

/-- What holds when local clients send changes of peers only. -/
structure OnlyPeers (ip : ι → Str) (s : TcpServer ι) : Prop where
  received : ∀ i, ip i = wantedIP → ∀ msg ∈ s.received i, ∃ change : PeerChange, change.Sent msg
  serving : ∀ i e, shellEnv (s.thread i) = some e → Serving e
  log : ∀ r ∈ s.log, Serving r.env
  crashed : s.crashed = false

/-- The agent takes the message of a change. -/
theorem PeerChange.Sent.handled {change : PeerChange} {text : Str} (h : change.Sent text) :
    ∃ commands, onIncomingMsg text = .ok ⟨true, commands⟩ := by
  obtain ⟨hcarried, hsent⟩ := h
  cases change with
  | add client =>
    obtain ⟨text', hsent', hhandled⟩ := hcarried.1.handled hcarried.2
    obtain rfl := Option.some.inj (hsent'.symm.trans hsent)
    exact ⟨_, hhandled⟩
  | remove client =>
    obtain ⟨key, hkey⟩ := hcarried
    obtain ⟨text', hsent', hhandled⟩ := handled_remove hkey
    obtain rfl := Option.some.inj (hsent'.symm.trans hsent)
    exact ⟨_, hhandled⟩

/-! ## The shells in turn -/

theorem evalRuns_replay {log : List (Execution ι)} (h : ∀ r ∈ log, Serving r.env)
    (contents : Option Str) : EvalRuns (log.map (·.arg)) contents (replay contents log) := by
  induction log generalizing contents with
  | nil => exact .nil contents
  | cons r log ih =>
    obtain ⟨hserving, hrest⟩ := List.forall_mem_cons.mp h
    exact .cons hserving (ih hrest _)

/-- The shells of the answered messages are those of the agent that handles one message after the
other. -/
theorem agentServes_replay {answers : List (Cpp.Answer ι)} {log : List (Execution ι)}
    (hlog : logArgs log = answeredArgs sh answers) (hserving : ∀ r ∈ log, Serving r.env)
    (hsent : ∀ a ∈ answers, ∃ change : PeerChange, change.Sent a.msg) (contents : Option Str) :
    ∃ changes : List PeerChange, changes.Forall₂ (fun change a => change.Sent a.msg) answers ∧
      AgentServes sh (changes.map PeerChange.message) contents (replay contents log) := by
  induction answers generalizing log contents with
  | nil =>
    obtain rfl := List.map_eq_nil_iff.mp hlog
    exact ⟨[], .nil, .nil contents⟩
  | cons a answers ih =>
    obtain ⟨⟨change, hchange⟩, hrest⟩ := List.forall_mem_cons.mp hsent
    obtain ⟨first, rest, rfl, hfirst, hlater⟩ := List.map_eq_append_iff.mp hlog
    obtain ⟨changes, hchanges, hserves⟩ :=
      ih hlater (fun r hr => hserving r (List.mem_append_right _ hr)) hrest (replay contents first)
    have hargs : first.map (·.arg) = messageArgs sh a.msg := by
      have hsnd := congrArg (List.map Prod.snd) hfirst
      simpa [Function.comp_def] using hsnd
    obtain ⟨commands, hhandled⟩ := hchange.handled
    have hruns := evalRuns_replay (fun r hr => hserving r (List.mem_append_left rest hr)) contents
    rw [hargs, messageArgs, hhandled] at hruns
    refine ⟨change :: changes, .cons hchange hchanges, ?_⟩
    rw [replay, List.foldl_append]
    exact .cons (.handled hchange.2 hhandled hruns) hserves

/-! ## Every run -/

section
variable [DecidableEq ι] {s t : TcpServer ι} {i : ι}

omit [DecidableEq ι] in
theorem onlyPeers_started (h : Started contents s) : OnlyPeers ip s := by
  refine ⟨fun i _ msg hmsg => ?_, fun i e he => ?_, fun r hr => ?_, h.crashed⟩
  · rw [h.received] at hmsg
    cases hmsg
  · rw [h.thread] at he
    cases he
  · rw [h.log] at hr
    cases hr

/-- A thread moves, and no shell ends. -/
theorem OnlyPeers.move {thread : Thread} (h : OnlyPeers ip s)
    (hthread : t.thread = Function.update s.thread i thread) (hreceived : t.received = s.received)
    (hlog : t.log = s.log) (hcrashed : t.crashed = s.crashed)
    (henv : ∀ e, shellEnv thread = some e → Serving e) : OnlyPeers ip t := by
  refine ⟨by rw [hreceived]; exact h.received, fun j e he => ?_, by rw [hlog]; exact h.log,
    hcrashed.trans h.crashed⟩
  rw [hthread] at he
  by_cases hj : j = i
  · rw [hj, Function.update_self] at he
    exact henv e he
  · rw [Function.update_of_ne hj] at he
    exact h.serving j e he

omit [DecidableEq ι] in
/-- No thread of a client moves. -/
theorem OnlyPeers.congr (h : OnlyPeers ip s) (hthread : t.thread = s.thread)
    (hreceived : t.received = s.received) (hlog : t.log = s.log)
    (hcrashed : t.crashed = s.crashed) : OnlyPeers ip t := by
  refine ⟨by rw [hreceived]; exact h.received, by rw [hthread]; exact h.serving,
    by rw [hlog]; exact h.log, hcrashed.trans h.crashed⟩

theorem OnlyPeers.runThread {e : Vtysh.Env} (h : OnlyPeers ip s)
    (hserial : Serial sh ip contents s) (he : Serving e)
    (hstep : Cpp.runThread sh ip s i e = some t) : OnlyPeers ip t := by
  have hnone : ∀ {thread : Thread}, shellEnv thread = none →
      ∀ e, shellEnv thread = some e → Serving e := by
    intro thread hthread e he
    rw [hthread] at he
    cases he
  have hhistory := hserial.history i
  have hserving := h.serving i
  unfold Cpp.runThread at hstep
  cases hst : s.thread i with
  | waiting =>
    simp only [hst] at hstep
    split at hstep
    · cases hstep
    · obtain rfl := Option.some.inj hstep
      exact h.move rfl rfl rfl rfl (hnone rfl)
  | incoming msg =>
    simp only [hst] at hstep
    split at hstep
    · obtain rfl := Option.some.inj hstep
      exact h.move rfl rfl rfl rfl (hnone rfl)
    · cases hstep
  | handling msg =>
    simp only [hst] at hstep
    split at hstep
    · next hip =>
      -- the message has been received, so it is the message of a change
      have hreceived : msg ∈ s.received i := by
        rw [← hhistory hip, hst]
        exact List.mem_append_right _ List.mem_cons_self
      obtain ⟨change, hchange⟩ := h.received i hip msg hreceived
      obtain ⟨commands, hhandled⟩ := hchange.handled
      rw [hhandled] at hstep
      obtain rfl := Option.some.inj hstep
      exact h.move rfl rfl rfl rfl (hnone rfl)
    · obtain rfl := Option.some.inj hstep
      exact h.move rfl rfl rfl rfl (hnone rfl)
  | running msg ok args =>
    cases args with
    | nil =>
      simp only [hst] at hstep
      obtain rfl := Option.some.inj hstep
      exact h.move rfl rfl rfl rfl (hnone rfl)
    | cons arg rest =>
      simp only [hst] at hstep
      obtain rfl := Option.some.inj hstep
      exact h.move rfl rfl rfl rfl fun e' he' => Option.some.inj he' ▸ he
  | loaded msg ok e' arg memory rest =>
    rw [hst] at hserving
    simp only [hst] at hstep
    obtain rfl := Option.some.inj hstep
    exact h.move rfl rfl rfl rfl hserving
  | executed msg ok e' arg memory rest =>
    rw [hst] at hserving
    simp only [hst] at hstep
    obtain rfl := Option.some.inj hstep
    have hmoved : OnlyPeers ip (s.move i (.running msg ok rest)) :=
      h.move rfl rfl rfl rfl (hnone rfl)
    refine ⟨hmoved.received, hmoved.serving, fun r hr => ?_, hmoved.crashed⟩
    rcases List.mem_append.mp hr with hr | hr
    · exact h.log r hr
    · rw [List.mem_singleton.mp hr]
      exact hserving e' rfl
  | disconnected =>
    simp only [hst] at hstep
    split at hstep
    · obtain rfl := Option.some.inj hstep
      exact h.move rfl rfl rfl rfl (hnone rfl)
    · cases hstep
  | notifying =>
    simp only [hst] at hstep
    obtain rfl := Option.some.inj hstep
    exact h.move rfl rfl rfl rfl (hnone rfl)
  | unborn => simp [hst] at hstep
  | returned => simp [hst] at hstep
  | deleted => simp [hst] at hstep

theorem OnlyPeers.step {a : Action ι} (h : OnlyPeers ip s) (hserial : Serial sh ip contents s)
    (hok : PeersOnly ip s a) (hstep : serverStep sh ip s a = some t) : OnlyPeers ip t := by
  have hnone : ∀ {thread : Thread}, shellEnv thread = none →
      ∀ e, shellEnv thread = some e → Serving e := by
    intro thread hthread e he
    rw [hthread] at he
    cases he
  cases a with
  | accept i =>
    simp only [serverStep] at hstep
    split at hstep
    · obtain rfl := Option.some.inj hstep
      exact h.move rfl rfl rfl rfl (hnone rfl)
    · cases hstep
  | acceptor =>
    simp only [serverStep, runAcceptor] at hstep
    split at hstep
    · cases hstep
    · split at hstep
      · cases hstep
      · split at hstep
        · obtain rfl := Option.some.inj hstep
          exact h.congr rfl rfl rfl rfl
        · cases hstep
      · obtain rfl := Option.some.inj hstep
        exact h.congr rfl rfl rfl rfl
  | receive i msg =>
    simp only [serverStep] at hstep
    split at hstep
    · obtain rfl := Option.some.inj hstep
      have hmoved : OnlyPeers ip (s.move i (.incoming msg)) := h.move rfl rfl rfl rfl (hnone rfl)
      refine ⟨fun j hj msg' hmsg => ?_, hmoved.serving, hmoved.log, hmoved.crashed⟩
      by_cases heq : j = i
      · subst heq
        change msg' ∈ Function.update s.received j (s.received j ++ [msg]) j at hmsg
        rw [Function.update_self] at hmsg
        rcases List.mem_append.mp hmsg with hmsg | hmsg
        · exact h.received j hj msg' hmsg
        · rw [List.mem_singleton.mp hmsg]
          exact hok hj
      · change msg' ∈ Function.update s.received i (s.received i ++ [msg]) j at hmsg
        rw [Function.update_of_ne heq] at hmsg
        exact h.received j hj msg' hmsg
    · cases hstep
  | hangUp i =>
    simp only [serverStep] at hstep
    split at hstep
    · obtain rfl := Option.some.inj hstep
      exact h.move rfl rfl rfl rfl (hnone rfl)
    · cases hstep
  | run i e =>
    simp only [serverStep] at hstep
    split at hstep
    · cases hstep
    · exact h.runThread hserial hok hstep
  | remover =>
    simp only [serverStep, runRemover] at hstep
    split at hstep
    · cases hstep
    · split at hstep
      · split at hstep
        · obtain rfl := Option.some.inj hstep
          exact h.congr rfl rfl rfl rfl
        · cases hstep
      · split at hstep
        · obtain rfl := Option.some.inj hstep
          exact h.congr rfl rfl rfl rfl
        · obtain rfl := Option.some.inj hstep
          exact h.congr rfl rfl rfl rfl
      · split at hstep
        · obtain rfl := Option.some.inj hstep
          exact h.move rfl rfl rfl rfl (hnone rfl)
        · cases hstep

theorem serial_onlyPeers_of_reach (h : ServerReach sh ip contents (PeersOnly ip) s) :
    Serial sh ip contents s ∧ OnlyPeers ip s := by
  apply Reach.invariant _ _ h
  · intro s hstarted
    exact ⟨serial_of_started hstarted, onlyPeers_started hstarted⟩
  · intro s a t hs hok hstep
    exact ⟨hs.1.step hstep, hs.2.step hs.1 hok hstep⟩

end

/-- The two messages about a client. -/
def annMessages (i : Bool) : Str :=
  (handleConnectionCPP (if i then removeWireguardPeer annRecord else addWireguardPeer annRecord)).getD []

/-- Both connections bring their message before the first is answered. -/
def bothChange : List (Action Bool) :=
  [.accept true, .acceptor, .acceptor, .accept false, .receive true (annMessages true), .acceptor,
    .receive false (annMessages false), .acceptor] ++
    List.replicate 9 (.run true obligingEnv) ++ List.replicate 9 (.run false obligingEnv)

theorem annMessages_sent (i : Bool) : ∃ change : PeerChange, change.Sent (annMessages i) := by
  cases i with
  | true =>
    obtain ⟨key, hkey⟩ := carried_annRecord.2.key
    obtain ⟨text, hsent, -⟩ := handled_remove hkey
    refine ⟨.remove annRecord, ⟨key, hkey⟩, ?_⟩
    rw [annMessages, if_pos rfl, hsent]
    exact hsent
  | false =>
    obtain ⟨text, hsent, -⟩ := carried_annRecord.1.handled carried_annRecord.2
    refine ⟨.add annRecord, carried_annRecord, ?_⟩
    rw [annMessages, if_neg Bool.false_ne_true, hsent]
    exact hsent

end QrWireguard.WebUi
