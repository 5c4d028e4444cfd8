import QrWireguard.Misc.CString
import QrWireguard.Misc.GoMap
import QrWireguard.Misc.Run

/-!
# The flood control of the Telegram bot

`telegram/bot.go` keeps two maps, from the users to the time of their last configurations and of
the users who have been told to wait. Messages to the bot and `SendConfig` fill them, and a ticker
calls `updateFloodWait`, which takes out the users whose time is over. Times are in seconds, as
64-bit integers.
-/

namespace QrWireguard.WebUi

/-- `floodWait` and `floodMessageSent`. -/
structure FloodTables where
  floodWait : Dir Int (BitVec 64)
  floodMessageSent : Dir Int Unit

/-- What a user gets from the bot: the configurations, the request to wait, and the names of the
configurations that could not be sent. -/
inductive BotEvent where
  | configs (userid : Int) (time : BitVec 64)
  | notice (userid : Int) (text : Str)
  | failures (userid : Int) (text : Str)
  deriving DecidableEq

namespace FloodTables

/-- The body of the loop of `Start` for a message, where `failed` is what
`SendRequestedConfigsToTelegram` returns. -/
def onMessage (floodWait : BitVec 64) (userid : Int) (now : BitVec 64) (failed : List Str)
    (t : FloodTables) : FloodTables × List BotEvent :=
  match t.floodWait.read userid with
  | some _ =>
    match t.floodMessageSent.read userid with
    | some _ => (t, [])
    | none =>
      ({ t with floodMessageSent := t.floodMessageSent.write userid () },
        [.notice userid (str "You can only request your configs once per " ++
          itoa floodWait.toInt ++ str " minutes")])
  | none =>
    let t := { t with floodWait := t.floodWait.write userid now }
    if 0 < failed.length then
      (t, [.configs userid now, .failures userid
        (str "Failed to send configs:\n" ++ failed.flatMap fun f => f ++ str "\n")])
    else (t, [.configs userid now])

/-- `SendConfig`, with whether there is a bot and whether it can send the picture and the file;
the last part is the error. -/
def sendConfig (floodWait : BitVec 64) (bot photoOk documentOk : Bool) (userid : Int)
    (now : BitVec 64) (ignoreFloodWait : Bool) (t : FloodTables) :
    FloodTables × List BotEvent × Option Str :=
  if bot = false then (t, [], some (str "telegram bot is not configured or not available"))
  else if (t.floodWait.read userid).isSome ∧ ignoreFloodWait = false then
    (t, [], some (str "this client already got their config less than " ++
      itoa floodWait.toInt ++ str " minutes ago"))
  else
    let t := if ignoreFloodWait then t
      else { t with floodWait := t.floodWait.write userid now }
    (t, [.configs userid now],
      if photoOk = false then some (str "unable to send qr picture")
      else if documentOk = false then some (str "unable to send conf file")
      else none)

/-- `now - 60*int64(FloodWait)`. -/
def thresholdTS (floodWait now : BitVec 64) : BitVec 64 := now - 60 * floodWait

/-- The body of the loop of `updateFloodWait`. -/
def expire (threshold : BitVec 64) (t : FloodTables) (userid : Int) : FloodTables :=
  match t.floodWait.read userid with
  | some ts =>
    if ts.slt threshold then ⟨t.floodWait.delete userid, t.floodMessageSent.delete userid⟩ else t
  | none => t

/-- `updateFloodWait`, with the order in which the loop visits the users. -/
def updateFloodWait (floodWait now : BitVec 64) (order : List Int) (t : FloodTables) :
    FloodTables :=
  order.foldl (expire (thresholdTS floodWait now)) t

/-- The time of a user is over. -/
def Expired (threshold : BitVec 64) (t : FloodTables) (userid : Int) : Prop :=
  ∃ ts, t.floodWait.read userid = some ts ∧ ts.toInt < threshold.toInt

section
variable {threshold : BitVec 64} {t : FloodTables} {userid other : Int}

theorem expire_of_expired (h : Expired threshold t userid) :
    expire threshold t userid =
      ⟨t.floodWait.delete userid, t.floodMessageSent.delete userid⟩ := by
  obtain ⟨ts, hread, hlt⟩ := h
  unfold expire
  rw [hread]
  exact if_pos (BitVec.slt_iff_toInt_lt.mpr hlt)

theorem expire_of_not_expired (h : ¬ Expired threshold t userid) :
    expire threshold t userid = t := by
  unfold expire
  cases hread : t.floodWait.read userid with
  | none => rfl
  | some ts => exact if_neg fun hslt => h ⟨ts, hread, BitVec.slt_iff_toInt_lt.mp hslt⟩

/-- The body of the loop leaves the other users alone. -/
theorem read_expire_of_ne (h : other ≠ userid) :
    (expire threshold t userid).floodWait.read other = t.floodWait.read other ∧
      (expire threshold t userid).floodMessageSent.read other = t.floodMessageSent.read other := by
  by_cases hexpired : Expired threshold t userid
  · rw [expire_of_expired hexpired]
    exact ⟨Dir.read_delete_of_ne h, Dir.read_delete_of_ne h⟩
  · rw [expire_of_not_expired hexpired]
    exact ⟨rfl, rfl⟩

/-- A user whose time is not over is left alone by the loop. -/
theorem read_foldl_expire (order : List Int) (h : ¬ Expired threshold t other) :
    (order.foldl (expire threshold) t).floodWait.read other = t.floodWait.read other ∧
      (order.foldl (expire threshold) t).floodMessageSent.read other =
        t.floodMessageSent.read other := by
  induction order generalizing t with
  | nil => exact ⟨rfl, rfl⟩
  | cons userid order ih =>
    have hround : (expire threshold t userid).floodWait.read other = t.floodWait.read other ∧
        (expire threshold t userid).floodMessageSent.read other =
          t.floodMessageSent.read other := by
      by_cases hsame : other = userid
      · rw [← hsame, expire_of_not_expired h]
        exact ⟨rfl, rfl⟩
      · exact read_expire_of_ne hsame
    have hnot : ¬ Expired threshold (expire threshold t userid) other := by
      unfold Expired
      rwa [hround.1]
    have hrest := ih hnot
    exact ⟨hrest.1.trans hround.1, hrest.2.trans hround.2⟩

/-- A user whose time is over is taken out of both maps when the loop comes to them. -/
theorem read_foldl_expired {order : List Int} (hmem : other ∈ order)
    (h : Expired threshold t other) :
    (order.foldl (expire threshold) t).floodWait.read other = none ∧
      (order.foldl (expire threshold) t).floodMessageSent.read other = none := by
  induction order generalizing t with
  | nil => cases hmem
  | cons userid order ih =>
    by_cases hsame : other = userid
    · have hgone : (expire threshold t userid).floodWait.read other = none ∧
          (expire threshold t userid).floodMessageSent.read other = none := by
        rw [hsame] at h ⊢
        rw [expire_of_expired h]
        exact ⟨Dir.read_delete_self .., Dir.read_delete_self ..⟩
      have hnot : ¬ Expired threshold (expire threshold t userid) other := by
        rintro ⟨ts, hread, -⟩
        rw [hgone.1] at hread
        cases hread
      have hrest := read_foldl_expire order hnot
      exact ⟨hrest.1.trans hgone.1, hrest.2.trans hgone.2⟩
    · refine ih ((List.mem_cons.mp hmem).resolve_left hsame) ?_
      unfold Expired
      rwa [(read_expire_of_ne hsame).1]

end

end FloodTables

/-! ## Runs of the bot -/

/-- What the bot does: it takes a message, `SendConfig` is called without ignoring the flood wait,
or the ticker calls `updateFloodWait`. -/
inductive BotCall where
  | message (userid : Int) (failed : List Str)
  | sendConfig (bot photoOk documentOk : Bool) (userid : Int)
  | tick (order : List Int)

/-- The maps after a call, and what the users get. -/
def BotCall.serve (floodWait now : BitVec 64) (t : FloodTables) :
    BotCall → FloodTables × List BotEvent
  | message userid failed => t.onMessage floodWait userid now failed
  | sendConfig bot photoOk documentOk userid =>
    let (t, events, _) := t.sendConfig floodWait bot photoOk documentOk userid now false
    (t, events)
  | tick order => (t.updateFloodWait floodWait now order, [])

/-- The maps, the time of the last call, and what the users got so far. -/
structure BotState where
  tables : FloodTables
  clock : BitVec 64
  log : List BotEvent

/-- The state after a call. -/
def BotState.after (floodWait now : BitVec 64) (call : BotCall) (s : BotState) : BotState :=
  ⟨(call.serve floodWait now s.tables).1, now, s.log ++ (call.serve floodWait now s.tables).2⟩

/-- The start of the bot, at any time. -/
def BotStart (s : BotState) : Prop := s.tables = ⟨Dir.empty, Dir.empty⟩ ∧ s.log = []

/-- A call at a time that is not before the one of the last call. A tick visits all the users that
have to wait, in any order. -/
structure BotStep (floodWait : BitVec 64) (s : BotState) (call : BitVec 64 × BotCall)
    (s' : BotState) : Prop where
  clock : s.clock.toInt ≤ call.1.toInt
  order : ∀ order, call.2 = .tick order → order.Perm s.tables.floodWait.keys
  after : s' = s.after floodWait call.1 call.2

/-- The event gives a user their configurations. -/
def BotEvent.isConfigs (userid : Int) : BotEvent → Bool
  | .configs other _ => other == userid
  | _ => false

/-- The event asks a user to wait. -/
def BotEvent.isNotice (userid : Int) : BotEvent → Bool
  | .notice other _ => other == userid
  | _ => false

/-- Two deliveries to a user are more than the flood wait apart, and where there is no delivery to
a user in between, there is one notice at most. -/
structure FloodControlled (floodWait : BitVec 64) (log : List BotEvent) : Prop where
  apart : log.Pairwise fun e e' => ∀ userid time time', e = .configs userid time →
    e' = .configs userid time' → 60 * floodWait.toInt < time'.toInt - time.toInt
  notices : ∀ userid between, between <:+: log → (∀ e ∈ between, e.isConfigs userid = false) →
    between.countP (·.isNotice userid) ≤ 1

/-- `now - 60*int64(FloodWait)` does not overflow in a call of `updateFloodWait`. -/
def ThresholdFits (floodWait : BitVec 64) (_ : BotState) (call : BitVec 64 × BotCall) : Prop :=
  ∀ order, call.2 = .tick order → -2 ^ 63 ≤ call.1.toInt - 60 * floodWait.toInt

/-- An event that is neither a delivery nor a notice. -/
def BotEvent.Silent (e : BotEvent) : Prop :=
  ∀ userid, e.isConfigs userid = false ∧ e.isNotice userid = false

/-- What a message or a call of `SendConfig` does: nothing, a delivery to a user who does not have to
wait, or a notice to a user who has to and has not been told so. -/
inductive BotEffect (now : BitVec 64) (t : FloodTables) : FloodTables → List BotEvent → Prop
  | nothing : BotEffect now t t []
  | deliver {userid : Int} {rest : List BotEvent} (hfree : t.floodWait.read userid = none)
      (hrest : ∀ e ∈ rest, e.Silent) :
      BotEffect now t { t with floodWait := t.floodWait.write userid now }
        (.configs userid now :: rest)
  | notify {userid : Int} {text : Str} {ts : BitVec 64} (hwait : t.floodWait.read userid = some ts)
      (hsent : t.floodMessageSent.read userid = none) :
      BotEffect now t
        { t with floodMessageSent := t.floodMessageSent.write userid () } [.notice userid text]

section
variable {floodWait now : BitVec 64} {t : FloodTables} {userid : Int} {log : List BotEvent}
  {e : BotEvent}

theorem onMessage_effect (userid : Int) (failed : List Str) :
    BotEffect now t (t.onMessage floodWait userid now failed).1
      (t.onMessage floodWait userid now failed).2 := by
  unfold FloodTables.onMessage
  cases hwait : t.floodWait.read userid with
  | some ts =>
    cases hsent : t.floodMessageSent.read userid with
    | some told => exact .nothing
    | none => exact .notify hwait hsent
  | none =>
    dsimp only
    split
    · refine .deliver hwait fun e he => ?_
      obtain rfl := List.mem_singleton.mp he
      exact fun userid => ⟨rfl, rfl⟩
    · exact .deliver hwait nofun

theorem sendConfig_effect (bot photoOk documentOk : Bool) (userid : Int) :
    BotEffect now t (t.sendConfig floodWait bot photoOk documentOk userid now false).1
      (t.sendConfig floodWait bot photoOk documentOk userid now false).2.1 := by
  unfold FloodTables.sendConfig
  split
  · exact .nothing
  · split
    · exact .nothing
    · next hfree =>
      have hnone : t.floodWait.read userid = none := by
        rw [← Option.not_isSome_iff_eq_none]
        exact fun hsome => hfree ⟨hsome, rfl⟩
      exact .deliver hnone nofun

/-- No notice since the last delivery to a user. -/
def Quiet (userid : Int) (log : List BotEvent) : Prop :=
  ∀ since, since <:+ log → (∀ e ∈ since, e.isConfigs userid = false) →
    since.countP (·.isNotice userid) = 0

theorem Quiet.concat (h : Quiet userid log) (he : e.isNotice userid = false) :
    Quiet userid (log ++ [e]) := by
  intro since hsuffix hnone
  rcases List.suffix_concat_iff.mp hsuffix with rfl | ⟨since, rfl, hsince⟩
  · rfl
  · rw [List.countP_append, h since hsince fun e he => hnone e (List.mem_append_left _ he)]
    simp [he]

theorem quiet_concat_configs (userid : Int) (time : BitVec 64) (log : List BotEvent) :
    Quiet userid (log ++ [.configs userid time]) := by
  intro since hsuffix hnone
  rcases List.suffix_concat_iff.mp hsuffix with rfl | ⟨since, rfl, -⟩
  · rfl
  · have hlast := hnone (.configs userid time) (by simp)
    simp [BotEvent.isConfigs] at hlast

/-- An event goes behind a controlled log when a delivery is late enough, and a notice is the first
one since the last delivery. -/
theorem FloodControlled.concat (h : FloodControlled floodWait log)
    (hapart : ∀ userid time time', .configs userid time ∈ log → e = .configs userid time' →
      60 * floodWait.toInt < time'.toInt - time.toInt)
    (hnotice : ∀ userid, e.isNotice userid = true → Quiet userid log) :
    FloodControlled floodWait (log ++ [e]) where
  apart := by
    refine List.pairwise_append.mpr ⟨h.apart, List.pairwise_singleton _ _, ?_⟩
    rintro e₁ he₁ e₂ he₂ userid time time' rfl rfl
    exact hapart userid time time' he₁ (List.mem_singleton.mp he₂).symm
  notices userid between hinfix hnone := by
    rcases List.infix_concat_iff.mp hinfix with hsuffix | hinfix
    · rcases List.suffix_concat_iff.mp hsuffix with rfl | ⟨since, rfl, hbefore⟩
      · exact Nat.zero_le 1
      · have hsince : ∀ e ∈ since, e.isConfigs userid = false := fun e he =>
          hnone e (List.mem_append_left _ he)
        rw [List.countP_append]
        cases hlast : e.isNotice userid with
        | true =>
          rw [hnotice userid hlast since hbefore hsince, Nat.zero_add]
          exact List.countP_le_length
        | false =>
          have hle := h.notices userid since hbefore.isInfix hsince
          simpa [hlast] using hle
    · exact h.notices userid between hinfix hnone

/-- The log is controlled. A user has to wait from their last delivery on, and when not any more,
the flood wait is over. Only users who have to wait have been told so. -/
structure FloodInv (floodWait : BitVec 64) (s : BotState) : Prop where
  controlled : FloodControlled floodWait s.log
  waiting : ∀ userid ts, s.tables.floodWait.read userid = some ts →
    ∀ time, .configs userid time ∈ s.log → time.toInt ≤ ts.toInt
  passed : ∀ userid, s.tables.floodWait.read userid = none →
    ∀ time, .configs userid time ∈ s.log → 60 * floodWait.toInt < s.clock.toInt - time.toInt
  sent : ∀ userid, s.tables.floodWait.read userid = none →
    s.tables.floodMessageSent.read userid = none
  quiet : ∀ userid, s.tables.floodMessageSent.read userid = none →
    s.tables.floodWait.read userid = none ∨ Quiet userid s.log

theorem BotStart.floodInv {s : BotState} (h : BotStart s) : FloodInv floodWait s := by
  obtain ⟨tables, clock, log⟩ := s
  obtain ⟨rfl, rfl⟩ : tables = ⟨Dir.empty, Dir.empty⟩ ∧ log = [] := h
  constructor
  · refine ⟨.nil, fun userid between hinfix _ => ?_⟩
    rw [List.infix_nil.mp hinfix]
    exact Nat.zero_le 1
  · exact fun userid ts hread => nomatch hread
  · exact fun userid _ time hmem => absurd hmem List.not_mem_nil
  · exact fun userid _ => rfl
  · exact fun userid _ => .inl rfl

/-- Time goes on. -/
theorem FloodInv.later {s : BotState} (h : FloodInv floodWait s)
    (hle : s.clock.toInt ≤ now.toInt) : FloodInv floodWait ⟨s.tables, now, s.log⟩ where
  controlled := h.controlled
  waiting := h.waiting
  passed userid hread time hmem := by
    have hpassed := h.passed userid hread time hmem
    dsimp only
    omega
  sent := h.sent
  quiet := h.quiet

/-- An event that is neither a delivery nor a notice does not matter. -/
theorem FloodInv.silent {s : BotState} (h : FloodInv floodWait s) (he : e.Silent) :
    FloodInv floodWait ⟨s.tables, s.clock, s.log ++ [e]⟩ := by
  have hconfigs : ∀ userid time, .configs userid time ∈ s.log ++ [e] →
      .configs userid time ∈ s.log := by
    intro userid time hmem
    refine (List.mem_append.mp hmem).resolve_right fun hlast => ?_
    have hno := (he userid).1
    rw [← List.mem_singleton.mp hlast] at hno
    simp [BotEvent.isConfigs] at hno
  constructor
  · refine h.controlled.concat ?_ ?_
    · rintro userid time time' - rfl
      have hno := (he userid).1
      simp [BotEvent.isConfigs] at hno
    · intro userid hnotice
      rw [(he userid).2] at hnotice
      cases hnotice
  · exact fun userid ts hread time hmem => h.waiting userid ts hread time (hconfigs _ _ hmem)
  · exact fun userid hread time hmem => h.passed userid hread time (hconfigs _ _ hmem)
  · exact h.sent
  · exact fun userid hsent => (h.quiet userid hsent).imp_right fun hquiet =>
      hquiet.concat (he userid).2

/-- A delivery to a user who does not have to wait. -/
theorem FloodInv.deliver {s : BotState} (h : FloodInv floodWait s) (hwait : 0 ≤ floodWait.toInt)
    (hfree : s.tables.floodWait.read userid = none) :
    FloodInv floodWait ⟨{ s.tables with floodWait := s.tables.floodWait.write userid s.clock },
      s.clock, s.log ++ [.configs userid s.clock]⟩ := by
  have hsplit : ∀ other time, .configs other time ∈ s.log ++ [.configs userid s.clock] →
      .configs other time ∈ s.log ∨ other = userid ∧ time = s.clock := by
    intro other time hmem
    refine (List.mem_append.mp hmem).imp_right fun hlast => ?_
    exact BotEvent.configs.inj (List.mem_singleton.mp hlast)
  constructor
  · refine h.controlled.concat ?_ fun other hnotice => nomatch hnotice
    rintro other time time' hmem heq
    obtain ⟨rfl, rfl⟩ := BotEvent.configs.inj heq
    exact h.passed userid hfree time hmem
  · intro other ts hread time hmem
    rw [Dir.read_write] at hread
    rcases hsplit other time hmem with hbefore | ⟨rfl, rfl⟩
    · split at hread
      · next hsame =>
        subst hsame
        obtain rfl := Option.some.inj hread
        have hpassed := h.passed other hfree time hbefore
        omega
      · exact h.waiting other ts hread time hbefore
    · rw [if_pos rfl] at hread
      rw [Option.some.inj hread]
  · intro other hread time hmem
    rw [Dir.read_write] at hread
    split at hread
    · cases hread
    · next hne =>
      rcases hsplit other time hmem with hbefore | ⟨hsame, -⟩
      · exact h.passed other hread time hbefore
      · exact absurd hsame hne
  · intro other hread
    rw [Dir.read_write] at hread
    split at hread
    · cases hread
    · exact h.sent other hread
  · intro other hsent
    rw [Dir.read_write]
    split
    · next hsame =>
      subst hsame
      exact .inr (quiet_concat_configs other s.clock s.log)
    · exact (h.quiet other hsent).imp_right fun hquiet => hquiet.concat rfl

/-- A notice to a user who has to wait and has not been told so. -/
theorem FloodInv.notify {s : BotState} {text : Str} {ts : BitVec 64} (h : FloodInv floodWait s)
    (hwait : s.tables.floodWait.read userid = some ts)
    (hsent : s.tables.floodMessageSent.read userid = none) :
    FloodInv floodWait
      ⟨{ s.tables with floodMessageSent := s.tables.floodMessageSent.write userid () },
        s.clock, s.log ++ [.notice userid text]⟩ := by
  have hsame : ∀ other time, .configs other time ∈ s.log ++ [.notice userid text] →
      .configs other time ∈ s.log := by
    intro other time hmem
    refine (List.mem_append.mp hmem).resolve_right fun hlast => ?_
    cases List.mem_singleton.mp hlast
  constructor
  · refine h.controlled.concat (fun other time time' _ heq => nomatch heq) fun other hnotice => ?_
    obtain rfl : userid = other := by simpa [BotEvent.isNotice] using hnotice
    exact (h.quiet userid hsent).resolve_left fun hnone => by rw [hwait] at hnone; cases hnone
  · exact fun other ts hread time hmem => h.waiting other ts hread time (hsame _ _ hmem)
  · exact fun other hread time hmem => h.passed other hread time (hsame _ _ hmem)
  · intro other hread
    have hne : other ≠ userid := by
      rintro rfl
      rw [hwait] at hread
      cases hread
    rw [Dir.read_write_of_ne hne]
    exact h.sent other hread
  · intro other hnone
    rw [Dir.read_write] at hnone
    split at hnone
    · cases hnone
    · next hne =>
      refine (h.quiet other hnone).imp_right fun hquiet => hquiet.concat ?_
      exact beq_eq_false_iff_ne.mpr (Ne.symm hne)

theorem toInt_thresholdTS (hwait : 0 ≤ floodWait.toInt)
    (hfits : -2 ^ 63 ≤ now.toInt - 60 * floodWait.toInt) :
    (FloodTables.thresholdTS floodWait now).toInt = now.toInt - 60 * floodWait.toInt := by
  have hlt := BitVec.two_mul_toInt_lt (x := now)
  unfold FloodTables.thresholdTS
  rw [BitVec.toInt_sub, BitVec.toInt_mul, Int.sub_bmod_bmod, show (60 : BitVec 64).toInt = 60 by decide]
  exact Int.bmod_eq_of_le (by omega) (by omega)

/-- A tick takes out the users whose flood wait is over. -/
theorem FloodInv.tick {s : BotState} {order : List Int} (h : FloodInv floodWait s)
    (hwait : 0 ≤ floodWait.toInt) (hfits : -2 ^ 63 ≤ s.clock.toInt - 60 * floodWait.toInt)
    (horder : order.Perm s.tables.floodWait.keys) :
    FloodInv floodWait ⟨s.tables.updateFloodWait floodWait s.clock order, s.clock, s.log⟩ := by
  set threshold := FloodTables.thresholdTS floodWait s.clock with hthreshold
  have hvalue : threshold.toInt = s.clock.toInt - 60 * floodWait.toInt :=
    toInt_thresholdTS hwait hfits
  have hexpired : ∀ other, FloodTables.Expired threshold s.tables other →
      (s.tables.updateFloodWait floodWait s.clock order).floodWait.read other = none ∧
        (s.tables.updateFloodWait floodWait s.clock order).floodMessageSent.read other = none := by
    intro other hexpired
    refine FloodTables.read_foldl_expired ?_ hexpired
    obtain ⟨ts, hread, -⟩ := hexpired
    rw [horder.mem_iff, Dir.mem_keys, hread]
    rfl
  have hkept : ∀ other, ¬ FloodTables.Expired threshold s.tables other →
      (s.tables.updateFloodWait floodWait s.clock order).floodWait.read other =
          s.tables.floodWait.read other ∧
        (s.tables.updateFloodWait floodWait s.clock order).floodMessageSent.read other =
          s.tables.floodMessageSent.read other :=
    fun other hnot => FloodTables.read_foldl_expire order hnot
  constructor
  · exact h.controlled
  · intro other ts hread time hmem
    by_cases hover : FloodTables.Expired threshold s.tables other
    · rw [(hexpired other hover).1] at hread
      cases hread
    · rw [(hkept other hover).1] at hread
      exact h.waiting other ts hread time hmem
  · intro other hread time hmem
    by_cases hover : FloodTables.Expired threshold s.tables other
    · obtain ⟨ts, hts, hlt⟩ := hover
      have hle := h.waiting other ts hts time hmem
      dsimp only
      omega
    · rw [(hkept other hover).1] at hread
      exact h.passed other hread time hmem
  · intro other hread
    by_cases hover : FloodTables.Expired threshold s.tables other
    · exact (hexpired other hover).2
    · rw [(hkept other hover).1] at hread
      rw [(hkept other hover).2]
      exact h.sent other hread
  · intro other hnone
    by_cases hover : FloodTables.Expired threshold s.tables other
    · exact .inl (hexpired other hover).1
    · rw [(hkept other hover).2] at hnone
      rw [(hkept other hover).1]
      exact h.quiet other hnone

theorem FloodInv.effect {s : BotState} {t : FloodTables} {events : List BotEvent}
    (h : FloodInv floodWait s) (hwait : 0 ≤ floodWait.toInt)
    (heffect : BotEffect s.clock s.tables t events) :
    FloodInv floodWait ⟨t, s.clock, s.log ++ events⟩ := by
  cases heffect with
  | nothing =>
    rw [List.append_nil]
    exact h
  | @deliver userid rest hfree hrest =>
    -- first the delivery, then what else the user gets
    have hdelivered := h.deliver hwait hfree
    rw [List.append_cons]
    generalize s.log ++ [.configs userid s.clock] = log at hdelivered
    clear h
    induction rest generalizing log with
    | nil =>
      rw [List.append_nil]
      exact hdelivered
    | cons e rest ih =>
      rw [List.append_cons]
      exact ih (fun e he => hrest e (List.mem_cons_of_mem _ he)) _
        (hdelivered.silent (hrest e List.mem_cons_self))
  | notify hread hsent => exact h.notify hread hsent

theorem FloodInv.step {s s' : BotState} {call : BitVec 64 × BotCall} (h : FloodInv floodWait s)
    (hwait : 0 ≤ floodWait.toInt) (hfits : ThresholdFits floodWait s call)
    (hstep : BotStep floodWait s call s') : FloodInv floodWait s' := by
  obtain ⟨now, call⟩ := call
  have hnow := h.later hstep.clock
  rw [hstep.after]
  cases call with
  | message userid failed => exact hnow.effect hwait (onMessage_effect userid failed)
  | sendConfig bot photoOk documentOk userid =>
    exact hnow.effect hwait (sendConfig_effect bot photoOk documentOk userid)
  | tick order =>
    dsimp only [BotState.after, BotCall.serve]
    rw [List.append_nil]
    exact hnow.tick hwait (hfits order rfl) (hstep.order order rfl)

end

/-- In runs where no threshold overflows, the deliveries to a user are more than the flood wait
apart, with one notice at most in between. -/
theorem floodControlled_of_reach {floodWait : BitVec 64} (hwait : 0 ≤ floodWait.toInt)
    {s : BotState} (h : Reach BotStart (BotStep floodWait) (ThresholdFits floodWait) s) :
    FloodControlled floodWait s.log := by
  have hinv : FloodInv floodWait s :=
    h.invariant (fun _ => BotStart.floodInv) fun _ _ _ hinv hfits hstep =>
      FloodInv.step hinv hwait hfits hstep
  exact hinv.controlled

theorem reach_after {floodWait : BitVec 64} {s : BotState}
    {ok : BotState → BitVec 64 × BotCall → Prop} (now : BitVec 64) (call : BotCall)
    (h : Reach BotStart (BotStep floodWait) ok s) (hclock : s.clock.toInt ≤ now.toInt)
    (horder : ∀ order, call = .tick order → order.Perm s.tables.floodWait.keys)
    (hok : ok s (now, call)) : Reach BotStart (BotStep floodWait) ok (s.after floodWait now call) :=
  .step h hok ⟨hclock, horder, rfl⟩

/-- The bot when it starts. -/
def startedBot : BotState := ⟨⟨Dir.empty, Dir.empty⟩, 0, []⟩

/-- With the usual hour, a user gets their configurations, is told to wait half an hour later, and
gets them again when the hour is over. -/
def usualBotRun : BotState :=
  (((startedBot.after 60 1000 (.message 7 [])).after 60 2800 (.message 7 [])).after 60 4601
    (.tick [7])).after 60 4601 (.sendConfig true true true 7)

theorem floodControlled_of_reach_usual : FloodControlled 60 usualBotRun.log := by
  have hstart : Reach BotStart (BotStep 60) (ThresholdFits 60) startedBot := .init ⟨rfl, rfl⟩
  have hconfigs := reach_after 1000 (.message 7 []) hstart (by decide) nofun nofun
  have hnotice := reach_after 2800 (.message 7 []) hconfigs (by decide) nofun nofun
  have htick := reach_after 4601 (.tick [7]) hnotice (by decide)
    (by rintro order ⟨⟩; decide) (by rintro order ⟨⟩; decide)
  have hagain := reach_after 4601 (.sendConfig true true true 7) htick (by decide)
    nofun nofun
  exact floodControlled_of_reach (by decide) hagain

/-- With a flood wait of 2^62 minutes `60*int64(FloodWait)` is zero: the next tick takes the user
out, and they get their configurations a second later. -/
def overflowingBotRun : BotState :=
  ((startedBot.after 0x4000000000000000 1000 (.message 7 [])).after 0x4000000000000000 1001
    (.tick [7])).after 0x4000000000000000 1001 (.message 7 [])

theorem not_floodControlled : 0 ≤ (0x4000000000000000 : BitVec 64).toInt ∧
    Reach BotStart (BotStep 0x4000000000000000) (fun _ _ => True) overflowingBotRun ∧
      ¬ FloodControlled 0x4000000000000000 overflowingBotRun.log := by
  have hstart : Reach BotStart (BotStep 0x4000000000000000) (fun _ _ => True) startedBot :=
    .init ⟨rfl, rfl⟩
  have hconfigs := reach_after 1000 (.message 7 []) hstart (by decide) nofun
    trivial
  have htick := reach_after 1001 (.tick [7]) hconfigs (by decide)
    (by rintro order ⟨⟩; decide) trivial
  have hagain := reach_after 1001 (.message 7 []) htick (by decide) nofun trivial
  refine ⟨by decide, hagain, fun h => ?_⟩
  have hlog : overflowingBotRun.log = [.configs 7 1000, .configs 7 1001] := by decide
  have hpair := h.apart
  rw [hlog, List.pairwise_pair] at hpair
  exact absurd (hpair 7 1000 1001 rfl rfl) (by decide)

end QrWireguard.WebUi
