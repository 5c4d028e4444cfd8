import Mathlib.Data.List.DropRight
import QrWireguard.Vtysh.Binding
import QrWireguard.Vtysh.OneLine
import QrWireguard.Vtysh.Reload

/-!
# Quoted arguments

The blanks of a quoted text are sent through the splitting of a line as dashes, and
`config_tcpdump` turns every dash back into a blank. The expression gets through when it holds no
dash of its own and no other white space between its words.
-/

namespace QrWireguard.Vtysh
open Cli Proc

/-! ## White space at the ends -/

/-- A text without the white space at its ends. -/
def stripped (s : Str) : Str := (s.dropWhile isspace).rdropWhile isspace

theorem mem_dropWhile {p : Char → Bool} {s : Str} {c : Char} (hc : c ∈ s) (hp : p c = false) :
    c ∈ s.dropWhile p := by
  rw [← List.takeWhile_append_dropWhile (p := p) (l := s), List.mem_append] at hc
  refine hc.resolve_left fun hmem => ?_
  rw [List.mem_takeWhile_imp hmem] at hp
  cases hp

theorem mem_stripped {s : Str} {c : Char} (hc : c ∈ s) (hp : isspace c = false) :
    c ∈ stripped s := by
  rw [stripped, List.rdropWhile, List.mem_reverse]
  exact mem_dropWhile (List.mem_reverse.mpr (mem_dropWhile hc hp)) hp

theorem mem_of_mem_stripped {s : Str} {c : Char} (hc : c ∈ stripped s) : c ∈ s :=
  (List.dropWhile_sublist _).subset ((List.rdropWhile_prefix isspace _).subset hc)

theorem stripped_append {pre s post : Str} (hpre : ∀ c ∈ pre, isspace c = true)
    (hpost : ∀ c ∈ post, isspace c = true) : stripped (pre ++ s ++ post) = stripped s := by
  have hback : ∀ t : Str, (t ++ post).rdropWhile isspace = t.rdropWhile isspace := by
    intro t
    rw [List.rdropWhile, List.reverse_append,
      List.dropWhile_append_of_pos fun c hc => hpost c (List.mem_reverse.mp hc)]
    rfl
  rw [stripped, stripped, List.append_assoc, List.dropWhile_append_of_pos hpre,
    List.dropWhile_append]
  split
  · next hempty =>
    rw [List.isEmpty_iff.mp hempty, List.dropWhile_eq_nil_iff.mpr hpost]
  · exact hback _

/-! ## The line and its words -/

/-- What quoting makes of a byte. -/
def quoteByte (c : Char) : Char := if c = ' ' then '-' else c

/-- What `config_tcpdump` makes of a byte. -/
def unquoteByte (c : Char) : Char := if c = '-' then ' ' else c

/-- White space that quoting does not take for part of a word. -/
def isBreak (c : Char) : Bool := isspace c && c != ' '

theorem isspace_quoteByte : isspace ∘ quoteByte = isBreak := by
  funext c
  by_cases hc : c = ' '
  · subst hc
    rfl
  · simp [quoteByte, isBreak, hc]

theorem unquoteByte_ne (c : Char) : unquoteByte c ≠ '-' := by
  unfold unquoteByte
  split
  · decide
  · assumption

theorem unquoteByte_quoteByte {c : Char} (hc : c ≠ '-') : unquoteByte (quoteByte c) = c := by
  by_cases hsp : c = ' '
  · subst hsp
    rfl
  · simp [quoteByte, unquoteByte, hsp, hc]

/-- `tcpdump IF "E"`. -/
def tcpdumpLine (ifname expr : Str) : Str :=
  str "tcpdump " ++ ifname ++ ' ' :: '"' :: (expr ++ ['"'])

section
variable {ifname expr : Str}

theorem cstr_tcpdumpLine (hif : '\x00' ∉ ifname) (hexpr : '\x00' ∉ expr) :
    cstr (tcpdumpLine ifname expr) = tcpdumpLine ifname expr := by
  refine cstr_of_not_mem fun hmem => ?_
  simp only [tcpdumpLine, List.mem_append, List.mem_cons, List.not_mem_nil, or_false] at hmem
  revert hmem
  rintro ((hmem | hmem) | hmem | hmem | hmem | hmem)
  · revert hmem
    decide
  · exact hif hmem
  · cases hmem
  · cases hmem
  · exact hexpr hmem
  · cases hmem

theorem unquote_tcpdumpLine (hif : '"' ∉ ifname) (hexpr : '"' ∉ expr) :
    unquote (tcpdumpLine ifname expr) =
      str "tcpdump " ++ ifname ++ ' ' :: ' ' :: (expr.map quoteByte ++ [' ']) := by
  have hfront : ∀ c ∈ str "tcpdump " ++ ifname ++ [' '], (c != '"') = true := by
    apply bne_of_not_mem
    intro hc
    simp only [List.mem_append, List.mem_singleton] at hc
    rcases hc with (hc | hc) | hc
    · revert hc
      decide
    · exact hif hc
    · cases hc
  have hquoted := bne_of_not_mem hexpr
  have hline : tcpdumpLine ifname expr =
      (str "tcpdump " ++ ifname ++ [' ']) ++ '"' :: (expr ++ ['"']) := by
    simp [tcpdumpLine]
  have hdrop : (tcpdumpLine ifname expr).dropWhile (· != '"') = '"' :: (expr ++ ['"']) := by
    rw [hline, List.dropWhile_append_of_pos hfront]
    rfl
  have htake : (tcpdumpLine ifname expr).takeWhile (· != '"') =
      str "tcpdump " ++ ifname ++ [' '] := by
    rw [hline, List.takeWhile_append_of_pos hfront]
    simp
  have hend : (expr ++ ['"']).dropWhile (· != '"') = ['"'] := by
    rw [List.dropWhile_append_of_pos hquoted]
    rfl
  have hinner : (expr ++ ['"']).takeWhile (· != '"') = expr := by
    rw [List.takeWhile_append_of_pos hquoted]
    simp
  unfold unquote
  rw [hdrop]
  dsimp only
  rw [hend]
  dsimp only
  rw [htake, hinner]
  simp [quoteByte]

/-- The pieces of the expression that arrive, with dashes for the blanks. -/
def quotedWords (expr : Str) : List Str := (words isBreak expr).map (List.map quoteByte)

theorem cmdMakeStrvec_tcpdumpLine (hif : IsToken ifname) (hifq : '"' ∉ ifname)
    (hexprq : '"' ∉ expr) : cmdMakeStrvec (tcpdumpLine ifname expr) =
      some (str "tcpdump" :: ifname :: quotedWords expr) := by
  have htail : words isspace (expr.map quoteByte ++ [' ']) = quotedWords expr := by
    rw [words_concat_sep rfl, words_map, isspace_quoteByte]
    rfl
  have hwords : words isspace (str "tcpdump " ++ ifname ++
      ' ' :: ' ' :: (expr.map quoteByte ++ [' '])) = str "tcpdump" :: ifname :: quotedWords expr := by
    have hcmd : IsToken (str "tcpdump") := by decide
    have hshape : str "tcpdump " ++ ifname ++ ' ' :: ' ' :: (expr.map quoteByte ++ [' ']) =
        str "tcpdump" ++ ' ' :: (ifname ++ ' ' :: ' ' :: (expr.map quoteByte ++ [' '])) := by
      rw [show str "tcpdump " = str "tcpdump" ++ [' '] by rfl]
      simp
    rw [hshape, words_append_sep hcmd rfl, words_append_sep hif rfl, words_cons_sep rfl, htail]
  unfold cmdMakeStrvec
  rw [unquote_tcpdumpLine hifq hexprq, ← hwords]
  rfl

end

/-! ## The command -/

/-- The element of `config_tcpdump`. -/
def tcpdumpElement : CmdElement CmdFunc :=
  entry configTcpdumpCmd [str "tcpdump"] [[str "INTERFACE"], [str "EXPRESSION"]]

section
variable {filter : Filter} {index : Nat} {v : List (Option (CmdElement CmdFunc))}
  {x : CmdElement CmdFunc} {s word : Str}

theorem descMatch_of_plainVariable (hs : plainVariable s = true) :
    descMatch filter word s = some .extendMatch := by
  simp only [plainVariable, plainAlternative, Bool.and_eq_true, Bool.not_eq_true', bne_iff_ne,
    ne_eq] at hs
  obtain ⟨⟨⟨⟨⟨⟨h₁, h₂⟩, h₃⟩, h₄⟩, h₅⟩, h₆⟩, hval⟩ := hs
  unfold descMatch
  rw [if_neg (by simp [h₁]), if_neg (by simp [h₂]), if_neg h₃, if_neg h₄, if_neg h₅, if_neg h₆,
    if_pos hval]

/-- A command that is alone stays when its position takes every word. -/
theorem filterWords_variable (filter : Filter) (word : Str) (vline : List Str)
    (hv : v.reduceOption = [x]) (hx : x.alternatives index = [s]) (hs : plainVariable s = true) :
    ∃ v', v'.reduceOption = [x] ∧
      filterWords filter index v (word :: vline) = filterWords filter (index + 1) v' vline := by
  have hmatch : descMatch filter word s = some .extendMatch := descMatch_of_plainVariable hs
  have hbest : bestMatch filter word index v = .extendMatch := by
    rw [bestMatch_eq, matchTypes, hv]
    simp [hx, hmatch, MatchType.raise, MatchType.rank]
  have hvote : ambiguousVote word .extendMatch s = .count := by
    simp only [plainVariable, Bool.and_eq_true] at hs
    simp [ambiguousVote, hs.2]
  have hleft : leftOf filter word index .extendMatch v = [x] := by
    have htakes : x.takes filter word index = true := by simp [CmdElement.takes, hx, hmatch]
    have hcounts : x.counts word index .extendMatch = true := by
      change (x.alternatives index).any _ = true
      simp [hx, hvote, Vote.counts]
    simp [leftOf, hv, htakes, hcounts]
  obtain ⟨v', hv'⟩ := isOk_iff_clear_left.mpr (show Clear word .extendMatch none
      ((leftOf filter word index .extendMatch v).flatMap fun e => e.alternatives index) by
    rw [hleft]
    refine ⟨s, by simp, fun t ht => ?_⟩
    obtain rfl : t = s := by simpa [hx] using ht
    simp [hvote])
  refine ⟨v', (reduceOption_left hv').trans hleft, ?_⟩
  rw [filterWords_cons, hbest, if_neg (by decide), hv']

end

/-- The first word leaves `config_tcpdump` only. -/
theorem filterWords_tcpdump (vline : List Str) :
    ∃ v', v'.reduceOption = [tcpdumpElement] ∧
      filterWords .byCompletion 0 ((cmdNodeVector .enable).map some) (str "tcpdump" :: vline) =
        filterWords .byCompletion 1 v' vline := by
  have hbest : bestMatch .byCompletion (str "tcpdump") 0 ((cmdNodeVector .enable).map some) =
      .exactMatch := by decide +kernel
  have hleft : leftOf .byCompletion (str "tcpdump") 0 .exactMatch
      ((cmdNodeVector .enable).map some) = [tcpdumpElement] := by decide +kernel
  obtain ⟨v', hv'⟩ := isOk_iff_clear_left.mpr (show Clear (str "tcpdump") .exactMatch none
      ((leftOf .byCompletion (str "tcpdump") 0 .exactMatch
        ((cmdNodeVector .enable).map some)).flatMap fun e => e.alternatives 0) by
    rw [hleft]
    refine ⟨str "tcpdump", nofun, fun t ht => ?_⟩
    obtain rfl : t = str "tcpdump" := List.mem_singleton.mp ht
    exact ⟨nofun, fun _ => rfl⟩)
  refine ⟨v', (reduceOption_left hv').trans hleft, ?_⟩
  rw [filterWords_cons, hbest, if_neg (by decide), hv']

/-- With one word for the expression the handler is called. -/
theorem cmdLookup_tcpdump (ifname word : Str) :
    cmdLookup .byCompletion (cmdNodeVector .enable) [str "tcpdump", ifname, word] =
      .run tcpdumpElement [ifname, word] := by
  obtain ⟨v₁, hv₁, h₁⟩ := filterWords_tcpdump [ifname, word]
  have hinterface : tcpdumpElement.alternatives 1 = [str "INTERFACE"] := rfl
  have hexpression : tcpdumpElement.alternatives 2 = [str "EXPRESSION"] := rfl
  obtain ⟨v₂, hv₂, h₂⟩ := filterWords_variable .byCompletion ifname [word] hv₁ hinterface (by decide)
  obtain ⟨v₃, hv₃, h₃⟩ := filterWords_variable .byCompletion word [] hv₂ hexpression (by decide)
  have hloop : filterWords .byCompletion 0 ((cmdNodeVector .enable).map some)
      [str "tcpdump", ifname, word] = .ok (v₃, 3, false) := by
    rw [h₁, h₂, h₃]
    rfl
  unfold cmdLookup
  rw [hloop]
  dsimp only
  rw [hv₃]
  rfl

/-- With none or several it is not. -/
theorem cmdLookup_tcpdump_ne_run {ifname : Str} {expression : List Str}
    (hlen : expression.length ≠ 1) (e : CmdElement CmdFunc) (argv : List Str) :
    cmdLookup .byCompletion (cmdNodeVector .enable) (str "tcpdump" :: ifname :: expression) ≠
      .run e argv := by
  intro hrun
  obtain ⟨left, index, vararg, hleft, honly⟩ := cmdLookup_left hrun
  obtain ⟨v₁, hv₁, h₁⟩ := filterWords_tcpdump (ifname :: expression)
  rw [h₁] at hleft
  have he : e = tcpdumpElement := by
    have hmem := mem_filterWords hleft
      (List.reduceOption_mem_iff.mp (mem_of_filter_eq_singleton honly).1)
    rw [← List.reduceOption_mem_iff, hv₁] at hmem
    exact List.mem_singleton.mp hmem
  have hbound := length_of_run
    (fun e he descvec hd => (addressTemplates .enable e he descvec hd).1) hrun
  rw [he] at hbound
  change 3 ≤ expression.length + 2 ∧ expression.length + 2 ≤ 3 at hbound
  omega

/-! ## The expression `tcpdump` gets -/

/-- The line starts `tcpdump` with the expression, up to white space at its ends. -/
def Survives (e : Env) (w : World) (ifname expr : Str) : Prop :=
  Runs (vtyshExecute (tcpdumpLine ifname expr)) e w fun _ t => ∃ passed,
    t.trace = .exec (str "tcpdump")
      [str "-i", ifname, str "-n", str "-Z", runUser, str "-XX", passed] :: w.trace ∧
    stripped passed = stripped expr

section
variable {ifname expr : Str} {e : Env} {w : World} {vline : List Str}

/-- A line that stands for no command leaves no program in the trace. -/
theorem not_runs_of_lookup {line : Str} {Q : Int → World → Prop}
    (hv : cmdMakeStrvec (cstr line) = some vline)
    (hrun : ∀ elem argv, cmdLookup .byCompletion (cmdNodeVector w.vty.node) vline ≠ .run elem argv)
    (hw : ∀ ret, ¬ Q ret w) (hout : ∀ ret text, ¬ Q ret (w.emit (.out text))) :
    ¬ Runs (vtyshExecute line) e w Q := by
  intro h
  unfold vtyshExecute vtyshExecuteFunc at h
  rw [hv] at h
  simp only [runs_bind, cmdExecute, runs_get, World.vtyOf] at h
  cases hl : cmdLookup .byCompletion (cmdNodeVector w.vty.node) vline with
  | error code =>
    rw [hl] at h
    simp only [runs_pure, runs_ite, runs_bind, runs_vtyOut] at h
    by_cases h₁ : code = cmdErrAmbiguous
    · exact hout _ _ (h.1 h₁)
    · by_cases h₂ : code = cmdErrNoMatch
      · exact hout _ _ ((h.2 h₁).1 h₂)
      · by_cases h₃ : code = cmdErrIncomplete
        · exact hout _ _ (((h.2 h₁).2 h₂).1 h₃)
        · exact hw _ (((h.2 h₁).2 h₂).2 h₃)
  | run elem argv => exact hrun elem argv hl
  | undefined =>
    rw [hl] at h
    exact h

/-- The handler passes on what it makes of the one word it gets. -/
theorem runs_tcpdump {line word : Str} {Q : Int → World → Prop} (hnode : w.vty.node = .enable)
    (hv : cmdMakeStrvec (cstr line) = some [str "tcpdump", ifname, word]) :
    Runs (vtyshExecute line) e w Q ↔ Q (if e.fork w.trace then 0 else -1)
      (w.emit (.exec (str "tcpdump") [str "-i", ifname, str "-n", str "-Z", runUser, str "-XX",
        word.map unquoteByte])) := by
  have hcall : call tcpdumpElement.func .vty [ifname, word] =
      cmdExecuteSystemCommand (str "tcpdump") [str "-i", ifname, str "-n", str "-Z", runUser,
        str "-XX", word.map unquoteByte] := rfl
  unfold vtyshExecute vtyshExecuteFunc
  rw [hv]
  simp only [cmdExecute, runs_bind, runs_get, World.vtyOf, hnode, cmdLookup_tcpdump, hcall]
  unfold cmdExecuteSystemCommand
  cases hf : e.fork w.trace <;> simp [hf]

/-- White space other than blanks stands at the ends of the expression only, and there is
something between them. -/
def Undivided (expr : Str) : Prop :=
  ∃ pre inner post, expr = pre ++ inner ++ post ∧ IsWord isBreak inner ∧
    (∀ c ∈ pre, isBreak c = true) ∧ ∀ c ∈ post, isBreak c = true

theorem undivided_iff : Undivided expr ↔ ∃ inner, words isBreak expr = [inner] := by
  constructor
  · rintro ⟨pre, inner, post, hexpr, hinner, hends⟩
    exact ⟨inner, words_eq_singleton_iff.mpr ⟨hinner, pre, post, hexpr, hends⟩⟩
  · rintro ⟨inner, h⟩
    obtain ⟨hinner, pre, post, hexpr, hends⟩ := words_eq_singleton_iff.mp h
    exact ⟨pre, inner, post, hexpr, hinner, hends⟩

theorem isspace_of_isBreak {c : Char} (h : isBreak c = true) : isspace c = true := by
  rw [isBreak, Bool.and_eq_true] at h
  exact h.1

theorem stripped_of_words {inner : Str} (h : words isBreak expr = [inner]) :
    stripped inner = stripped expr := by
  obtain ⟨-, pre, post, rfl, hpre, hpost⟩ := words_eq_singleton_iff.mp h
  exact (stripped_append (fun c hc => isspace_of_isBreak (hpre c hc))
    fun c hc => isspace_of_isBreak (hpost c hc)).symm

/-- A dash does not come back. -/
theorem dash_not_mem_of_stripped {word : Str}
    (h : stripped (word.map unquoteByte) = stripped expr) : '-' ∉ expr := by
  intro hdash
  have hmem : '-' ∈ word.map unquoteByte := mem_of_mem_stripped (h ▸ mem_stripped hdash rfl)
  obtain ⟨c, -, hc⟩ := List.mem_map.mp hmem
  exact unquoteByte_ne c hc

theorem lookup_words (hif : IsToken ifname) (hifq : '"' ∉ ifname) (hif0 : '\x00' ∉ ifname)
    (hq : '"' ∉ expr) (h0 : '\x00' ∉ expr) : cmdMakeStrvec (cstr (tcpdumpLine ifname expr)) =
      some (str "tcpdump" :: ifname :: quotedWords expr) := by
  rw [cstr_tcpdumpLine hif0 h0]
  exact cmdMakeStrvec_tcpdumpLine hif hifq hq

/-- What arrives has one piece, and no dash is taken for a blank. -/
theorem condition_of_survives
    (hwords : cmdMakeStrvec (cstr (tcpdumpLine ifname expr)) =
      some (str "tcpdump" :: ifname :: quotedWords expr))
    (hnode : w.vty.node = .enable) (h : Survives e w ifname expr) :
    '-' ∉ expr ∧ Undivided expr := by
  by_cases hone : ∃ inner, words isBreak expr = [inner]
  · refine ⟨?_, undivided_iff.mpr hone⟩
    obtain ⟨inner, hinner⟩ := hone
    rw [quotedWords, hinner] at hwords
    obtain ⟨passed, htrace, hpassed⟩ := (runs_tcpdump hnode hwords).mp h
    simp only [World.emit_trace, List.cons.injEq, Event.exec.injEq, true_and, and_true] at htrace
    rw [← htrace] at hpassed
    exact dash_not_mem_of_stripped hpassed
  · refine absurd h (not_runs_of_lookup hwords ?_ ?_ ?_)
    · rw [hnode]
      refine cmdLookup_tcpdump_ne_run fun hlen => hone ?_
      rw [quotedWords, List.length_map] at hlen
      exact List.length_eq_one_iff.mp hlen
    · rintro ret ⟨passed, htrace, -⟩
      have hlen := congrArg List.length htrace
      simp at hlen
    · rintro ret text ⟨passed, htrace, -⟩
      simp at htrace

theorem survives_of_words {inner : Str} (hnode : w.vty.node = .enable)
    (hwords : cmdMakeStrvec (cstr (tcpdumpLine ifname expr)) =
      some [str "tcpdump", ifname, inner.map quoteByte])
    (hdash : '-' ∉ inner) (hinner : words isBreak expr = [inner]) : Survives e w ifname expr := by
  refine (runs_tcpdump hnode hwords).mpr ⟨_, rfl, ?_⟩
  have hback : (inner.map quoteByte).map unquoteByte = inner := by
    have hbyte : ∀ c ∈ inner, (unquoteByte ∘ quoteByte) c = id c := by
      intro c hc
      refine unquoteByte_quoteByte ?_
      rintro rfl
      exact hdash hc
    rw [List.map_map, List.map_congr_left hbyte, List.map_id]
  rw [hback]
  exact stripped_of_words hinner

end

/-- The expression survives exactly when it holds no dash and is not divided. -/
theorem survives_iff (e : Env) (w : World) (ifname expr : Str) (hnode : w.vty.node = .enable)
    (hif : IsToken ifname) (hifq : '"' ∉ ifname) (hif0 : '\x00' ∉ ifname)
    (hq : '"' ∉ expr) (h0 : '\x00' ∉ expr) :
    Survives e w ifname expr ↔ '-' ∉ expr ∧ Undivided expr := by
  have hwords := lookup_words hif hifq hif0 hq h0
  constructor
  · exact condition_of_survives hwords hnode
  · rintro ⟨hdash, hundivided⟩
    obtain ⟨inner, hinner⟩ := undivided_iff.mp hundivided
    rw [quotedWords, hinner] at hwords
    refine survives_of_words hnode hwords (fun hmem => hdash ?_) hinner
    exact (isWord_of_mem_words (hinner ▸ List.mem_singleton_self inner)).2 _ hmem

/-- The example of the help text. -/
theorem survives_iff_port_80 :
    Survives obligingEnv (emptyShell.setNode .enable .vty) (str "eth0")
      (str "port 80 and host 192.168.0.1") ↔
    '-' ∉ str "port 80 and host 192.168.0.1" ∧
      Undivided (str "port 80 and host 192.168.0.1") :=
  survives_iff obligingEnv (emptyShell.setNode .enable .vty) (str "eth0")
    (str "port 80 and host 192.168.0.1") rfl (by decide) (by decide) (by decide) (by decide)
    (by decide)

/-- A port range loses its dash. -/
theorem not_survives_portrange : ¬ ∀ (e : Env) (w : World) (ifname expr : Str),
    w.vty.node = .enable → IsToken ifname → '"' ∉ ifname → '\x00' ∉ ifname → '"' ∉ expr →
    '\x00' ∉ expr → (∃ c ∈ expr, isspace c = false) → Survives e w ifname expr := by
  intro h
  have hsurvives := h obligingEnv (emptyShell.setNode .enable .vty) (str "eth0")
    (str "portrange 21-23") rfl (by decide) (by decide) (by decide) (by decide) (by decide)
    ⟨'p', by decide, by decide⟩
  have hwords : cmdMakeStrvec (cstr (tcpdumpLine (str "eth0") (str "portrange 21-23"))) =
      some (str "tcpdump" :: str "eth0" :: quotedWords (str "portrange 21-23")) :=
    lookup_words (by decide) (by decide) (by decide) (by decide) (by decide)
  have hdash := (condition_of_survives hwords rfl hsurvives).1
  revert hdash
  decide

/-! ## Splitting a second time -/

theorem count_of_dropWhile_eq_cons {s quoted : Str} {q : Char}
    (h : s.dropWhile (· != '"') = q :: quoted) :
    q = '"' ∧ s.count '"' = quoted.count '"' + 1 := by
  have hq := List.head?_dropWhile_not (· != '"') s
  rw [h] at hq
  obtain rfl : q = '"' := by simpa using hq
  have hfront : (s.takeWhile (· != '"')).count '"' = 0 :=
    List.count_eq_zero.mpr fun hmem => by simpa using List.mem_takeWhile_imp hmem
  refine ⟨rfl, ?_⟩
  conv_lhs => rw [← List.takeWhile_append_dropWhile (p := (· != '"')) (l := s), h]
  rw [List.count_append, hfront, List.count_cons_self, Nat.zero_add]

theorem unquote_of_count_le_one {s : Str} (h : s.count '"' ≤ 1) : unquote s = s := by
  unfold unquote
  split
  · rfl
  · next q quoted hquoted =>
    obtain ⟨-, hcount⟩ := count_of_dropWhile_eq_cons hquoted
    split
    · rfl
    · next q' rest hrest =>
      obtain ⟨-, hcount'⟩ := count_of_dropWhile_eq_cons hrest
      omega

theorem count_unquote {s : Str} (h : s.count '"' ≤ 2) : (unquote s).count '"' ≤ 1 := by
  by_cases hone : s.count '"' ≤ 1
  · rw [unquote_of_count_le_one hone]
    exact hone
  · have hnone : ∀ t : Str, (t.takeWhile (· != '"')).count '"' = 0 := fun t =>
      List.count_eq_zero.mpr fun hmem => by simpa using List.mem_takeWhile_imp hmem
    unfold unquote
    split
    · next hnil =>
      refine absurd (List.count_eq_zero.mpr fun hmem => ?_) (by omega : s.count '"' ≠ 0)
      simpa using List.dropWhile_eq_nil_iff.mp hnil _ hmem
    · next q quoted hquoted =>
      obtain ⟨-, hcount⟩ := count_of_dropWhile_eq_cons hquoted
      split
      · next hnil =>
        refine absurd (List.count_eq_zero.mpr fun hmem => ?_) (by omega : quoted.count '"' ≠ 0)
        simpa using List.dropWhile_eq_nil_iff.mp hnil _ hmem
      · next q' rest hrest =>
        obtain ⟨-, hcount'⟩ := count_of_dropWhile_eq_cons hrest
        have hdashes : ((quoted.takeWhile (· != '"')).map
            fun c => if c = ' ' then '-' else c).count '"' = 0 := by
          refine List.count_eq_zero.mpr fun hmem => ?_
          obtain ⟨c, hc, heq⟩ := List.mem_map.mp hmem
          split at heq
          · cases heq
          · rw [heq] at hc
            simpa using List.mem_takeWhile_imp hc
        simp only [List.count_append, List.count_cons, hnone, hdashes]
        simp
        omega

/-- A line is split into words, and these with blanks between them are split into the same words,
when no quotes are left to be treated the second time. -/
theorem cmdMakeStrvec_stable {string : Str} {strvec : List Str} (hq : string.count '"' ≤ 2)
    (h : cmdMakeStrvec string = some strvec) :
    (∀ token ∈ strvec, token ≠ [] ∧ ∀ c ∈ token, isspace c = false) ∧
      cmdMakeStrvec (unwords ' ' strvec) = some strvec := by
  have htokens : ∀ token ∈ strvec, IsToken token := fun token hmem =>
    (cmdMakeStrvec_words h token hmem).1
  refine ⟨htokens, ?_⟩
  unfold cmdMakeStrvec at h
  split at h
  · cases h
  next c cs hcs =>
  split at h
  · cases h
  next hcomment =>
  have hwords : words isspace (c :: cs) = strvec := Option.some.inj h
  have hc : isspace c = false := by
    have hhead := List.head?_dropWhile_not isspace (unquote string)
    rw [hcs] at hhead
    simpa using hhead
  -- the words hold at most one quote together
  have hquote : (unwords ' ' strvec).count '"' ≤ 1 := by
    calc (unwords ' ' strvec).count '"' = ((c :: cs).filter fun d => !isspace d).count '"' := by
          rw [count_unwords (by decide), ← hwords, flatten_words]
      _ ≤ (unquote string).count '"' := by
          rw [← hcs]
          exact (List.filter_sublist.trans (List.dropWhile_sublist _)).count_le _
      _ ≤ 1 := count_unquote hq
  obtain ⟨w, ws, hcons⟩ : ∃ w ws, strvec = w :: ws := by
    refine List.exists_cons_of_ne_nil fun hnil => ?_
    rw [hnil, words_eq_nil_iff] at hwords
    rw [hwords c List.mem_cons_self] at hc
    cases hc
  have hhead : (unwords ' ' strvec).head? = some c := by
    have hflat := flatten_words (p := isspace) (c :: cs)
    have hw := (htokens w (hcons ▸ List.mem_cons_self)).1
    rw [hwords, hcons, List.flatten_cons, List.filter_cons_of_pos (by simp [hc])] at hflat
    rw [hcons, head?_unwords hw, ← List.head?_append_of_ne_nil _ hw, hflat, List.head?_cons]
  obtain ⟨rest, hrest⟩ : ∃ rest, unwords ' ' strvec = c :: rest := by
    cases hjoin : unwords ' ' strvec with
    | nil => rw [hjoin] at hhead; cases hhead
    | cons d rest => rw [hjoin] at hhead; exact ⟨rest, by rw [Option.some.inj hhead]⟩
  have hsplit : words isspace (unwords ' ' strvec) = strvec := words_unwords rfl htokens
  unfold cmdMakeStrvec
  rw [unquote_of_count_le_one hquote, hrest, List.dropWhile_cons_of_neg (by simp [hc])]
  dsimp only
  rw [if_neg hcomment, ← hrest, hsplit]

theorem cmdMakeStrvec_stable_quoted :
    (∀ token ∈ [str "tcpdump", str "eth0", str "port-80"], token ≠ [] ∧
        ∀ c ∈ token, isspace c = false) ∧
      cmdMakeStrvec (unwords ' ' [str "tcpdump", str "eth0", str "port-80"]) =
        some [str "tcpdump", str "eth0", str "port-80"] :=
  have hline : cmdMakeStrvec (str "  tcpdump\teth0 \"port 80\" ") =
      some [str "tcpdump", str "eth0", str "port-80"] := by decide +kernel
  cmdMakeStrvec_stable (by decide +kernel) hline

end QrWireguard.Vtysh
