import Mathlib.Data.Bool.AllAny
import QrWireguard.Vtysh.Effect

/-!
# One line for each key

The key of a configuration line is what a later command of the same kind replaces: the host
name, the name servers, the listening port, the link state, the address of an interface, a
peer, a bridge, a filter rule at either position. A line of any other kind is its own key.
`Keyed` says that the list is sorted, that every line has one of the forms the handlers store,
and that no two lines have one key. The edits of every handler keep it, as long as the text
they add holds no percent sign and an interface name no control character.
-/

namespace QrWireguard.Vtysh
open Cli Proc

/-! ## Keys -/

/-- What a line configures. -/
inductive Key where
  | hostname
  | nameserver
  | listenport
  | link
  | ipAddress (name : Str)
  | peer (key : Str)
  | bridge (num : Str)
  /-- A filter rule without its position. -/
  | filter (args : List Str)
  | line (text : Str)
  deriving DecidableEq

/-- The key of a line, from its words. -/
def configKey (line : Str) : Key :=
  match words isspace line with
  | kw :: arg :: rest =>
    if kw = str "hostname" then .hostname
    else if kw = str "nameserver" then .nameserver
    else if kw = str "bridge" ∧ arg ≠ str "disable" then .bridge arg
    else if kw = str "ip" ∧ arg = str "address" ∧ rest ≠ [] then .ipAddress (rest.headD [])
    else if kw = str "wg" ∧ arg = str "listenport" then .listenport
    else if kw = str "wg" ∧ (arg = str "link-up" ∨ arg = str "link-down") then .link
    else if kw = str "wg" ∧ arg = str "peer" ∧ rest ≠ [] then .peer (rest.headD [])
    else if kw = str "sfirewall" ∧ arg = str "filter" then .filter (rest.eraseIdx 3)
    else .line line
  | _ => .line line

/-- No line occurs twice, and there is at most one line for each key. -/
def OneLinePerKey (config : List Str) : Prop :=
  config.Nodup ∧ ∀ key, (config.filter fun line => configKey line = key).length ≤ 1

theorem oneLinePerKey_of_pairwise {config : List Str}
    (h : config.Pairwise (configKey · ≠ configKey ·)) : OneLinePerKey config := by
  refine ⟨h.imp fun hab hEq => hab (by rw [hEq]), fun key => ?_⟩
  have hf : (config.filter fun line => configKey line = key).Pairwise
      (configKey · ≠ configKey ·) := h.sublist List.filter_sublist
  match hc : config.filter fun line => configKey line = key with
  | [] => simp
  | [_] => simp
  | a :: b :: rest =>
    have ha : a ∈ config.filter fun line => configKey line = key := by simp [hc]
    have hb : b ∈ config.filter fun line => configKey line = key := by simp [hc]
    simp only [List.mem_filter, decide_eq_true_eq] at ha hb
    rw [hc] at hf
    exact absurd (ha.2.trans hb.2.symm) (List.rel_of_pairwise_cons hf (by simp))

/-! ## The forms of a line -/

/-- What may follow a key: nothing, or a blank and anything. -/
def IsTail (tail : Str) : Prop := tail = [] ∨ ∃ r, tail = ' ' :: r

/-- A word of a command line. -/
abbrev IsToken (w : Str) : Prop := IsWord isspace w

/-- The forms of line the handlers store, with their keys. -/
inductive Stored : Key → Str → Prop
  | bridgeDisable : Stored (.line (str "bridge disable")) (str "bridge disable")
  | bridge (n : Int) (tail : Str) (hn : 1 ≤ n ∧ n ≤ 9) (ht : IsTail tail) :
      Stored (.bridge (itoa n)) (str "bridge " ++ (itoa n ++ tail))
  | hostname (name : Str) (hname : IsToken name) : Stored .hostname (str "hostname " ++ name)
  | ipAddress (name tail : Str) (hname : IsToken name) (hsp : ∀ c ∈ name, ' ' ≤ c)
      (ht : IsTail tail) : Stored (.ipAddress name) (str "ip address " ++ (name ++ tail))
  | ipRoute (rest : Str) : Stored (.line (str "ip route " ++ rest)) (str "ip route " ++ rest)
  | nameserver (rest : Str) (hne : words isspace rest ≠ []) :
      Stored .nameserver (str "nameserver " ++ rest)
  | portmap (rest : Str) :
      Stored (.line (str "sfirewall nat portmap " ++ rest)) (str "sfirewall nat portmap " ++ rest)
  | filter (a : FilterArgs) (ha : ∀ w ∈ a.toArgv, IsToken w)
      (hpos : a.position = str "insert" ∨ a.position = str "append") :
      Stored (.filter (a.toArgv.eraseIdx 3)) a.line
  | listenport (n : Int) : Stored .listenport (str "wg listenport " ++ itoa n)
  | peer (key tail : Str) (hkey : IsToken key) (hlen : key.length = publickeyMaxLen)
      (ht : IsTail tail) : Stored (.peer key) (str "wg peer " ++ (key ++ tail))
  | linkUp : Stored .link (str "wg link-up")
  | linkDown : Stored .link (str "wg link-down")

theorem isspace_blank : isspace ' ' = true := by decide

/-- Keywords, each with a blank after it, are split off. -/
theorem words_keywords (text : Str) (ws : List Str) (htext : text = ws.flatMap (· ++ [' ']))
    (hws : ∀ w ∈ ws, IsToken w) (s : Str) :
    words isspace (text ++ s) = ws ++ words isspace s := by
  subst htext
  induction ws with
  | nil => rfl
  | cons w ws ih =>
    have hw := words_append_sep (hws w (by simp)) isspace_blank (ws.flatMap (· ++ [' ']) ++ s)
    rw [ih fun v hv => hws v (by simp [hv])] at hw
    simpa using hw

theorem words_tail {w tail : Str} (hw : IsToken w) (ht : IsTail tail) :
    words isspace (w ++ tail) = w :: words isspace tail := by
  refine words_append hw ?_
  rcases ht with rfl | ⟨r, rfl⟩ <;> simp [isspace_blank]

theorem isToken_itoa (n : Int) : IsToken (itoa n) := by
  unfold itoa
  split
  · refine ⟨by simp, fun c hc => ?_⟩
    rcases List.mem_cons.mp hc with rfl | hc
    · decide
    · exact isspace_of_isdigit (isdigit_of_mem_natDigits hc)
  · exact ⟨natDigits_ne_nil _, fun c hc => isspace_of_isdigit (isdigit_of_mem_natDigits hc)⟩

section ConfigKey

theorem configKey_bridgeDisable :
    configKey (str "bridge disable") = .line (str "bridge disable") := by decide

theorem itoa_bridge {n : Int} (hn : 1 ≤ n ∧ n ≤ 9) : ∃ d, isdigit d = true ∧ itoa n = [d] := by
  obtain ⟨h1, h2⟩ := hn
  interval_cases n <;> exact ⟨_, by decide, rfl⟩

theorem configKey_bridge {n : Int} {tail : Str} (hn : 1 ≤ n ∧ n ≤ 9) (ht : IsTail tail) :
    configKey (str "bridge " ++ (itoa n ++ tail)) = .bridge (itoa n) := by
  have hw : words isspace (str "bridge " ++ (itoa n ++ tail)) =
      str "bridge" :: itoa n :: words isspace tail := by
    rw [words_keywords (str "bridge ") [str "bridge"] (by decide) (by decide),
      words_tail (isToken_itoa n) ht]
    rfl
  have hne : itoa n ≠ str "disable" := by
    obtain ⟨d, -, hd⟩ := itoa_bridge hn
    simp [hd, str]
  unfold configKey
  rw [hw]
  simp +decide [hne]

theorem configKey_hostname {name : Str} (hname : IsToken name) :
    configKey (str "hostname " ++ name) = .hostname := by
  unfold configKey
  rw [words_keywords (str "hostname ") [str "hostname"] (by decide) (by decide), words_self hname]
  simp +decide

theorem configKey_ipAddress {name tail : Str} (hname : IsToken name) (ht : IsTail tail) :
    configKey (str "ip address " ++ (name ++ tail)) = .ipAddress name := by
  unfold configKey
  rw [
    words_keywords (str "ip address ") [str "ip", str "address"] (by decide) (by decide),
    words_tail hname ht]
  simp +decide

theorem configKey_ipRoute (rest : Str) :
    configKey (str "ip route " ++ rest) = .line (str "ip route " ++ rest) := by
  unfold configKey
  rw [words_keywords (str "ip route ") [str "ip", str "route"] (by decide) (by decide)]
  simp +decide

theorem configKey_nameserver {rest : Str} (hne : words isspace rest ≠ []) :
    configKey (str "nameserver " ++ rest) = .nameserver := by
  unfold configKey
  rw [words_keywords (str "nameserver ") [str "nameserver"] (by decide) (by decide)]
  match hr : words isspace rest with
  | [] => exact absurd hr hne
  | _ :: _ => simp +decide

theorem configKey_portmap (rest : Str) :
    configKey (str "sfirewall nat portmap " ++ rest) =
      .line (str "sfirewall nat portmap " ++ rest) := by
  unfold configKey
  rw [words_keywords (str "sfirewall nat portmap ") [str "sfirewall", str "nat", str "portmap"]
    (by decide) (by decide)]
  simp +decide

theorem words_filterLine {a : FilterArgs} (ha : ∀ w ∈ a.toArgv, IsToken w) :
    words isspace a.line = str "sfirewall" :: str "filter" :: a.toArgv := by
  unfold FilterArgs.line
  rw [words_keywords (str "sfirewall filter ") [str "sfirewall", str "filter"] (by decide) (by decide),
    words_unwords isspace_blank ha]
  rfl

theorem configKey_filter {a : FilterArgs} (ha : ∀ w ∈ a.toArgv, IsToken w) :
    configKey a.line = .filter (a.toArgv.eraseIdx 3) := by
  unfold configKey
  rw [words_filterLine ha]
  simp +decide

theorem configKey_listenport (n : Int) :
    configKey (str "wg listenport " ++ itoa n) = .listenport := by
  unfold configKey
  rw [words_keywords (str "wg listenport ") [str "wg", str "listenport"] (by decide) (by decide),
    words_self (isToken_itoa n)]
  simp +decide

theorem configKey_peer {key tail : Str} (hkey : IsToken key) (ht : IsTail tail) :
    configKey (str "wg peer " ++ (key ++ tail)) = .peer key := by
  unfold configKey
  rw [words_keywords (str "wg peer ") [str "wg", str "peer"] (by decide) (by decide),
    words_tail hkey ht]
  simp +decide

theorem configKey_linkUp : configKey (str "wg link-up") = .link := by decide

theorem configKey_linkDown : configKey (str "wg link-down") = .link := by decide

/-- The key of a stored line. -/
theorem Stored.configKey_eq {key : Key} {line : Str} (h : Stored key line) :
    configKey line = key := by
  cases h with
  | bridgeDisable => exact configKey_bridgeDisable
  | bridge n tail hn ht => exact configKey_bridge hn ht
  | hostname name hname => exact configKey_hostname hname
  | ipAddress name tail hname hsp ht => exact configKey_ipAddress hname ht
  | ipRoute rest => exact configKey_ipRoute rest
  | nameserver rest hne => exact configKey_nameserver hne
  | portmap rest => exact configKey_portmap rest
  | filter a ha hpos => exact configKey_filter ha
  | listenport n => exact configKey_listenport n
  | peer key tail hkey hlen ht => exact configKey_peer hkey ht
  | linkUp => exact configKey_linkUp
  | linkDown => exact configKey_linkDown

end ConfigKey

/-! ## Which lines start with the text a handler deletes -/

section Prefixes
variable {key : Key} {line : Str}

theorem Stored.hostname_prefix (h : Stored key line) :
    str "hostname" <+: line ↔ key = .hostname := by
  cases h <;> simp [str, FilterArgs.line]

theorem Stored.nameserver_prefix (h : Stored key line) :
    str "nameserver" <+: line ↔ key = .nameserver := by
  cases h <;> simp [str, FilterArgs.line]

theorem Stored.listenport_prefix (h : Stored key line) :
    str "wg listenport" <+: line ↔ key = .listenport := by
  cases h <;> simp [str, FilterArgs.line]

theorem Stored.startsWith_linkUp (h : Stored key line) :
    str "wg link-up" <+: line ↔ line = str "wg link-up" := by
  cases h <;> simp [str, FilterArgs.line]

theorem Stored.startsWith_linkDown (h : Stored key line) :
    str "wg link-down" <+: line ↔ line = str "wg link-down" := by
  cases h <;> simp [str, FilterArgs.line]

theorem Stored.bridge_prefix {n : Int} (hn : 1 ≤ n ∧ n ≤ 9) (h : Stored key line) :
    str "bridge " ++ itoa n <+: line ↔ key = .bridge (itoa n) := by
  obtain ⟨d, hd, hitoa⟩ := itoa_bridge hn
  rw [hitoa]
  cases h with
  | bridgeDisable =>
    have hne : d ≠ 'd' := by rintro rfl; revert hd; decide
    simp [str, hne]
  | bridge m tail hm ht =>
    obtain ⟨d', -, hitoa'⟩ := itoa_bridge hm
    simp [hitoa', str, eq_comm]
  | _ => simp [str, FilterArgs.line]

theorem Stored.peer_prefix {k : Str} (hk : k.length = publickeyMaxLen) (h : Stored key line) :
    str "wg peer " ++ k <+: line ↔ key = .peer k := by
  cases h with
  | peer k' tail hkey hlen ht =>
    have hpre : k <+: k' ++ tail ↔ k = k' := by
      refine ⟨fun hp => ?_, fun he => he ▸ List.prefix_append _ _⟩
      exact (List.prefix_of_prefix_length_le hp (List.prefix_append _ _) (by omega)).eq_of_length
        (by omega)
    simpa [List.prefix_append_right_inj, eq_comm] using hpre
  | _ => simp [str, FilterArgs.line]

/-- After the text of another line that starts with the name of an interface comes a blank or
a byte of a longer name. -/
theorem Stored.ipAddress_sep {name : Str} {c : Char} {r : Str} (hname : IsToken name)
    (h : Stored key (str "ip address " ++ name ++ c :: r)) : ' ' ≤ c := by
  generalize hline : str "ip address " ++ name ++ c :: r = line at h
  cases h with
  | ipAddress name' tail hname' hsp ht =>
    simp only [List.append_assoc, List.append_cancel_left_eq] at hline
    -- the byte stands in the other name, or it is the first one after it
    rcases List.append_eq_append_iff.mp hline with ⟨m, hm, hcr⟩ | ⟨m, hm, hcr⟩
    · cases m with
      | nil =>
        rcases ht with rfl | ⟨r', rfl⟩
        · simp at hcr
        · simp only [List.nil_append, List.cons.injEq] at hcr
          exact hcr.1.ge
      | cons d m =>
        simp only [List.cons_append, List.cons.injEq] at hcr
        exact hsp c (by simp [hm, hcr.1])
    · rcases ht with rfl | ⟨r', rfl⟩
      · simp at hcr
      · cases m with
        | nil =>
          simp only [List.nil_append, List.cons.injEq] at hcr
          exact hcr.1.le
        | cons d m =>
          simp only [List.cons_append, List.cons.injEq] at hcr
          have := hname.2 d (by simp [hm])
          simp [← hcr.1, isspace_blank] at this
  | _ => simp [str, FilterArgs.line] at hline

theorem Stored.ipAddress_hasKey {name : Str} (hname : IsToken name) (h : Stored key line) :
    HasKey ' ' (str "ip address " ++ name) line ↔ key = .ipAddress name := by
  have hsp : ∀ {w : Str}, IsToken w → ' ' ∉ w := fun hw hmem => by
    have := hw.2 ' ' hmem
    simp [isspace_blank] at this
  cases h with
  | ipAddress name' tail hname' _ ht =>
    constructor
    · intro hk
      have htail : ∃ t, name' ++ tail = name ++ t ∧ IsTail t := by
        rcases hk with hk | ⟨r, hk⟩
        · exact ⟨[], by simpa using hk, .inl rfl⟩
        · exact ⟨' ' :: r, by simpa using hk, .inr ⟨r, rfl⟩⟩
      obtain ⟨t, heq, ht'⟩ := htail
      have hhead : ∀ {u : Str}, IsTail u → u = [] ∨ u.head? = some ' ' := fun hu => by
        rcases hu with rfl | ⟨r, rfl⟩ <;> simp
      rw [(append_boundary_inj (hsp hname') (hsp hname) (hhead ht) (hhead ht') heq).1]
    · rintro ⟨⟩
      rcases ht with rfl | ⟨r, rfl⟩
      · exact .inl (by simp)
      · exact .inr ⟨r, by simp⟩
  | _ =>
    refine ⟨fun hk => ?_, by simp⟩
    have hpre := hk.isPrefix
    simp [str, FilterArgs.line] at hpre

end Prefixes

/-! ## The invariant -/

/-- The list is sorted, its lines have the stored forms, and their keys are distinct. -/
structure Keyed (config : List Str) : Prop where
  sorted : config.Pairwise (· ≤ ·)
  stored : ∀ line ∈ config, Stored (configKey line) line
  keys : config.Pairwise (configKey · ≠ configKey ·)

theorem keyed_nil : Keyed [] := ⟨.nil, by simp, .nil⟩

theorem Keyed.sublist {config config' : List Str} (h : Keyed config) (hs : config'.Sublist config) :
    Keyed config' :=
  ⟨h.sorted.sublist hs, fun line hl => h.stored line (hs.subset hl), h.keys.sublist hs⟩

theorem Keyed.delLine {config : List Str} (h : Keyed config) (line : Str) :
    Keyed (configDelLine config line) := h.sublist List.eraseP_sublist

theorem Keyed.delLineByleft {config : List Str} (h : Keyed config) (line : Str) :
    Keyed (configDelLineByleft config line) := h.sublist List.eraseP_sublist

/-- Adding a line with a key that no other line has. -/
theorem Keyed.add {config : List Str} {key : Key} {line : Str} (h : Keyed config)
    (hs : Stored key line) (hk : ∀ x ∈ config, configKey x ≠ key) :
    Keyed (listnodeAddSort line config) where
  sorted := sorted_insertAfter h.sorted
  stored x hx := by
    rcases mem_insertAfter.mp hx with rfl | hx
    · rw [hs.configKey_eq]; exact hs
    · exact h.stored x hx
  keys := pairwise_insertAfter (fun _ _ hne => hne.symm) h.keys fun x hx => by
    rw [hs.configKey_eq]
    exact (hk x hx).symm

/-! ## What a deletion removes -/

section Removal
variable {config : List Str} {key : Key}

/-- A deletion by a text that only the lines with the key start with. -/
theorem Keyed.delLineByleft_removes (h : Keyed config) {line : Str}
    (hp : ∀ {k x}, Stored k x → (line <+: x ↔ k = key)) :
    ∀ x ∈ configDelLineByleft config line, configKey x ≠ key := by
  refine eraseP_removes_key h.keys (fun x hx hk => ?_) fun x hx _ => ?_
  · exact List.isPrefixOf_iff_prefix.mpr ((hp (h.stored x hx)).mpr hk)
  · have hm := List.mem_of_find?_eq_some hx
    exact (hp (h.stored x hm)).mp (List.isPrefixOf_iff_prefix.mp (by simpa using List.find?_some hx))

/-- A deletion by the text of an interface removes the line of that interface, although longer
names start with the same text: the list is sorted. -/
theorem Keyed.delLineByleft_ipAddress (h : Keyed config) {name : Str} (hname : IsToken name) :
    ∀ x ∈ configDelLineByleft config (str "ip address " ++ name),
      configKey x ≠ .ipAddress name := by
  have hkey : ∀ x ∈ config,
      (HasKey ' ' (str "ip address " ++ name) x ↔ configKey x = .ipAddress name) :=
    fun x hx => (h.stored x hx).ipAddress_hasKey hname
  refine eraseP_removes_key h.keys (fun x hx hk => ?_) fun x hx ⟨y, hy, hk⟩ => ?_
  · exact List.isPrefixOf_iff_prefix.mpr ((hkey x hx).mpr hk).isPrefix
  · refine (hkey x (List.mem_of_find?_eq_some hx)).mp ?_
    exact find?_hasKey h.sorted (fun c r hcr => (h.stored _ hcr).ipAddress_sep hname) hx
      ⟨y, hy, (hkey y hy).mpr hk⟩

/-- A deletion of a whole line removes that line. -/
theorem Keyed.delLine_removes (h : Keyed config) (line : Str) :
    ∀ x ∈ configDelLine config line, x ≠ line :=
  eraseP_removes_key (f := id) (h.keys.imp fun hab hEq => hab (congrArg configKey hEq))
    (fun _ _ hx => beq_iff_eq.mpr hx) fun _ hx _ => by simpa using List.find?_some hx

/-- The two deletions of `wg_link` leave no line of the link. -/
theorem Keyed.delLineByleft_link (h : Keyed config) :
    ∀ x ∈ configDelLineByleft (configDelLineByleft config (str "wg link-up"))
      (str "wg link-down"), configKey x ≠ .link := by
  have hdel : ∀ {l line}, Keyed l → (∀ {k x}, Stored k x → (line <+: x ↔ x = line)) →
      ∀ x ∈ configDelLineByleft l line, x ≠ line := fun {l line} hl hp x hx =>
    eraseP_removes_key (f := id) (hl.keys.imp fun hab hEq => hab (congrArg configKey hEq))
      (fun y hy hyl => List.isPrefixOf_iff_prefix.mpr ((hp (hl.stored y hy)).mpr hyl))
      (fun y hy _ => (hp (hl.stored y (List.mem_of_find?_eq_some hy))).mp
        (List.isPrefixOf_iff_prefix.mp (by simpa using List.find?_some hy))) x hx
  intro x hx hk
  have hx1 := List.eraseP_sublist.subset hx
  have hup := hdel h Stored.startsWith_linkUp x hx1
  have hdown := hdel (h.delLineByleft _) Stored.startsWith_linkDown x hx
  have hs := h.stored x (List.eraseP_sublist.subset hx1)
  rw [hk] at hs
  cases hs with
  | linkUp => exact hup rfl
  | linkDown => exact hdown rfl

theorem Stored.eq_of_line {text line : Str} (h : Stored (.line text) line) : line = text := by
  cases h <;> rfl

/-- A rule stored under its own text. -/
theorem Keyed.delLine_line (h : Keyed config) (line : Str) :
    ∀ x ∈ configDelLine config line, configKey x ≠ .line line := fun x hx hk =>
  h.delLine_removes line x hx <| by
    have hs := h.stored x (List.eraseP_sublist.subset hx)
    rw [hk] at hs
    exact hs.eq_of_line

/-- A filter rule at one of the two positions is another one or its twin. -/
theorem FilterArgs.eq_or_eq_twin {a b : FilterArgs}
    (ha : a.position = str "insert" ∨ a.position = str "append")
    (hb : b.position = str "insert" ∨ b.position = str "append")
    (h : b.toArgv.eraseIdx 3 = a.toArgv.eraseIdx 3) : b = a ∨ b = a.twin := by
  have hne : str "insert" ≠ str "append" := by decide
  cases a with | mk a1 a2 a3 apos a5 a6 a7 a8 a9 a10 a11 a12 a13 =>
  cases b with | mk b1 b2 b3 bpos b5 b6 b7 b8 b9 b10 b11 b12 b13 =>
  simp only [FilterArgs.toArgv, List.eraseIdx, List.cons.injEq, and_true] at h
  obtain ⟨rfl, rfl, rfl, rfl, rfl, rfl, rfl, rfl, rfl, rfl, rfl, rfl⟩ := h
  simp only at ha hb
  rcases ha with rfl | rfl <;> rcases hb with rfl | rfl <;> simp [FilterArgs.twin, hne]

theorem Keyed.delLine_filter (h : Keyed config) {a : FilterArgs}
    (hpos : a.position = str "insert" ∨ a.position = str "append") :
    ∀ x ∈ configDelLine (configDelLine config a.twin.line) a.line,
      configKey x ≠ .filter (a.toArgv.eraseIdx 3) := by
  intro x hx hk
  have hx1 : x ∈ configDelLine config a.twin.line := List.eraseP_sublist.subset hx
  have hne1 : x ≠ a.twin.line := h.delLine_removes _ x hx1
  have hne2 : x ≠ a.line := (h.delLine _).delLine_removes _ x hx
  have hs := h.stored x (List.eraseP_sublist.subset hx1)
  rw [hk] at hs
  generalize hargs : a.toArgv.eraseIdx 3 = args at hs
  cases hs with
  | filter b hb hbpos =>
    rcases FilterArgs.eq_or_eq_twin hpos hbpos hargs.symm with rfl | rfl
    · exact hne2 rfl
    · exact hne1 rfl

end Removal

/-! ## The edits of the handlers -/

/-- The printed form of a tail is a tail. -/
theorem IsTail.printed {tail out : Str} (ht : IsTail tail) (h : vasprintf tail [] = some out) :
    IsTail out := by
  rcases ht with rfl | ⟨r, rfl⟩
  · exact .inl (Option.some.inj h).symm
  · rw [vasprintf_cons (by decide)] at h
    obtain ⟨o, -, rfl⟩ := Option.map_eq_some_iff.mp h
    exact .inr ⟨o, rfl⟩

theorem IsTail.take {tail : Str} (ht : IsTail tail) (n : Nat) : IsTail (tail.take n) := by
  rcases ht with rfl | ⟨r, rfl⟩
  · exact .inl (by simp)
  · cases n with
    | zero => exact .inl rfl
    | succ n => exact .inr ⟨r.take n, rfl⟩

/-- A line added under a key that no other line has. -/
theorem Keyed.addLine {config config' : List Str} {key : Key} {line : Str} {args : List Str}
    (h : Keyed config) (hadd : configAddLine config line args = some config')
    (hs : ∀ info, vasprintf line args = some info → Stored key info)
    (hk : ∀ x ∈ config, configKey x ≠ key) : Keyed config' := by
  obtain ⟨info, hinfo, rfl | ⟨-, rfl⟩⟩ := configAddLine_eq_some hadd
  · exact h.add (hs info hinfo) hk
  · exact h

/-- A line whose text is printed as it is. -/
theorem Keyed.addPlain {config config' : List Str} {key : Key} {line : Str} (h : Keyed config)
    (hadd : configAddLine config line [] = some config') (hplain : '%' ∉ line)
    (hs : Stored key line) (hk : ∀ x ∈ config, configKey x ≠ key) : Keyed config' :=
  h.addLine hadd (fun info hinfo => by
    rw [vasprintf_of_not_mem hplain] at hinfo
    exact Option.some.inj hinfo ▸ hs) hk

/-- The arguments whose text names the line a later command removes, and which are printed
through the format of `config_add_line`. -/
def keyArgs : CmdFunc → List Str → List Str
  | .ipAddress, argv => argv.take 1
  | .ipRoute, argv => argv
  | .sfirewallNatPortmap, argv => argv
  | .sfirewallFilterRules, argv => argv
  | .wgPeerPublicKey, argv => argv.take 1
  | .wgPeerAllowedIps, argv => argv.take 1
  | .wgPeerEndpoint, argv => argv.take 1
  | .wgPeerPersistentKeepalive, argv => argv.take 1
  | _, _ => []

section EditsKeyed
variable {config config' : List Str}

theorem Keyed.ruleEdits {line : Str} (h : Keyed config) (hplain : '%' ∉ line)
    (hs : Stored (.line line) line) (hrun : runEdits config (ruleEdits line) = some config') :
    Keyed config' :=
  (h.delLine line).addPlain ((runEdits_add_last _ _ _).symm.trans hrun) hplain hs
    (h.delLine_line line)

theorem snprintf_append {size : Nat} {p : Str} (h : p.length ≤ size - 1) (s : Str) :
    snprintf size (p ++ s) = p ++ s.take (size - 1 - p.length) := by
  rw [snprintf, List.take_append, List.take_of_length_le h]

/-- What `bridge_add` prints of the number and of the interfaces. -/
theorem printed_bridge {n : Int} {eth1 eth2 info : Str} (hn : 1 ≤ n ∧ n ≤ 9)
    (h : vasprintf (snprintf 1024 (str "bridge " ++ itoa n ++ str " " ++ eth1 ++ str " " ++ eth2))
      [] = some info) : ∃ out, IsTail out ∧ info = str "bridge " ++ itoa n ++ out := by
  obtain ⟨d, hd, hitoa⟩ := itoa_bridge hn
  have hplain : '%' ∉ str "bridge " ++ itoa n := by
    have hne : d ≠ '%' := by rintro rfl; revert hd; decide
    simp [hitoa, str, hne.symm]
  rw [List.append_assoc _ _ eth2, List.append_assoc _ eth1, List.append_assoc _ (str " "),
    snprintf_append (by simp [hitoa, str]), vasprintf_append hplain] at h
  obtain ⟨out, hout, rfl⟩ := Option.map_eq_some_iff.mp h
  exact ⟨out, IsTail.printed (IsTail.take (.inr ⟨_, rfl⟩) _) hout, rfl⟩

theorem snprintf_bridge {n : Int} (hn : 1 ≤ n ∧ n ≤ 9) :
    snprintf 1024 (str "bridge " ++ itoa n) = str "bridge " ++ itoa n := by
  obtain ⟨d, -, hitoa⟩ := itoa_bridge hn
  exact List.take_of_length_le (by simp [hitoa, str])

theorem Keyed.bridgeAdd_edits {arg eth1 eth2 : Str} (h : Keyed config)
    (hn : 1 ≤ atoi arg ∧ atoi arg ≤ 9)
    (hrun : runEdits config (edits .bridgeAdd [arg, eth1, eth2]) = some config') :
    Keyed config' := by
  simp only [edits, runEdits_delLeft, runEdits_add_last, snprintf_bridge hn] at hrun
  refine (h.delLineByleft _).addLine hrun (fun info hinfo => ?_)
    (h.delLineByleft_removes fun hs => hs.bridge_prefix hn)
  obtain ⟨out, hout, rfl⟩ := printed_bridge hn hinfo
  rw [List.append_assoc]
  exact .bridge _ out hn hout

theorem snprintf_peer {key : Str} (hlen : key.length = publickeyMaxLen) :
    snprintf 2048 (str "wg peer " ++ key) = str "wg peer " ++ key :=
  List.take_of_length_le (by simp [hlen, str, publickeyMaxLen])

theorem Keyed.peerEdits {key tail : Str} (h : Keyed config) (hkey : IsToken key)
    (hlen : key.length = publickeyMaxLen) (hplain : '%' ∉ key) (ht : IsTail tail)
    (hrun : runEdits config (peerEdits key tail) = some config') : Keyed config' := by
  simp only [Vtysh.peerEdits, runEdits_delLeft, runEdits_add_last, snprintf_peer hlen] at hrun
  refine (h.delLineByleft _).addLine hrun (fun info hinfo => ?_)
    (h.delLineByleft_removes fun hs => hs.peer_prefix hlen)
  rw [snprintf_append (by simp [hlen, str, publickeyMaxLen]), vasprintf_append (by simpa [str] using hplain)]
    at hinfo
  obtain ⟨out, hout, rfl⟩ := Option.map_eq_some_iff.mp hinfo
  rw [List.append_assoc]
  exact .peer key out hkey hlen (IsTail.printed (ht.take _) hout)

theorem publicKey_length {key : Str} (h : (checkPublicKey key).passes = true) :
    key.length = publickeyMaxLen := by
  unfold checkPublicKey at h
  split at h
  · next hok => simpa [publicKeyOk] using (Bool.and_eq_true_iff.mp hok).1
  · simp [PeerCheck.passes] at h

/-- What follows the key in a line of a peer. -/
theorem isTail_keyword {keyword rest : Str} (h : ∃ r, keyword = ' ' :: r) :
    IsTail (keyword ++ rest) := by
  obtain ⟨r, rfl⟩ := h
  exact .inr ⟨r ++ rest, rfl⟩

theorem FilterArgs.toArgv_of_ofArgv {argv : List Str} {a : FilterArgs}
    (h : FilterArgs.ofArgv argv = some a) : argv = a.toArgv := by
  unfold FilterArgs.ofArgv at h
  split at h
  · cases h; rfl
  · simp at h

theorem not_mem_itoa (n : Int) : '%' ∉ itoa n := not_mem_itoa_of (by decide) (by decide) n

/-- The edits of a handler keep the invariant, as long as no percent sign is in the arguments
that a later deletion looks for and no control character in the name of an interface. -/
theorem edits_keyed {func : CmdFunc} {argv : List Str} (h : Keyed config)
    (hacc : accepts func argv = true) (hwords : ∀ w ∈ argv, IsToken w)
    (hnames : func = .ipAddress → ∀ w ∈ argv.take 1, ∀ c ∈ w, ' ' ≤ c)
    (hplain : ∀ w ∈ keyArgs func argv, '%' ∉ w)
    (hrun : runEdits config (edits func argv) = some config') : Keyed config' := by
  fun_cases edits func argv
  case case1 => exact h.ruleEdits (by decide) .bridgeDisable hrun
  case case3 arg eth1 eth2 =>
    have hn : 1 ≤ atoi arg ∧ atoi arg ≤ 9 := by
      simp only [accepts, Bool.and_eq_true, decide_eq_true_eq] at hacc
      exact hacc.1.1
    exact h.bridgeAdd_edits hn hrun
  case case5 name =>
    simp only [edits, runEdits_delLeft, runEdits_add_last] at hrun
    refine (h.delLineByleft _).addLine hrun
      (fun info hinfo => ?_) (h.delLineByleft_removes Stored.hostname_prefix)
    have hname : info = str "hostname " ++ name := by
      rw [show str "hostname %s" = str "hostname " ++ str "%s" by decide,
        vasprintf_append (by decide)] at hinfo
      simpa [vasprintf, str, eq_comm] using hinfo
    exact hname ▸ .hostname name (hwords name (by simp))
  case case7 name addr mask =>
    simp only [edits, runEdits_delLeft, runEdits_add_last] at hrun
    have hname := And.intro (hwords name (by simp)) (hnames rfl name (by simp))
    have hnplain : '%' ∉ str "ip address " ++ name := by
      simpa [str] using hplain name (by simp [keyArgs])
    refine (h.delLineByleft _).addLine hrun
      (fun info hinfo => ?_) (h.delLineByleft_ipAddress hname.1)
    rw [List.append_assoc _ _ mask, List.append_assoc _ addr, List.append_assoc _ (str " "),
      vasprintf_append hnplain] at hinfo
    obtain ⟨out, hout, rfl⟩ := Option.map_eq_some_iff.mp hinfo
    rw [List.append_assoc]
    exact .ipAddress name out hname.1 hname.2 (IsTail.printed (.inr ⟨_, rfl⟩) hout)
  case case9 name =>
    simp only [edits, runEdits_delLeft, runEdits_add_last] at hrun
    have hname := hwords name (by simp)
    obtain rfl : name = str "wan" := by simpa [accepts] using hacc
    refine (h.delLineByleft _).addPlain hrun (by decide) ?_
      (h.delLineByleft_ipAddress hname)
    rw [List.append_assoc]
    exact .ipAddress _ _ hname (List.all_iff_forall_prop.mp (by decide)) (.inr ⟨_, rfl⟩)
  case case10 dest mask gateway name =>
    have hall : ∀ w ∈ [dest, mask, gateway, name], '%' ∉ w := hplain
    refine h.ruleEdits (by simpa [str] using hall) ?_ hrun
    simp only [List.append_assoc]
    exact .ipRoute _
  case case12 first second =>
    simp only [edits, runEdits_delLeft, runEdits_add_last] at hrun
    refine (h.delLineByleft _).addLine hrun
      (fun info hinfo => ?_) (h.delLineByleft_removes Stored.nameserver_prefix)
    have hinfo' : info = str "nameserver " ++ (first ++ ' ' :: second) := by
      rw [show str "nameserver %s %s" = str "nameserver " ++ str "%s %s" by decide,
        vasprintf_append (by decide)] at hinfo
      simpa [vasprintf, str, eq_comm] using hinfo
    rw [hinfo']
    refine .nameserver _ ?_
    rw [words_append_sep (hwords first (by simp)) isspace_blank]
    simp
  case case14 =>
    have hline : '%' ∉ portmapLine argv := by
      intro hm
      rcases List.mem_append.mp hm with hm | hm
      · revert hm; decide
      · rcases mem_unwords hm with hm | ⟨w, hw, hm⟩
        · revert hm; decide
        · exact hplain w hw hm
    exact h.ruleEdits hline (.portmap _) hrun
  case case16 a ha =>
    obtain rfl := FilterArgs.toArgv_of_ofArgv ha
    have hchecks : a.checks.all ArgCheck.passes = true := by simpa [accepts, ha] using hacc
    have hpos := FilterArgs.position_of_checks hchecks
    have hline : '%' ∉ a.line := by
      intro hm
      rcases List.mem_append.mp hm with hm | hm
      · revert hm; decide
      · rcases mem_unwords hm with hm | ⟨w, hw, hm⟩
        · revert hm; decide
        · exact hplain w hw hm
    simp only [edits, ha, ruleEdits, runEdits_del, runEdits_add_last] at hrun
    exact ((h.delLine _).delLine _).addPlain hrun hline
      (.filter a hwords hpos) (h.delLine_filter hpos)
  case case20 port =>
    have hcut : ∀ s : Str, s.length ≤ 30 → snprintf 1024 s = s := fun s hs =>
      List.take_of_length_le (by omega)
    have hlen : (str "wg listenport " ++ itoa (atoi port)).length ≤ 30 := by
      have := length_itoa_le (atoi_range port).1 (atoi_range port).2
      simp only [str, List.length_append, List.length_cons, List.length_nil]
      omega
    simp only [edits, hcut _ hlen, hcut (str "wg listenport") (by decide), runEdits_delLeft,
      runEdits_add_last] at hrun
    refine (h.delLineByleft _).addPlain hrun ?_
      (.listenport _) (h.delLineByleft_removes Stored.listenport_prefix)
    simpa [str] using not_mem_itoa (atoi port)
  case case21 key =>
    have hk : key.length = publickeyMaxLen := publicKey_length (by simpa [accepts] using hacc)
    exact h.peerEdits (hwords key (by simp)) hk (hplain key (by simp [keyArgs])) (.inl rfl) hrun
  case case22 key allowedIps =>
    have hk : key.length = publickeyMaxLen :=
      publicKey_length (by simp [accepts] at hacc; exact hacc.1)
    exact h.peerEdits (hwords key (by simp)) hk (hplain key (by simp [keyArgs]))
      (isTail_keyword ⟨_, rfl⟩) hrun
  case case23 key allowedIps endpoint =>
    have hk : key.length = publickeyMaxLen :=
      publicKey_length (by simp [accepts] at hacc; exact hacc.1)
    refine h.peerEdits (hwords key (by simp)) hk (hplain key (by simp [keyArgs])) ?_ hrun
    simp only [List.append_assoc]
    exact isTail_keyword ⟨_, rfl⟩
  case case24 key allowedIps endpoint keepalive =>
    have hk : key.length = publickeyMaxLen :=
      publicKey_length (by simp [accepts] at hacc; exact hacc.1)
    refine h.peerEdits (hwords key (by simp)) hk (hplain key (by simp [keyArgs])) ?_ hrun
    simp only [List.append_assoc]
    exact isTail_keyword ⟨_, rfl⟩
  case case26 arg =>
    simp only [edits, runEdits_delLeft, runEdits_add_last] at hrun
    have hkeys : ∀ x ∈ configDelLineByleft (configDelLineByleft config (str "wg link-up"))
        (str "wg link-down"), configKey x ≠ .link := h.delLineByleft_link
    split at hrun
    · exact ((h.delLineByleft _).delLineByleft _).addPlain hrun (by decide) .linkUp hkeys
    · exact ((h.delLineByleft _).delLineByleft _).addPlain hrun (by decide) .linkDown hkeys
  -- the other handlers only remove lines, or make no edits
  all_goals
    simp only [edits, *, runEdits_del, runEdits_delLeft, runEdits_nil, Option.some.injEq] at hrun
    subst hrun
    first | exact h | exact h.delLine _ | exact h.delLineByleft _

end EditsKeyed

end QrWireguard.Vtysh
