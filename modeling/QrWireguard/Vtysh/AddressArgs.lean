import QrWireguard.Vtysh.Ipv4
import QrWireguard.Vtysh.Slots

/-!
# Addresses as arguments

The words that the handlers get at the `A.B.C.D` positions of their templates. Both matchers
hand on a word that starts with a dot, and the lenient one hands on incomplete addresses.
-/

namespace QrWireguard.Vtysh

variable {F : Type}

/-! ## Arguments and positions -/

/-- Does the word at this position become an argument? -/
def bindsArg : List Str → Bool
  | [s] => cmdVararg s || cmdVariable s || cmdOption s
  | _ => true

/-- The positions of a template whose words become arguments, in the order of the arguments. -/
def argPositions (strvec : List (List Str)) : List (List Str) := strvec.filter bindsArg

/-- Every argument at an `A.B.C.D` position is a complete address. -/
def AddressArgs (e : CmdElement F) (argv : List Str) : Prop :=
  ∀ (i : Nat) (descvec : List Str) (word : Str), (argPositions e.strvec)[i]? = some descvec →
    str "A.B.C.D" ∈ descvec → argv[i]? = some word → IsQuad word

section
variable {strvec : List (List Str)} {vline argv : List Str} {descvec : List Str}

theorem bindsArg_address (h : str "A.B.C.D" ∈ descvec) : bindsArg descvec = true := by
  unfold bindsArg
  split
  · next s =>
    rw [List.mem_singleton] at h
    subst h
    decide
  · rfl

theorem bindArgs_cons (hvararg : ∀ s ∈ descvec, cmdVararg s = false) (acc : List Str) (word : Str) :
    bindArgs (descvec :: strvec) false acc (word :: vline) =
      let next := if bindsArg descvec then acc ++ [word] else acc
      if cmdArgcMax ≤ next.length then some (.error cmdErrExeedArgcMax)
      else bindArgs strvec false next vline := by
  match descvec, hvararg with
  | [s], hvararg =>
    have hs : cmdVararg s = false := hvararg s (List.mem_singleton_self s)
    cases hbinds : bindsArg [s] with
    | true =>
      have hcond : (cmdVararg s || cmdVariable s || cmdOption s) = true := hbinds
      simp only [bindArgs, hcond, Bool.false_eq_true, if_false, if_true]
      rw [hs]
    | false =>
      have hcond : (cmdVararg s || cmdVariable s || cmdOption s) = false := hbinds
      simp only [bindArgs, hcond, Bool.false_eq_true, if_false]
  | [], _ => rfl
  | _ :: _ :: _, _ => rfl

/-- Without variable arguments, the arguments are the words at those positions. -/
theorem bindArgs_eq (hvararg : ∀ descvec ∈ strvec, ∀ s ∈ descvec, cmdVararg s = false)
    {acc : List Str} (h : bindArgs strvec false acc vline = some (.ok argv)) :
    argv = acc ++ ((strvec.zip vline).filter fun p => bindsArg p.1).map Prod.snd := by
  induction vline generalizing strvec acc with
  | nil =>
    rw [bindArgs, Option.some.injEq, Except.ok.injEq] at h
    simp [h]
  | cons word vline ih =>
    cases strvec with
    | nil => cases h
    | cons descvec strvec =>
      rw [bindArgs_cons (hvararg descvec List.mem_cons_self)] at h
      dsimp only at h
      by_cases hfull : cmdArgcMax ≤ (if bindsArg descvec then acc ++ [word] else acc).length
      · rw [if_pos hfull] at h
        cases h
      · rw [if_neg hfull] at h
        rw [ih (fun d hd => hvararg d (List.mem_cons_of_mem _ hd)) h, List.zip_cons_cons,
          List.filter_cons]
        split <;> simp

theorem zip_argPositions (strvec : List (List Str)) (vline : List Str) :
    (argPositions strvec).zip (((strvec.zip vline).filter fun p => bindsArg p.1).map Prod.snd) =
      (strvec.zip vline).filter fun p => bindsArg p.1 := by
  induction strvec generalizing vline with
  | nil => rfl
  | cons descvec strvec ih =>
    cases vline with
    | nil => simp
    | cons word vline =>
      by_cases hbinds : bindsArg descvec = true
      · simpa [argPositions, hbinds] using ih vline
      · simpa [argPositions, hbinds] using ih vline

/-- The addresses among the arguments are the words at the `A.B.C.D` positions. -/
theorem addressArgs_iff {e : CmdElement F}
    (hvararg : ∀ descvec ∈ e.strvec, ∀ s ∈ descvec, cmdVararg s = false)
    (h : bindArgs e.strvec false [] vline = some (.ok argv)) :
    AddressArgs e argv ↔
      ∀ p ∈ e.strvec.zip vline, str "A.B.C.D" ∈ p.1 → IsQuad p.2 := by
  have hargv := bindArgs_eq hvararg h
  rw [List.nil_append] at hargv
  have hzip := zip_argPositions e.strvec vline
  rw [← hargv] at hzip
  constructor
  · rintro hall p hp haddress
    have hmem : p ∈ (argPositions e.strvec).zip argv := by
      rw [hzip]
      exact List.mem_filter.mpr ⟨hp, bindsArg_address haddress⟩
    obtain ⟨i, hi⟩ := List.mem_iff_getElem?.mp hmem
    obtain ⟨hdesc, hword⟩ := List.getElem?_zip_eq_some.mp hi
    exact hall i p.1 p.2 hdesc haddress hword
  · intro hall i descvec word hdesc haddress hword
    have hmem : (descvec, word) ∈ (argPositions e.strvec).zip argv :=
      List.mem_iff_getElem?.mpr ⟨i, List.getElem?_zip_eq_some.mpr ⟨hdesc, hword⟩⟩
    rw [hzip] at hmem
    exact hall _ (List.mem_of_mem_filter hmem) haddress

end

/-! ## What the matchers let through -/

section
variable {filter : Filter} {word : Str} {index j : Nat} {vararg : Bool} {e : CmdElement F}
  {vline : List Str} {v v' : List (Option (CmdElement F))}

theorem cmdVararg_of_descMatch {s : Str} (h : descMatch filter word s = some .varargMatch) :
    cmdVararg s = true := by
  by_contra hno
  rw [descMatch.eq_def, if_neg hno] at h
  revert h
  have hite : ∀ {c : Prop} [Decidable c] {a b : Option MatchType}, a ≠ some .varargMatch →
      b ≠ some .varargMatch → (if c then a else b) ≠ some .varargMatch := by
    intro c _ a b ha hb
    split <;> assumption
  -- no other branch gives this match type
  refine hite (hite nofun nofun) (hite (hite nofun nofun) (hite nofun (hite (hite nofun nofun)
    (hite (hite nofun nofun) (hite nofun ?_)))))
  cases filter with
  | byCompletion => exact hite (hite nofun nofun) nofun
  | byString => exact hite nofun nofun

/-- Without variable arguments no word ends the loop over the words. -/
theorem bestMatch_ne_varargMatch
    (hvararg : ∀ x ∈ v.reduceOption, ∀ descvec ∈ x.strvec, ∀ s ∈ descvec, cmdVararg s = false) :
    bestMatch filter word index v ≠ .varargMatch := by
  intro hbest
  have hmem : bestMatch filter word index v ∈ matchTypes filter word index v :=
    bestMatch_mem (by rw [hbest]; decide)
  rw [hbest] at hmem
  obtain ⟨x, hx, s, hs, hm⟩ := mem_matchTypes.mp hmem
  rw [CmdElement.alternatives, List.getD_eq_getElem?_getD] at hs
  cases hpos : x.strvec[index]? with
  | none => simp [hpos] at hs
  | some descvec =>
    rw [hpos] at hs
    have hno := hvararg x (List.reduceOption_mem_iff.mpr hx) descvec
      (List.mem_of_getElem? hpos) s hs
    rw [cmdVararg_of_descMatch hm] at hno
    cases hno

/-- Without variable arguments all words are read, and what is left takes each of them. -/
theorem filterWords_takes
    (hvararg : ∀ x ∈ v.reduceOption, ∀ descvec ∈ x.strvec, ∀ s ∈ descvec, cmdVararg s = false)
    (h : filterWords filter index v vline = .ok (v', j, vararg)) (he : e ∈ v'.reduceOption)
    (i : Nat) (hi : vline[i]? = some word) : e.takes filter word (index + i) = true := by
  induction vline generalizing index v i with
  | nil => simp at hi
  | cons head vline ih =>
    have hbest : bestMatch filter head index v ≠ .varargMatch := bestMatch_ne_varargMatch hvararg
    rw [filterWords_cons, if_neg hbest] at h
    split at h
    · cases h
    · next left hleft =>
      have hmem : ∀ x ∈ left.reduceOption, x ∈ v.reduceOption ∧ x.takes filter head index = true := by
        intro x hx
        rw [reduceOption_left hleft, mem_leftOf] at hx
        exact ⟨hx.1, hx.2.2⟩
      cases i with
      | zero =>
        obtain rfl : head = word := by simpa using hi
        exact (hmem e (List.reduceOption_mem_iff.mpr
          (mem_filterWords h (List.reduceOption_mem_iff.mp he)))).2
      | succ i =>
        have hrest := ih (fun x hx => hvararg x (hmem x hx).1) h i (by simpa using hi)
        rwa [Nat.add_assoc, Nat.add_comm 1 i] at hrest

end

/-- The templates of all nodes: no variable arguments, and a position that takes an address takes
nothing else. -/
theorem addressTemplates (node : Node) : ∀ e ∈ cmdNodeVector node, ∀ descvec ∈ e.strvec,
    (∀ s ∈ descvec, cmdVararg s = false) ∧
      (str "A.B.C.D" ∈ descvec → descvec = [str "A.B.C.D"]) := by
  cases node <;> decide +kernel

theorem descMatch_address (filter : Filter) (word : Str) :
    descMatch filter word (str "A.B.C.D") =
      if filter.takes (cmdIpv4Match word) then some .ipv4Match else none := by
  rw [descMatch.eq_def, if_neg (by decide), if_neg (by decide), if_neg (by decide),
    if_neg (by decide), if_pos rfl]

/-- A word that is taken for an address is one exactly when it does not start with a dot and is
not taken for the beginning of one. -/
theorem isQuad_iff_of_takes {filter : Filter} {word : Str}
    (h : filter.takes (cmdIpv4Match word) = true) :
    IsQuad word ↔ word.head? ≠ some '.' ∧
      (filter = .byCompletion → cmdIpv4Match word ≠ .partlyMatch) := by
  constructor
  · intro hquad
    have hhead := isQuad_ne_dot hquad
    have hexact := (cmdIpv4Match_of_ne_dot (isQuad_iff.mp hquad).ne_nil hhead).1.mpr hquad
    refine ⟨hhead, fun _ => ?_⟩
    rw [hexact]
    decide
  · rintro ⟨hhead, hpartly⟩
    have hexact : cmdIpv4Match word = .exactMatch := by
      cases filter with
      | byString => simpa [Filter.takes] using h
      | byCompletion =>
        have hno : cmdIpv4Match word ≠ .noMatch := by simpa [Filter.takes] using h
        exact ((cmdIpv4Match_range word).resolve_left hno).resolve_left (hpartly rfl)
    have hne : word ≠ [] := by
      rintro rfl
      rw [cmdIpv4Match_nil] at hexact
      cases hexact
    exact (cmdIpv4Match_of_ne_dot hne hhead).1.mp hexact

/-- The address arguments of a handler are complete exactly when no word at such a position
starts with a dot and, for the lenient matcher, none is taken for the beginning of an address. -/
theorem addressArgs_complete {filter : Filter} {node : Node} {vline argv : List Str}
    {e : CmdElement CmdFunc} (h : cmdLookup filter (cmdNodeVector node) vline = .run e argv) :
    AddressArgs e argv ↔ ∀ p ∈ e.strvec.zip vline, str "A.B.C.D" ∈ p.1 →
      p.2.head? ≠ some '.' ∧ (filter = .byCompletion → cmdIpv4Match p.2 ≠ .partlyMatch) := by
  have htemplates := addressTemplates node
  obtain ⟨left, index, vararg, hleft, honly⟩ := cmdLookup_left h
  have he : e ∈ left.reduceOption := (mem_of_filter_eq_singleton honly).1
  have hvararg : ∀ x ∈ ((cmdNodeVector node).map some).reduceOption, ∀ descvec ∈ x.strvec,
      ∀ s ∈ descvec, cmdVararg s = false := by
    intro x hx descvec hdesc
    exact (htemplates x (by simpa [List.reduceOption_mem_iff] using hx) descvec hdesc).1
  have helem := htemplates e (cmdLookup_mem h)
  rw [addressArgs_iff (fun descvec hdesc => (helem descvec hdesc).1) (cmdLookup_run h)]
  refine forall₂_congr fun p hp => forall_congr' fun haddress => isQuad_iff_of_takes ?_
  obtain ⟨i, hi⟩ := List.mem_iff_getElem?.mp hp
  obtain ⟨hdesc, hword⟩ := List.getElem?_zip_eq_some.mp hi
  have htakes := filterWords_takes hvararg hleft he i hword
  rw [Nat.zero_add, CmdElement.takes, CmdElement.alternatives, List.getD_eq_getElem?_getD, hdesc,
    Option.getD_some, (helem p.1 (List.mem_of_getElem? hdesc)).2 haddress] at htakes
  simpa [descMatch_address] using htakes

/-- Complete addresses for both servers. -/
theorem addressArgs_complete_nameserver :
    AddressArgs (F := CmdFunc) ⟨str "nameserver A.B.C.D A.B.C.D", .configDns,
        [[str "nameserver"], [str "A.B.C.D"], [str "A.B.C.D"]], 3⟩ [str "8.8.8.8", str "1.1.1.1"] :=
  have hrun : cmdLookup .byCompletion (cmdNodeVector .config)
      [str "nameserver", str "8.8.8.8", str "1.1.1.1"] =
        .run ⟨str "nameserver A.B.C.D A.B.C.D", .configDns,
          [[str "nameserver"], [str "A.B.C.D"], [str "A.B.C.D"]], 3⟩
          [str "8.8.8.8", str "1.1.1.1"] := by
    decide +kernel
  (addressArgs_complete hrun).mpr (by decide +kernel)

/-- The lenient matcher hands the beginnings `1.2` and `3` of addresses to the handler. -/
theorem not_addressArgs_nameserver : ¬ ∀ (filter : Filter) (node : Node) (vline argv : List Str)
    (e : CmdElement CmdFunc), cmdLookup filter (cmdNodeVector node) vline = .run e argv →
    AddressArgs e argv := by
  intro h
  have haddress := h .byCompletion .config [str "nameserver", str "1.2", str "3"]
    [str "1.2", str "3"] ⟨str "nameserver A.B.C.D A.B.C.D", .configDns,
      [[str "nameserver"], [str "A.B.C.D"], [str "A.B.C.D"]], 3⟩ (by decide +kernel)
  have hquad : IsQuad (str "1.2") := haddress 0 [str "A.B.C.D"] _ (by decide) (by decide) rfl
  have hexact := (cmdIpv4Match_of_ne_dot (by decide) (by decide)).1.mpr hquad
  revert hexact
  decide

end QrWireguard.Vtysh
