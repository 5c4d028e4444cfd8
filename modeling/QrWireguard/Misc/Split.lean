import Mathlib.Data.List.Basic
import Mathlib.Data.List.Infix
import QrWireguard.Misc.CString
import QrWireguard.Misc.Words

/-!
# Splitting at a separator

The pieces of a text between the occurrences of a separator, from left to right and without
overlaps.
-/

namespace QrWireguard

/-- The pieces of the rest of a text. `piece` is the piece being read, and `skip` counts the
characters of an occurrence of the separator that are still to be passed over. -/
def splitLoop (sep : Str) (skip : Nat) (piece : Str) : Str → List Str
  | [] => [piece]
  | c :: cs =>
    if 0 < skip then splitLoop sep (skip - 1) piece cs
    else if sep <+: c :: cs then piece :: splitLoop sep (sep.length - 1) [] cs
    else splitLoop sep 0 (piece ++ [c]) cs

/-- `strings.Split (s, sep)` for a separator that is not empty. -/
def split (sep : Str) (s : Str) : List Str := splitLoop sep 0 [] s

variable {sep s piece : Str}

theorem splitLoop_ne_nil (sep : Str) (skip : Nat) (piece s : Str) :
    splitLoop sep skip piece s ≠ [] := by
  induction s generalizing skip piece with
  | nil => simp [splitLoop]
  | cons c cs ih =>
    unfold splitLoop
    by_cases hskip : 0 < skip
    · rw [if_pos hskip]
      exact ih (skip - 1) piece
    · rw [if_neg hskip]
      by_cases hp : sep <+: c :: cs
      · rw [if_pos hp]
        exact List.cons_ne_nil _ _
      · rw [if_neg hp]
        exact ih 0 (piece ++ [c])

theorem split_ne_nil (sep s : Str) : split sep s ≠ [] := splitLoop_ne_nil sep 0 [] s

/-- A text without the separator is one piece. -/
theorem splitLoop_of_not_infix (h : ¬ sep <:+: s) : splitLoop sep 0 piece s = [piece ++ s] := by
  induction s generalizing piece with
  | nil => simp [splitLoop]
  | cons c cs ih =>
    have hhead : ¬ sep <+: c :: cs := fun hp => h hp.isInfix
    have htail : ¬ sep <:+: cs := fun hi => h (hi.trans (List.suffix_cons c cs).isInfix)
    rw [splitLoop, if_neg (lt_irrefl 0), if_neg hhead, ih htail]
    simp

theorem split_of_not_infix (h : ¬ sep <:+: s) : split sep s = [s] :=
  splitLoop_of_not_infix h

theorem splitLoop_skip (sep piece s t : Str) :
    splitLoop sep s.length piece (s ++ t) = splitLoop sep 0 piece t := by
  induction s with
  | nil => rfl
  | cons c cs ih =>
    rw [List.cons_append, splitLoop, if_pos (by simp)]
    simpa using ih

/-- The first piece ends at the first occurrence of the separator. -/
theorem splitLoop_append (hsep : sep ≠ []) {a : Str}
    (h : ∀ b c, a = b ++ c → c ≠ [] → ¬ sep <+: c ++ sep) (rest : Str) :
    splitLoop sep 0 piece (a ++ sep ++ rest) = (piece ++ a) :: split sep rest := by
  induction a generalizing piece with
  | nil =>
    obtain ⟨c, cs, rfl⟩ := List.exists_cons_of_ne_nil hsep
    rw [List.nil_append, List.cons_append, splitLoop, if_neg (lt_irrefl 0),
      if_pos ⟨rest, by simp⟩]
    have hskip := splitLoop_skip (c :: cs) [] cs rest
    simpa [split] using hskip
  | cons x xs ih =>
    have hhead : ¬ sep <+: x :: xs ++ sep ++ rest := by
      intro hp
      refine h [] (x :: xs) rfl (by simp) ?_
      have hlen : sep.length ≤ (x :: xs ++ sep).length := by
        rw [List.length_append]
        omega
      exact List.prefix_of_prefix_length_le hp (List.prefix_append _ rest) hlen
    have htail : ∀ b c, xs = b ++ c → c ≠ [] → ¬ sep <+: c ++ sep := fun b c hxs =>
      h (x :: b) c (by rw [hxs, List.cons_append])
    have hih := @ih (piece ++ [x]) htail
    rw [List.cons_append, List.cons_append] at hhead ⊢
    rw [splitLoop, if_neg (lt_irrefl 0), if_neg hhead, hih]
    simp

theorem split_append (hsep : sep ≠ []) {a : Str}
    (h : ∀ b c, a = b ++ c → c ≠ [] → ¬ sep <+: c ++ sep) (rest : Str) :
    split sep (a ++ sep ++ rest) = a :: split sep rest :=
  splitLoop_append hsep h rest

/-- A text that ends just before a separator of one character. -/
theorem split_append_char {c : Char} {a : Str} (h : c ∉ a) (rest : Str) :
    split [c] (a ++ c :: rest) = a :: split [c] rest := by
  have hfirst : ∀ b d, a = b ++ d → d ≠ [] → ¬ [c] <+: d ++ [c] := by
    rintro b d rfl hd ⟨t, ht⟩
    obtain ⟨x, xs, rfl⟩ := List.exists_cons_of_ne_nil hd
    obtain rfl : c = x := (List.cons.inj ht).1
    exact h (by simp)
  simpa using split_append (by simp) hfirst rest

/-- The first piece ends in front of the first separator. -/
theorem head?_split_char (c : Char) (s : Str) :
    (split [c] s)[0]? = some (s.takeWhile (· != c)) := by
  by_cases h : c ∈ s
  · obtain ⟨a, rest, rfl, ha⟩ := List.eq_append_cons_of_mem h
    rw [split_append_char ha, List.takeWhile_append_of_pos (bne_of_not_mem ha),
      List.takeWhile_cons_of_neg (by simp), List.append_nil]
    rfl
  · rw [ split_of_not_infix (by rwa [List.singleton_infix_iff])]
    exact congrArg some (List.takeWhile_eq_self_iff.mpr (bne_of_not_mem h)).symm

/-- A text with the separator has a first occurrence of it. -/
theorem exists_first_of_infix (hsep : sep ≠ []) (h : sep <:+: s) :
    ∃ a rest, s = a ++ sep ++ rest ∧ ∀ b c, a = b ++ c → c ≠ [] → ¬ sep <+: c ++ sep := by
  induction s with
  | nil =>
    rw [List.infix_nil] at h
    exact absurd h hsep
  | cons x xs ih =>
    by_cases hp : sep <+: x :: xs
    · obtain ⟨rest, hrest⟩ := hp
      refine ⟨[], rest, hrest.symm, ?_⟩
      intro b c hnil hc
      exact absurd (List.append_eq_nil_iff.mp hnil.symm).2 hc
    · have htail : sep <:+: xs := (List.infix_cons_iff.mp h).resolve_left hp
      obtain ⟨a, rest, hxs, hfirst⟩ := ih htail
      refine ⟨x :: a, rest, by rw [hxs]; rfl, ?_⟩
      intro b c hsplit hc hpre
      cases b with
      | nil =>
        apply hp
        rw [List.nil_append] at hsplit
        have hfront : x :: a ++ sep <+: x :: xs := ⟨rest, by rw [hxs]; rfl⟩
        exact (hsplit ▸ hpre).trans hfront
      | cons y ys =>
        obtain ⟨-, hrest⟩ := List.cons.inj hsplit
        exact hfirst ys c hrest hc hpre

theorem not_infix_of_first (hsep : sep ≠ []) {a : Str}
    (h : ∀ b c, a = b ++ c → c ≠ [] → ¬ sep <+: c ++ sep) : ¬ sep <:+: a := by
  rintro ⟨b, c, rfl⟩
  refine h b (sep ++ c) (List.append_assoc ..) ?_ ?_
  · intro hnil
    exact hsep (List.append_eq_nil_iff.mp hnil).1
  · exact ⟨c ++ sep, (List.append_assoc ..).symm⟩

/-- A text is one piece, or its first piece stands before the first separator. -/
theorem split_cases (hsep : sep ≠ []) (s : Str) :
    (¬ sep <:+: s ∧ split sep s = [s]) ∨
      ∃ a rest, s = a ++ sep ++ rest ∧ ¬ sep <:+: a ∧ split sep s = a :: split sep rest := by
  by_cases h : sep <:+: s
  · obtain ⟨a, rest, rfl, hfirst⟩ := exists_first_of_infix hsep h
    exact .inr ⟨a, rest, rfl, not_infix_of_first hsep hfirst, split_append hsep hfirst rest⟩
  · exact .inl ⟨h, split_of_not_infix h⟩

/-- The pieces of two texts with a separator of one character between them. -/
theorem split_append_split (c : Char) (a b : Str) :
    split [c] (a ++ c :: b) = split [c] a ++ split [c] b := by
  induction hlen : a.length using Nat.strong_induction_on generalizing a with
  | _ n ih =>
    rcases split_cases (List.cons_ne_nil c []) a with ⟨ha, hone⟩ | ⟨w, rest, rfl, hw, hsplit⟩
    · rw [List.singleton_infix_iff] at ha
      rw [hone, split_append_char ha]
      rfl
    · have hshort : rest.length < n := by
        rw [← hlen, List.length_append, List.length_append, List.length_singleton]
        omega
      rw [List.singleton_infix_iff] at hw
      rw [hsplit, List.append_assoc, List.append_assoc, List.singleton_append, split_append_char hw,
        ih _ hshort rest rfl, List.cons_append]

/-- No piece has the separator in it. -/
theorem not_infix_of_mem_split (hsep : sep ≠ []) {w : Str} (h : w ∈ split sep s) :
    ¬ sep <:+: w := by
  induction hlen : s.length using Nat.strong_induction_on generalizing s with
  | _ n ih =>
    rcases split_cases hsep s with ⟨hs, hone⟩ | ⟨a, rest, hs, ha, hsplit⟩
    · rw [hone, List.mem_singleton] at h
      rwa [h]
    · rw [hsplit] at h
      rcases List.mem_cons.mp h with rfl | hrest
      · exact ha
      · have hshort : rest.length < n := by
          have hpos := List.length_pos_of_ne_nil hsep
          rw [← hlen, hs, List.length_append, List.length_append]
          omega
        exact ih _ hshort hrest rfl

theorem not_mem_of_mem_split {c : Char} {w : Str} (h : w ∈ split [c] s) : c ∉ w := by
  rw [← List.singleton_infix_iff]
  exact not_infix_of_mem_split (List.cons_ne_nil _ _) h

/-- There is a second piece just when the separator occurs. -/
theorem split_one_isSome (hsep : sep ≠ []) (s : Str) :
    (split sep s)[1]?.isSome = true ↔ sep <:+: s := by
  rcases split_cases hsep s with ⟨hs, hone⟩ | ⟨a, rest, hs, -, hsplit⟩
  · simp [hone, hs]
  · obtain ⟨w, ws, hws⟩ := List.exists_cons_of_ne_nil (split_ne_nil sep rest)
    have hoccurs : sep <:+: s := ⟨a, rest, hs.symm⟩
    simp [hsplit, hws, hoccurs]

/-- A text of lines, each with its line break. -/
def unlines (lines : List Str) : Str := lines.flatMap (· ++ ['\n'])

@[simp] theorem unlines_nil : unlines [] = [] := rfl

@[simp] theorem unlines_cons (line : Str) (lines : List Str) :
    unlines (line :: lines) = line ++ '\n' :: unlines lines := by
  simp [unlines]

theorem unlines_append (lines lines' : List Str) :
    unlines (lines ++ lines') = unlines lines ++ unlines lines' := List.flatMap_append

/-- Lines without a line break inside can be told from their text. -/
theorem unlines_inj {lines lines' : List Str} (hlines : ∀ line ∈ lines, '\n' ∉ line)
    (hlines' : ∀ line ∈ lines', '\n' ∉ line) (h : unlines lines = unlines lines') :
    lines = lines' := by
  induction lines generalizing lines' with
  | nil =>
    cases lines' with
    | nil => rfl
    | cons line' lines' => simp at h
  | cons line lines ih =>
    cases lines' with
    | nil => simp at h
    | cons line' lines' =>
      rw [unlines_cons, unlines_cons] at h
      obtain ⟨rfl, htail⟩ := append_boundary_inj (hlines line List.mem_cons_self)
        (hlines' line' List.mem_cons_self) (.inr rfl) (.inr rfl) h
      rw [ih (fun l hl => hlines l (List.mem_cons_of_mem _ hl))
        (fun l hl => hlines' l (List.mem_cons_of_mem _ hl)) (List.cons.inj htail).2]

theorem split_unlines {lines : List Str} (h : ∀ line ∈ lines, '\n' ∉ line) (rest : Str) :
    split ['\n'] (unlines lines ++ rest) = lines ++ split ['\n'] rest := by
  induction lines with
  | nil => rfl
  | cons line lines ih =>
    have hline : '\n' ∉ line := h line List.mem_cons_self
    have hlines := ih fun l hl => h l (List.mem_cons_of_mem _ hl)
    rw [unlines_cons, List.append_assoc, List.cons_append, split_append_char hline, hlines]
    rfl

/-- The text with the given pieces. -/
def unsplit (sep : Str) : List Str → Str
  | [] => []
  | w :: ws => w ++ ws.flatMap (sep ++ ·)

theorem unsplit_cons {w : Str} {ws : List Str} (h : ws ≠ []) :
    unsplit sep (w :: ws) = w ++ sep ++ unsplit sep ws := by
  obtain ⟨v, vs, rfl⟩ := List.exists_cons_of_ne_nil h
  simp [unsplit]

/-- The pieces of a text with one character between its parts are the pieces of the parts. -/
theorem split_unsplit (c : Char) {ws : List Str} (h : ws ≠ []) :
    split [c] (unsplit [c] ws) = ws.flatMap (split [c]) := by
  induction ws with
  | nil => exact absurd rfl h
  | cons w ws ih =>
    cases ws with
    | nil => simp [unsplit]
    | cons v vs =>
      have hne : v :: vs ≠ [] := List.cons_ne_nil _ _
      rw [unsplit_cons hne, List.append_assoc, List.singleton_append, split_append_split, ih hne]
      rfl

/-- Parts without the character are read back. -/
theorem split_unsplit_of_not_mem {c : Char} {ws : List Str} (hne : ws ≠ [])
    (h : ∀ w ∈ ws, c ∉ w) : split [c] (unsplit [c] ws) = ws := by
  rw [split_unsplit c hne]
  have hone : ∀ w ∈ ws, split [c] w = [w] := by
    intro w hw
    apply split_of_not_infix
    rw [List.singleton_infix_iff]
    exact h w hw
  rw [List.flatMap_congr hone, List.flatMap_singleton']

/-- A text in which a part has the separator has more pieces than parts. -/
theorem length_lt_split_unsplit {c : Char} {ws : List Str} (h : ∃ w ∈ ws, c ∈ w) :
    ws.length < (split [c] (unsplit [c] ws)).length := by
  have hsep : [c] ≠ [] := List.cons_ne_nil _ _
  have hpos : ∀ w : Str, 0 < (split [c] w).length := fun w =>
    List.length_pos_of_ne_nil (split_ne_nil _ _)
  have hle : ∀ vs : List Str, vs.length ≤ (vs.flatMap (split [c])).length := by
    intro vs
    induction vs with
    | nil => exact Nat.le_refl 0
    | cons v vs ih =>
      have hv := hpos v
      rw [List.flatMap_cons, List.length_append, List.length_cons]
      omega
  obtain ⟨w, hw, hc⟩ := h
  rw [split_unsplit c (List.ne_nil_of_mem hw)]
  obtain ⟨before, after, rfl⟩ := List.append_of_mem hw
  have hlong : 2 ≤ (split [c] w).length := by
    have hsecond := (split_one_isSome hsep w).mpr (by rwa [List.singleton_infix_iff])
    obtain ⟨second, hsecond⟩ := Option.isSome_iff_exists.mp hsecond
    exact (List.getElem?_eq_some_iff.mp hsecond).1
  have hbefore := hle before
  have hafter := hle after
  rw [List.flatMap_append, List.flatMap_cons, List.length_append, List.length_append,
    List.length_append, List.length_cons]
  omega

/-- The characters of the text are those of its pieces and of the separator. -/
theorem mem_unsplit {c : Char} {ws : List Str} (h : c ∈ unsplit sep ws) :
    c ∈ sep ∨ ∃ w ∈ ws, c ∈ w := by
  cases ws with
  | nil => cases h
  | cons w ws =>
    rw [unsplit, List.mem_append, List.mem_flatMap] at h
    rcases h with hw | ⟨v, hv, hmem⟩
    · exact .inr ⟨w, List.mem_cons_self, hw⟩
    · rcases List.mem_append.mp hmem with hsep | hv'
      · exact .inl hsep
      · exact .inr ⟨v, List.mem_cons_of_mem _ hv, hv'⟩

theorem mem_unsplit_of_mem {c : Char} {w : Str} {ws : List Str} (hw : w ∈ ws) (hc : c ∈ w) :
    c ∈ unsplit sep ws := by
  cases ws with
  | nil => cases hw
  | cons v vs =>
    rw [unsplit, List.mem_append, List.mem_flatMap]
    rcases List.mem_cons.mp hw with rfl | hrest
    · exact .inl hc
    · exact .inr ⟨w, hrest, List.mem_append_right _ hc⟩

theorem unsplit_splitLoop (hsep : sep ≠ []) {skip : Nat} (hskip : skip ≤ s.length) :
    unsplit sep (splitLoop sep skip piece s) = piece ++ s.drop skip := by
  induction s generalizing skip piece with
  | nil => simp [splitLoop, unsplit]
  | cons c cs ih =>
    unfold splitLoop
    by_cases hpos : 0 < skip
    · obtain ⟨k, rfl⟩ := Nat.exists_eq_add_of_lt hpos
      rw [if_pos hpos, ih (by simp at hskip; omega)]
      simp
    · rw [if_neg hpos, Nat.eq_zero_of_not_pos hpos]
      by_cases hp : sep <+: c :: cs
      · obtain ⟨rest, hrest⟩ := hp
        obtain ⟨x, xs, rfl⟩ := List.exists_cons_of_ne_nil hsep
        obtain ⟨rfl, rfl⟩ := List.cons.inj hrest
        rw [if_pos ⟨rest, rfl⟩, unsplit_cons (splitLoop_ne_nil _ _ _ _), ih (by simp)]
        simp
      · rw [if_neg hp, ih (Nat.zero_le _)]
        simp

theorem unsplit_split (hsep : sep ≠ []) (s : Str) : unsplit sep (split sep s) = s :=
  unsplit_splitLoop hsep (Nat.zero_le _)

/-- The characters of a piece are characters of the text. -/
theorem mem_of_mem_piece (hsep : sep ≠ []) {c : Char} {w : Str} (hw : w ∈ split sep s)
    (hc : c ∈ w) : c ∈ s := by
  rw [← unsplit_split hsep s]
  exact mem_unsplit_of_mem hw hc

/-- Every character stands in a piece or in the separator. -/
theorem mem_of_mem_split (hsep : sep ≠ []) {c : Char} (h : c ∈ s) :
    c ∈ sep ∨ ∃ w ∈ split sep s, c ∈ w := by
  rw [← unsplit_split hsep s] at h
  exact mem_unsplit h

end QrWireguard
