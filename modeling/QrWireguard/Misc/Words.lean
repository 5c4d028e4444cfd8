import Mathlib.Data.List.Basic
import Mathlib.Data.List.Infix
import Mathlib.Data.List.TakeWhile

/-!
# Words

Splitting a list at separators and joining it again. `words p s` are the maximal runs of
elements of `s` that are not separators for `p`; `unwords sep ws` writes a separator between
the words. Joining undoes splitting as soon as the words are what a split can yield.
-/

namespace QrWireguard

variable {α : Type}

/-- Put an element in front of the first word. -/
def consHead (c : α) : List (List α) → List (List α)
  | [] => [[c]]
  | w :: ws => (c :: w) :: ws

/-- The maximal runs of `s` that hold no separator: an element in front of another that is
not a separator joins the first word of the rest. -/
def words (p : α → Bool) : List α → List (List α)
  | [] => []
  | c :: cs =>
    if p c then words p cs
    else if cs.head?.all p then [c] :: words p cs
    else consHead c (words p cs)

/-- The words with one separator between neighbours. -/
def unwords (sep : α) : List (List α) → List α
  | [] => []
  | [w] => w
  | w :: v :: ws => w ++ sep :: unwords sep (v :: ws)

/-- What a split yields: a word that is not empty and holds no separator. -/
def IsWord (p : α → Bool) (w : List α) : Prop := w ≠ [] ∧ ∀ c ∈ w, p c = false

instance [DecidableEq α] (p : α → Bool) (w : List α) : Decidable (IsWord p w) :=
  inferInstanceAs (Decidable (_ ∧ _))

theorem IsWord.not_mem {p : α → Bool} {w : List α} (h : IsWord p w) {c : α} (hc : p c = true) :
    c ∉ w := by
  intro hmem
  rw [h.2 c hmem] at hc
  cases hc

/-- A word for some separators is one for fewer of them. -/
theorem IsWord.of_imp {p q : α → Bool} {w : List α} (h : IsWord p w)
    (himp : ∀ c, q c = true → p c = true) : IsWord q w := by
  refine ⟨h.1, fun c hc => ?_⟩
  rw [Bool.eq_false_iff]
  intro hsep
  exact h.not_mem (himp c hsep) hc

/-- What `unwords` writes after the first word. -/
def tailWords (sep : α) (ws : List (List α)) : List α := ws.flatMap (sep :: ·)

section Words
variable {p : α → Bool}

@[simp] theorem words_nil : words p [] = [] := rfl

theorem words_cons_sep {c : α} (hc : p c = true) (s : List α) :
    words p (c :: s) = words p s := by
  simp [words, hc]

/-- A word in front of nothing or of a separator is the first word. -/
theorem words_append {w s : List α} (hw : IsWord p w) (hs : s.head?.all p = true) :
    words p (w ++ s) = w :: words p s := by
  obtain ⟨hne, hall⟩ := hw
  induction w with
  | nil => exact absurd rfl hne
  | cons c w ih =>
    have hc : p c = false := hall c (by simp)
    cases w with
    | nil => simp [words, hc, hs]
    | cons d w =>
      have hd : p d = false := hall d (by simp)
      have h := ih (by simp) (fun x hx => hall x (by simp [hx]))
      rw [List.cons_append, words, h]
      simp [hc, hd, consHead]

/-- A word and a separator in front are split off. -/
theorem words_append_sep {w : List α} {sep : α} (hw : IsWord p w) (hsep : p sep = true)
    (s : List α) : words p (w ++ sep :: s) = w :: words p s := by
  rw [words_append hw (by simp [hsep]), words_cons_sep hsep]

theorem words_self {w : List α} (hw : IsWord p w) : words p w = [w] := by
  have h := words_append (s := []) hw (by simp)
  simpa using h

/-- A separator at the end does not matter. -/
theorem words_concat_sep {sep : α} (hsep : p sep = true) (s : List α) :
    words p (s ++ [sep]) = words p s := by
  induction s with
  | nil => simp [words, hsep]
  | cons c s ih =>
    have hhead : (s ++ [sep]).head?.all p = s.head?.all p := by cases s <;> simp [hsep]
    rw [List.cons_append, words, words, ih, hhead]

private theorem mem_consHead {c : α} {ws : List (List α)} {w : List α}
    (h : w ∈ consHead c ws) : w = [c] ∨ (∃ v ∈ ws, w = c :: v) ∨ w ∈ ws := by
  cases ws with
  | nil => simp_all [consHead]
  | cons v ws =>
    simp only [consHead, List.mem_cons] at h
    rcases h with rfl | h
    · exact .inr (.inl ⟨v, by simp, rfl⟩)
    · exact .inr (.inr (by simp [h]))

/-- Every piece of a split is a word made of elements of the list. -/
theorem isWord_of_mem_words {s w : List α} (h : w ∈ words p s) :
    IsWord p w ∧ ∀ c ∈ w, c ∈ s := by
  induction s generalizing w with
  | nil => simp at h
  | cons c s ih =>
    -- what the words of `s` satisfy they satisfy in `c :: s`
    have lift : ∀ v ∈ words p s, IsWord p v ∧ ∀ d ∈ v, d ∈ c :: s := fun v hv =>
      ⟨(ih hv).1, fun d hd => List.mem_cons_of_mem _ ((ih hv).2 d hd)⟩
    unfold words at h
    split at h
    · exact lift w h
    · next hc =>
      have hc : p c = false := by simpa using hc
      have hone : IsWord p [c] ∧ ∀ d ∈ [c], d ∈ c :: s := by simp [IsWord, hc]
      split at h
      · rcases List.mem_cons.mp h with rfl | h
        · exact hone
        · exact lift w h
      · rcases mem_consHead h with rfl | ⟨v, hv, rfl⟩ | h
        · exact hone
        · obtain ⟨⟨-, h1⟩, h2⟩ := lift v hv
          exact ⟨⟨by simp, by simpa [hc] using h1⟩, by simpa using h2⟩
        · exact lift w h

theorem words_eq_nil_iff {s : List α} : words p s = [] ↔ ∀ c ∈ s, p c = true := by
  induction s with
  | nil => simp
  | cons c s ih =>
    by_cases hc : p c = true
    · simp [words_cons_sep hc, ih, hc]
    · have hne : words p (c :: s) ≠ [] := by
        unfold words
        rw [if_neg hc]
        split
        · simp
        · cases words p s <;> simp [consHead]
      exact ⟨fun h => absurd h hne, fun h => absurd (h c (by simp)) hc⟩

/-- Splitting a text whose elements are renamed. -/
theorem words_map {β : Type} (f : β → α) (s : List β) :
    words p (s.map f) = (words (p ∘ f) s).map (List.map f) := by
  have hcons : ∀ (c : β) (ws : List (List β)),
      consHead (f c) (ws.map (List.map f)) = (consHead c ws).map (List.map f) := by
    intro c ws
    cases ws <;> rfl
  induction s with
  | nil => rfl
  | cons c s ih =>
    have hhead : (s.map f).head?.all p = s.head?.all (p ∘ f) := by cases s <;> rfl
    rw [List.map_cons, words, words, ih, hhead, hcons]
    simp only [Function.comp_apply]
    split
    · rfl
    · split
      · rfl
      · rfl

/-- Separators that agree on the elements of a list split it alike. -/
theorem words_congr {q : α → Bool} {s : List α} (h : ∀ c ∈ s, p c = q c) :
    words p s = words q s := by
  induction s with
  | nil => rfl
  | cons c s ih =>
    have hhead : s.head?.all p = s.head?.all q := by
      cases s with
      | nil => rfl
      | cons d s => exact h d (.tail _ (.head _))
    rw [words, words, h c List.mem_cons_self, hhead, ih fun d hd => h d (List.mem_cons_of_mem _ hd)]

/-- A separator between two lists parts their words. -/
theorem words_append_cons {sep : α} (hsep : p sep = true) (s t : List α) :
    words p (s ++ sep :: t) = words p s ++ words p t := by
  induction s with
  | nil => exact words_cons_sep hsep t
  | cons c s ih =>
    by_cases hc : p c = true
    · rw [List.cons_append, words_cons_sep hc, words_cons_sep hc, ih]
    · cases s with
      | nil =>
        have hword : IsWord p [c] := ⟨List.cons_ne_nil _ _, by simpa using hc⟩
        rw [List.singleton_append, words_self hword, ← List.singleton_append,
          words_append hword (by simp [hsep]), words_cons_sep hsep, List.singleton_append]
      | cons d s =>
        rw [List.cons_append, words, words, ih, if_neg hc, if_neg hc]
        by_cases hd : p d = true
        · simp [hd]
        · have hne : words p (d :: s) ≠ [] := by
            intro hnil
            exact hd (words_eq_nil_iff.mp hnil d List.mem_cons_self)
          obtain ⟨w, ws, hws⟩ := List.exists_cons_of_ne_nil hne
          simp [hd, hws, consHead]

theorem words_append_seps {s post : List α} (h : ∀ c ∈ post, p c = true) :
    words p (s ++ post) = words p s := by
  induction post generalizing s with
  | nil => rw [List.append_nil]
  | cons c post ih =>
    have hsplit : s ++ c :: post = (s ++ [c]) ++ post := by simp
    rw [hsplit, ih fun d hd => h d (List.mem_cons_of_mem _ hd),
      words_concat_sep (h c List.mem_cons_self)]

theorem words_seps_append {pre s : List α} (h : ∀ c ∈ pre, p c = true) :
    words p (pre ++ s) = words p s := by
  induction pre with
  | nil => rfl
  | cons c pre ih =>
    rw [List.cons_append, words_cons_sep (h c List.mem_cons_self),
      ih fun d hd => h d (List.mem_cons_of_mem _ hd)]

/-- One word is the list without the separators at its ends. -/
theorem words_eq_singleton_iff {s w : List α} : words p s = [w] ↔
    IsWord p w ∧ ∃ pre post, s = pre ++ w ++ post ∧ (∀ c ∈ pre, p c = true) ∧
      ∀ c ∈ post, p c = true := by
  constructor
  · intro h
    refine ⟨(isWord_of_mem_words (h ▸ List.mem_singleton_self w)).1, ?_⟩
    -- the separators in front, the word, and what follows it
    have hpre : ∀ c ∈ s.takeWhile p, p c = true := fun c hc => List.mem_takeWhile_imp hc
    have hrest : words p (s.dropWhile p) = [w] := by
      rw [← h]
      conv_rhs => rw [← List.takeWhile_append_dropWhile (p := p) (l := s)]
      exact (words_seps_append hpre).symm
    set t := s.dropWhile p with ht
    have hword : IsWord p (t.takeWhile (fun c => !p c)) := by
      refine ⟨?_, fun c hc => by simpa using List.mem_takeWhile_imp hc⟩
      intro hnil
      cases hc : t with
      | nil =>
        rw [hc] at hrest
        cases hrest
      | cons c cs =>
        have hfirst : p c = false := by
          have hd := List.head?_dropWhile_not p s
          rw [← ht, hc] at hd
          simpa using hd
        rw [hc, List.takeWhile_cons_of_pos (by simpa using hfirst)] at hnil
        cases hnil
    have hsep : (t.dropWhile fun c => !p c).head?.all p = true := by
      have hd := List.head?_dropWhile_not (fun c => !p c) t
      cases hh : (t.dropWhile fun c => !p c).head? with
      | none => rfl
      | some c =>
        rw [hh] at hd
        simpa using hd
    have hsplit := words_append hword hsep
    rw [List.takeWhile_append_dropWhile, hrest] at hsplit
    obtain ⟨rfl, hnil⟩ := List.cons.inj hsplit
    refine ⟨s.takeWhile p, t.dropWhile fun c => !p c, ?_, hpre, words_eq_nil_iff.mp hnil.symm⟩
    rw [List.append_assoc, List.takeWhile_append_dropWhile, ht, List.takeWhile_append_dropWhile]
  · rintro ⟨hw, pre, post, rfl, hpre, hpost⟩
    rw [words_append_seps hpost, words_seps_append hpre, words_self hw]

/-- The words of a list are what it holds besides separators. -/
theorem flatten_words (s : List α) : (words p s).flatten = s.filter fun c => !p c := by
  induction s with
  | nil => rfl
  | cons c s ih =>
    have hconsHead : ∀ ws : List (List α), (consHead c ws).flatten = c :: ws.flatten := by
      intro ws
      cases ws <;> rfl
    unfold words
    split
    · next hc => rw [ih, List.filter_cons_of_neg (by simp [hc])]
    · next hc =>
      rw [List.filter_cons_of_pos (by simp [hc]), ← ih]
      split
      · rfl
      · exact hconsHead _

end Words

section Unwords
variable {p : α → Bool} {sep : α}

@[simp] theorem unwords_nil : unwords sep [] = [] := rfl
@[simp] theorem unwords_singleton (w : List α) : unwords sep [w] = w := rfl

theorem unwords_cons (w : List α) (ws : List (List α)) :
    unwords sep (w :: ws) = w ++ tailWords sep ws := by
  induction ws generalizing w with
  | nil => simp [unwords, tailWords]
  | cons v ws ih => rw [unwords, ih]; simp [tailWords]

theorem tailWords_cons (w : List α) (ws : List (List α)) :
    tailWords sep (w :: ws) = sep :: w ++ tailWords sep ws := rfl

theorem tailWords_append (us vs : List (List α)) :
    tailWords sep (us ++ vs) = tailWords sep us ++ tailWords sep vs := by
  simp [tailWords]

theorem unwords_cons_append (w : List α) (us vs : List (List α)) :
    unwords sep (w :: us ++ vs) = unwords sep (w :: us) ++ tailWords sep vs := by
  rw [List.cons_append, unwords_cons, unwords_cons, tailWords_append, List.append_assoc]

theorem mem_tailWords {ws : List (List α)} {c : α} :
    c ∈ tailWords sep ws ↔ ∃ w ∈ ws, c = sep ∨ c ∈ w := by
  simp [tailWords]

theorem mem_unwords {ws : List (List α)} {c : α} (h : c ∈ unwords sep ws) :
    c = sep ∨ ∃ w ∈ ws, c ∈ w := by
  cases ws with
  | nil => simp at h
  | cons w ws =>
    rw [unwords_cons, List.mem_append, mem_tailWords] at h
    rcases h with h | ⟨v, hv, rfl | h⟩
    · exact .inr ⟨w, by simp, h⟩
    · exact .inl rfl
    · exact .inr ⟨v, by simp [hv], h⟩

theorem mem_unwords_of_mem {ws : List (List α)} {w : List α} {c : α} (hw : w ∈ ws) (hc : c ∈ w) :
    c ∈ unwords sep ws := by
  cases ws with
  | nil => simp at hw
  | cons v ws =>
    rw [unwords_cons, List.mem_append, mem_tailWords]
    rcases List.mem_cons.mp hw with rfl | hw
    · exact .inl hc
    · exact .inr ⟨w, hw, .inr hc⟩

theorem count_unwords [DecidableEq α] {c : α} (hc : c ≠ sep) (ws : List (List α)) :
    (unwords sep ws).count c = ws.flatten.count c := by
  have htail : ∀ ws : List (List α), (tailWords sep ws).count c = ws.flatten.count c := by
    intro ws
    induction ws with
    | nil => rfl
    | cons w ws ih =>
      rw [tailWords_cons, List.cons_append, List.count_cons_of_ne hc.symm, List.count_append, ih,
        List.flatten_cons, List.count_append]
  cases ws with
  | nil => rfl
  | cons w ws => rw [unwords_cons, List.count_append, htail, List.flatten_cons, List.count_append]

theorem head?_unwords {w : List α} (hw : w ≠ []) (ws : List (List α)) :
    (unwords sep (w :: ws)).head? = w.head? := by
  rw [unwords_cons, List.head?_append_of_ne_nil _ hw]

/-- Splitting undoes joining. -/
theorem words_unwords (hsep : p sep = true) {ws : List (List α)} (h : ∀ w ∈ ws, IsWord p w) :
    words p (unwords sep ws) = ws := by
  induction ws with
  | nil => rfl
  | cons w ws ih =>
    have hw := h w (by simp)
    have hws := ih fun v hv => h v (by simp [hv])
    cases ws with
    | nil => simpa using words_self hw
    | cons v ws =>
      rw [unwords, words_append hw (by simp [hsep]), words_cons_sep hsep, hws]

/-- Words with a separator behind them are split off. -/
theorem words_unwords_append (hsep : p sep = true) {ws : List (List α)} (hne : ws ≠ [])
    (h : ∀ w ∈ ws, IsWord p w) (s : List α) :
    words p (unwords sep ws ++ sep :: s) = ws ++ words p s := by
  induction ws with
  | nil => exact absurd rfl hne
  | cons w ws ih =>
    have hw := h w List.mem_cons_self
    cases ws with
    | nil => exact words_append_sep hw hsep s
    | cons v ws =>
      rw [unwords, List.append_assoc, List.cons_append, words_append_sep hw hsep,
        ih (List.cons_ne_nil _ _) fun u hu => h u (List.mem_cons_of_mem _ hu)]
      rfl

/-- The length of short words with one separator between neighbours. -/
theorem length_unwords_le {n : Nat} {ws : List (List α)} (h : ∀ w ∈ ws, w.length < n) :
    (unwords sep ws).length ≤ ws.length * n := by
  induction ws with
  | nil => exact Nat.zero_le _
  | cons w ws ih =>
    have hw := h w List.mem_cons_self
    cases ws with
    | nil =>
      rw [unwords_singleton, List.length_singleton, Nat.one_mul]
      exact hw.le
    | cons v ws =>
      have hws := ih fun u hu => h u (List.mem_cons_of_mem _ hu)
      have hsucc : (w :: v :: ws).length * n = (v :: ws).length * n + n := Nat.succ_mul _ _
      rw [unwords, List.length_append, List.length_cons, hsucc]
      omega

end Unwords

/-- A word is followed by the end or by a separator in at most one way. -/
theorem append_boundary_inj {sep : α} {u v s t : List α} (hu : sep ∉ u) (hv : sep ∉ v)
    (hs : s = [] ∨ s.head? = some sep) (ht : t = [] ∨ t.head? = some sep)
    (h : u ++ s = v ++ t) : u = v ∧ s = t := by
  induction u generalizing v with
  | nil =>
    cases v with
    | nil => simpa using h
    | cons c v =>
      rcases hs with rfl | hs
      · simp at h
      · simp only [List.nil_append] at h
        rw [h] at hs
        simp only [List.cons_append, List.head?_cons, Option.some.injEq] at hs
        simp [hs] at hv
  | cons c u ih =>
    cases v with
    | nil =>
      rcases ht with rfl | ht
      · simp at h
      · simp only [List.nil_append] at h
        rw [← h] at ht
        simp only [List.cons_append, List.head?_cons, Option.some.injEq] at ht
        simp [ht] at hu
    | cons d v =>
      simp only [List.cons_append, List.cons.injEq] at h
      obtain ⟨rfl, h⟩ := h
      obtain ⟨rfl, rfl⟩ := ih (by simp_all) (by simp_all) h
      exact ⟨rfl, rfl⟩

end QrWireguard
