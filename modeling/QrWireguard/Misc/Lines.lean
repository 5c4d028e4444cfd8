import QrWireguard.Misc.Split

/-!
# Texts read line by line

What a reader of lines makes of a text, and of a text that is put together of pieces which may
have line breaks inside.
-/

namespace QrWireguard

variable {α : Type}

/-- What is read of a text, when each line yields a list or is an error. -/
def readText (read : Str → Option (List α)) (text : Str) : Option (List α) :=
  ((split ['\n'] text).mapM read).map List.flatten

variable {read : Str → Option (List α)}

theorem readText_of_not_mem {line : Str} (h : '\n' ∉ line) : readText read line = read line := by
  rw [readText, split_of_not_infix (by rwa [List.singleton_infix_iff]), List.mapM_cons,
    List.mapM_nil]
  cases read line with
  | none => rfl
  | some x => exact congrArg some (List.append_nil x)

theorem readText_append_newline (a b : Str) : readText read (a ++ '\n' :: b) =
    (readText read a).bind fun x => (readText read b).map (x ++ ·) := by
  rw [readText, readText, readText, split_append_split, List.mapM_append]
  cases (split ['\n'] a).mapM read with
  | none => rfl
  | some x =>
    cases (split ['\n'] b).mapM read with
    | none => rfl
    | some y => exact congrArg some List.flatten_append

theorem readText_append_newline_eq_some {a b : Str} {z : List α} :
    readText read (a ++ '\n' :: b) = some z ↔
      ∃ x y, readText read a = some x ∧ readText read b = some y ∧ x ++ y = z := by
  rw [readText_append_newline, Option.bind_eq_some_iff]
  constructor
  · intro h
    obtain ⟨x, hx, hmap⟩ := h
    obtain ⟨y, hy, hxy⟩ := Option.map_eq_some_iff.mp hmap
    exact ⟨x, y, hx, hy, hxy⟩
  · intro h
    obtain ⟨x, y, hx, hy, hxy⟩ := h
    exact ⟨x, hx, Option.map_eq_some_iff.mpr ⟨y, hy, hxy⟩⟩

/-- A text is read as nothing when each of its lines is. -/
theorem readText_eq_nil_iff {text : Str} :
    readText read text = some [] ↔ ∀ line ∈ split ['\n'] text, read line = some [] := by
  unfold readText
  induction split ['\n'] text with
  | nil => simp [pure]
  | cons line lines ih =>
    rw [List.mapM_cons, List.forall_mem_cons, ← ih]
    cases read line with
    | none => simp
    | some x =>
      cases lines.mapM read with
      | none => simp
      | some y => simp

variable {pieces : List (Str × List α)}

theorem length_le_of_readText (hlong : ∀ p ∈ pieces, ∀ x, readText read p.1 = some x →
      p.2.length ≤ x.length) {z : List α}
    (h : readText read (unlines (pieces.map Prod.fst)) = some z) :
    (pieces.flatMap Prod.snd).length ≤ z.length := by
  induction pieces generalizing z with
  | nil => exact Nat.zero_le _
  | cons p pieces ih =>
    rw [List.map_cons, unlines_cons] at h
    obtain ⟨x, y, hx, hy, rfl⟩ := readText_append_newline_eq_some.mp h
    have hfirst := hlong p List.mem_cons_self x hx
    have hrest := ih (fun q hq => hlong q (List.mem_cons_of_mem _ hq)) hy
    rw [List.flatMap_cons, List.length_append, List.length_append]
    exact Nat.add_le_add hfirst hrest

/-- Where no piece can yield less than what is meant by it, a text is read as what all of its
pieces mean just when each piece is. -/
theorem readText_pieces (hnil : read [] = some [])
    (hlong : ∀ p ∈ pieces, ∀ x, readText read p.1 = some x → p.2.length ≤ x.length) :
    readText read (unlines (pieces.map Prod.fst)) = some (pieces.flatMap Prod.snd) ↔
      ∀ p ∈ pieces, readText read p.1 = some p.2 := by
  induction pieces with
  | nil =>
    rw [List.map_nil, unlines_nil, readText_of_not_mem List.not_mem_nil, hnil]
    simp
  | cons p pieces ih =>
    have hlong' : ∀ q ∈ pieces, ∀ x, readText read q.1 = some x → q.2.length ≤ x.length :=
      fun q hq => hlong q (List.mem_cons_of_mem _ hq)
    rw [List.map_cons, unlines_cons, readText_append_newline_eq_some, List.forall_mem_cons,
      ← ih hlong', List.flatMap_cons]
    constructor
    · intro h
      obtain ⟨x, y, hx, hy, hxy⟩ := h
      have hfirst := hlong p List.mem_cons_self x hx
      have hrest := length_le_of_readText hlong' hy
      have hlength := congrArg List.length hxy
      rw [List.length_append, List.length_append] at hlength
      obtain ⟨rfl, rfl⟩ := List.append_inj hxy (by omega)
      exact ⟨hx, hy⟩
    · intro h
      exact ⟨_, _, h.1, h.2, rfl⟩

end QrWireguard
