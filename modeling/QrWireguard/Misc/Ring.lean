import Mathlib.Data.List.Infix
import Mathlib.Data.List.Nodup

/-!
# Rings of links

A doubly linked list as a ring: the nodes in their order, closed by a base that stands in front of
the first one and behind the last one. Two maps give the node that follows and the node in front.
A node is linked in or out by changing the links at one place.
-/

namespace QrWireguard

variable {ν : Type}

/-- Neighbours in the list are linked both ways. -/
def Linked (next prev : ν → ν) : List ν → Prop
  | x :: y :: rest => next x = y ∧ prev y = x ∧ Linked next prev (y :: rest)
  | _ => True

section
variable {next prev next' prev' : ν → ν} {x y : ν} {xs ys : List ν}

@[simp] theorem linked_singleton (next prev : ν → ν) (x : ν) : Linked next prev [x] := trivial

theorem linked_cons_cons : Linked next prev (x :: y :: ys) ↔
    next x = y ∧ prev y = x ∧ Linked next prev (y :: ys) := Iff.rfl

/-- A list is linked when its parts are, up to and from a node. -/
theorem linked_append_cons : Linked next prev (xs ++ x :: ys) ↔
    Linked next prev (xs ++ [x]) ∧ Linked next prev (x :: ys) := by
  induction xs with
  | nil => simp
  | cons z xs ih =>
    cases xs with
    | nil => simp [linked_cons_cons, and_assoc]
    | cons w xs =>
      simp only [List.cons_append, linked_cons_cons] at ih ⊢
      rw [ih, and_assoc, and_assoc]

/-- A list is linked when its two parts are, and the seam between them. -/
theorem linked_seam : Linked next prev (xs ++ x :: y :: ys) ↔
    Linked next prev (xs ++ [x]) ∧ next x = y ∧ prev y = x ∧ Linked next prev (y :: ys) := by
  rw [linked_append_cons, linked_cons_cons]

/-- The links out of the nodes before the last one and into the nodes behind the first one are all
that matters. -/
theorem Linked.congr {l : List ν} (h : Linked next prev l)
    (hnext : ∀ z ∈ l.dropLast, next' z = next z) (hprev : ∀ z ∈ l.tail, prev' z = prev z) :
    Linked next' prev' l := by
  induction l with
  | nil => trivial
  | cons x l ih =>
    cases l with
    | nil => trivial
    | cons y l =>
      obtain ⟨hx, hy, hrest⟩ := h
      refine ⟨?_, ?_, ih hrest ?_ ?_⟩
      · rw [hnext x (by simp), hx]
      · rw [hprev y (by simp), hy]
      · exact fun z hz => hnext z (List.mem_cons_of_mem _ hz)
      · exact fun z hz => hprev z (List.mem_cons_of_mem _ hz)

end

/-- The nodes `ns` are linked to a ring that is closed by `base`. -/
structure LinkRing (next prev : ν → ν) (base : ν) (ns : List ν) : Prop where
  nodup : (base :: ns).Nodup
  linked : Linked next prev (base :: ns ++ [base])

section
variable {next prev next' prev' : ν → ν} {base a : ν} {xs ys ns : List ν}

/-- The empty ring. -/
theorem ring_nil : LinkRing next prev base [] ↔ next base = base ∧ prev base = base := by
  constructor
  · rintro ⟨-, hnext, hprev, -⟩
    exact ⟨hnext, hprev⟩
  · rintro ⟨hnext, hprev⟩
    exact ⟨List.nodup_singleton base, hnext, hprev, trivial⟩

/-- The nodes at both sides of a place in the ring, and the ring without the place. -/
theorem exists_seam (base : ν) (xs ys : List ν) : ∃ front back,
    base :: xs = front ++ [xs.getLastD base] ∧ ys ++ [base] = ys.headD base :: back ∧
      ∀ mid, base :: (xs ++ mid ++ ys) ++ [base] =
        front ++ xs.getLastD base :: (mid ++ ys.headD base :: back) := by
  obtain ⟨front, hfront⟩ : ∃ front, base :: xs = front ++ [xs.getLastD base] := by
    refine ⟨(base :: xs).dropLast, ?_⟩
    rw [← List.dropLast_append_getLast (List.cons_ne_nil base xs)]
    simp [List.getLast_eq_getLastD]
  obtain ⟨back, hback⟩ : ∃ back, ys ++ [base] = ys.headD base :: back := by
    cases ys with
    | nil => exact ⟨[], rfl⟩
    | cons y ys => exact ⟨ys ++ [base], rfl⟩
  refine ⟨front, back, hfront, hback, fun mid => ?_⟩
  calc base :: (xs ++ mid ++ ys) ++ [base] = (base :: xs) ++ (mid ++ (ys ++ [base])) := by simp
    _ = front ++ xs.getLastD base :: (mid ++ ys.headD base :: back) := by
      rw [hfront, hback]
      simp

/-- The links at a place in the ring. -/
theorem LinkRing.seam (h : LinkRing next prev base (xs ++ ys)) :
    next (xs.getLastD base) = ys.headD base ∧ prev (ys.headD base) = xs.getLastD base := by
  obtain ⟨front, back, -, -, hring⟩ := exists_seam base xs ys
  have hlinked := h.linked
  rw [← List.append_nil xs, hring [], List.nil_append, linked_seam] at hlinked
  exact ⟨hlinked.2.1, hlinked.2.2.1⟩

/-- The links in front of a place and behind it are as they were after a change that leaves them. -/
theorem LinkRing.outside {front back mid : List ν} (h : LinkRing next prev base (xs ++ mid ++ ys))
    (hfront : base :: xs = front ++ [xs.getLastD base])
    (hback : ys ++ [base] = ys.headD base :: back)
    (hring : base :: (xs ++ mid ++ ys) ++ [base] =
      front ++ xs.getLastD base :: (mid ++ ys.headD base :: back))
    (hnext : ∀ z ∈ base :: (xs ++ ys), z ≠ xs.getLastD base → next' z = next z)
    (hprev : ∀ z ∈ base :: (xs ++ ys), z ≠ ys.headD base → prev' z = prev z) :
    Linked next' prev' (front ++ [xs.getLastD base]) ∧
      Linked next' prev' (ys.headD base :: back) := by
  have hlinked := h.linked
  rw [hring] at hlinked
  obtain ⟨hbefore, hrest⟩ := linked_append_cons.mp hlinked
  rw [← List.cons_append] at hrest
  obtain ⟨-, hbehind⟩ := linked_append_cons.mp hrest
  have hnodup : (base :: xs ++ ys).Nodup :=
    h.nodup.sublist (((List.sublist_append_left xs mid).append (List.Sublist.refl ys)).cons_cons base)
  obtain ⟨hxs, hys, hapart⟩ := List.nodup_append.mp hnodup
  have hfrontNodup : (front ++ [xs.getLastD base]).Nodup := hfront ▸ hxs
  constructor
  · refine hbefore.congr (fun z hz => ?_) fun z hz => ?_
    · rw [List.dropLast_concat] at hz
      have hmem : z ∈ base :: xs := hfront ▸ List.mem_append_left _ hz
      refine hnext z ?_ ?_
      · rw [← List.cons_append]
        exact List.mem_append_left _ hmem
      · rintro rfl
        exact (List.nodup_append.mp hfrontNodup).2.2 _ hz _ List.mem_cons_self rfl
    · rw [← hfront, List.tail_cons] at hz
      refine hprev z (List.mem_cons_of_mem _ (List.mem_append_left _ hz)) ?_
      rintro rfl
      cases ys with
      | nil => exact (List.nodup_cons.mp hxs).1 hz
      | cons y ys => exact hapart _ (List.mem_cons_of_mem _ hz) _ List.mem_cons_self rfl
  · refine hbehind.congr (fun z hz => ?_) fun z hz => ?_
    · rw [← hback, List.dropLast_concat] at hz
      refine hnext z (List.mem_cons_of_mem _ (List.mem_append_right _ hz)) ?_
      rintro rfl
      exact hapart _ (hfront ▸ List.mem_append_right _ List.mem_cons_self) _ hz rfl
    · rw [List.tail_cons] at hz
      cases ys with
      | nil =>
        obtain ⟨-, rfl⟩ := List.cons.inj hback
        cases hz
      | cons y ys =>
        obtain ⟨-, rfl⟩ := List.cons.inj hback
        refine hprev z ?_ ?_
        · rcases List.mem_append.mp hz with hz | hz
          · exact List.mem_cons_of_mem _ (List.mem_append_right _ (List.mem_cons_of_mem _ hz))
          · exact List.mem_singleton.mp hz ▸ List.mem_cons_self
        · rintro rfl
          rcases List.mem_append.mp hz with hz | hz
          · exact (List.nodup_cons.mp hys).1 hz
          · exact hapart base List.mem_cons_self _ List.mem_cons_self (List.mem_singleton.mp hz).symm

/-- A new node is linked in at a place. -/
theorem LinkRing.insert (h : LinkRing next prev base (xs ++ ys)) (hnew : a ∉ base :: (xs ++ ys))
    (hin : next' (xs.getLastD base) = a) (hout : next' a = ys.headD base)
    (hback : prev' (ys.headD base) = a) (hfront : prev' a = xs.getLastD base)
    (hnext : ∀ z ∈ base :: (xs ++ ys), z ≠ xs.getLastD base → next' z = next z)
    (hprev : ∀ z ∈ base :: (xs ++ ys), z ≠ ys.headD base → prev' z = prev z) :
    LinkRing next' prev' base (xs ++ a :: ys) := by
  obtain ⟨front, back, hf, hb, hring⟩ := exists_seam base xs ys
  have h' : LinkRing next prev base (xs ++ [] ++ ys) := by rwa [List.append_nil]
  obtain ⟨hbefore, hbehind⟩ := h'.outside hf hb (hring []) hnext hprev
  constructor
  · have hperm : (base :: (xs ++ a :: ys)).Perm (a :: base :: (xs ++ ys)) :=
      (List.perm_middle.cons base).trans (List.Perm.swap a base _)
    exact hperm.nodup_iff.mpr (List.nodup_cons.mpr ⟨hnew, h.nodup⟩)
  · have hmid := hring [a]
    rw [List.append_assoc, List.singleton_append, List.singleton_append] at hmid
    rw [hmid, linked_seam, linked_cons_cons]
    exact ⟨hbefore, hin, hfront, hout, hback, hbehind⟩

/-- The links of a node. -/
theorem LinkRing.node (h : LinkRing next prev base (xs ++ a :: ys)) :
    next (xs.getLastD base) = a ∧ prev a = xs.getLastD base ∧ next a = ys.headD base ∧
      prev (ys.headD base) = a := by
  obtain ⟨hin, hfront⟩ := h.seam
  rw [List.append_cons] at h
  obtain ⟨hout, hback⟩ := h.seam
  rw [List.getLastD_concat] at hout hback
  exact ⟨hin, hfront, hout, hback⟩

/-- A node is linked out. -/
theorem LinkRing.erase (h : LinkRing next prev base (xs ++ a :: ys)) (hnode : next' (prev a) = next a)
    (hnode' : prev' (next a) = prev a)
    (hnext : ∀ z ∈ base :: (xs ++ ys), z ≠ prev a → next' z = next z)
    (hprev : ∀ z ∈ base :: (xs ++ ys), z ≠ next a → prev' z = prev z) :
    LinkRing next' prev' base (xs ++ ys) := by
  obtain ⟨-, hfront, hout, -⟩ := h.node
  rw [hfront] at hnode hnext hnode'
  rw [hout] at hnode hnode' hprev
  obtain ⟨front, back, hf, hb, hring⟩ := exists_seam base xs ys
  have h' : LinkRing next prev base (xs ++ [a] ++ ys) := by rwa [← List.append_cons]
  obtain ⟨hbefore, hbehind⟩ := h'.outside hf hb (hring [a]) hnext hprev
  constructor
  · exact h'.nodup.sublist
      (((List.sublist_append_left xs [a]).append (List.Sublist.refl ys)).cons_cons base)
  · have hmid := hring []
    rw [List.append_nil, List.nil_append] at hmid
    rw [hmid, linked_seam]
    exact ⟨hbefore, hnode, hnode', hbehind⟩

/-- Other links do not matter. -/
theorem LinkRing.congr (h : LinkRing next prev base ns)
    (hnext : ∀ z ∈ base :: ns, next' z = next z) (hprev : ∀ z ∈ base :: ns, prev' z = prev z) :
    LinkRing next' prev' base ns := by
  refine ⟨h.nodup, h.linked.congr (fun z hz => ?_) fun z hz => ?_⟩
  · rw [List.dropLast_concat] at hz
    exact hnext z hz
  · rw [List.cons_append, List.tail_cons, List.mem_append, List.mem_singleton] at hz
    exact hprev z (List.mem_cons.mpr hz.symm)

end

end QrWireguard
