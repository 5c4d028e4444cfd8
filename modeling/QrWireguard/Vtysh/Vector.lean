import Mathlib.Algebra.Group.Nat.Defs
import QrWireguard.Misc.Proc
import QrWireguard.Misc.Run

/-!
# Slot vectors

`vector.c`: vectors of pointers, which the command tables and the token lists are made of. A vector
has a block of slots, of which `NULL` ones are empty. A pointer takes eight bytes and an
`unsigned int` four. What goes outside the block is undefined behaviour, and so is a recursion that
goes on for longer than its bound.
-/

namespace QrWireguard.Vtysh
open Proc

/-- `struct _vector`, with the slots of the block that `index` points to. -/
structure Vec (α : Type) where
  max : BitVec 32
  alloced : BitVec 32
  index : List (Option α)

/-- The allocator: is there memory for so many bytes, and what is in a slot that `realloc` adds. -/
structure Heap (α : Type) where
  memory : Nat → Bool
  garbage : Nat → Option α

def sizeofPointer : Nat := 8
def sizeofVector : Nat := 16

section
variable {α σ : Type}

/-- The allocation of a block, which ends the process when there is no memory. -/
def zalloc (size : Nat) : Proc (Heap α) σ Unit := do
  match ← ask fun e _ => e.memory size with
  | true => pure ()
  | false => exit

/-- `v->index[i]`. -/
def getSlot (i : Nat) : Proc (Heap α) (Vec α) (Option α) := do
  match (← get).index[i]? with
  | some x => pure x
  | none => undefined

/-- `v->index[i] = val`. -/
def setSlot (i : Nat) (val : Option α) : Proc (Heap α) (Vec α) Unit := do
  let _ ← getSlot i
  modify fun v => { v with index := v.index.set i val }

/-- `vector_init`. -/
def vectorInit (size : BitVec 32) : Proc (Heap α) σ (Vec α) := do
  zalloc sizeofVector
  let size := if size = 0 then 1 else size
  zalloc (sizeofPointer * size.toNat)
  pure ⟨0, size, List.replicate size.toNat none⟩

/-- `vector_copy`, which computes the size of the block in an `unsigned int`. -/
def vectorCopy : Proc (Heap α) (Vec α) (Vec α) := do
  let v ← get
  zalloc sizeofVector
  let size := BitVec.ofNat 32 (sizeofPointer * v.alloced.toNat)
  zalloc size.toNat
  let slots := size.toNat / sizeofPointer
  if slots ≤ v.index.length then pure ⟨v.max, v.alloced, v.index.take slots⟩ else undefined

/-- `realloc` of a block of slots. -/
def reallocBlock (garbage : Nat → Option α) (index : List (Option α)) (slots : Nat) :
    List (Option α) :=
  (List.range slots).map fun i => index.getD i (garbage i)

/-- `vector_ensure`. -/
def vectorEnsure (num : BitVec 32) : Nat → Proc (Heap α) (Vec α) Unit
  | 0 => undefined
  | fuel + 1 => do
    let v ← get
    if num < v.alloced then pure ()
    else do
      let slots := (v.alloced * 2).toNat
      zalloc (sizeofPointer * slots)
      let garbage ← ask fun e _ => e.garbage
      let alloced := v.alloced.toNat
      -- the memset has to stay inside the block
      if alloced + alloced ≤ slots then
        modify fun v => { v with
          index := (reallocBlock garbage v.index slots).take alloced ++
            List.replicate alloced none ++ (reallocBlock garbage v.index slots).drop (alloced + alloced)
          alloced := v.alloced * 2 }
      else undefined
      if v.alloced * 2 ≤ num then vectorEnsure num fuel else pure ()

/-- The loop of `vector_empty_slot`. -/
def findEmpty : Nat → Nat → Proc (Heap α) (Vec α) Nat
  | 0, i => pure i
  | rounds + 1, i => do
    match ← getSlot i with
    | none => pure i
    | some _ => findEmpty rounds (i + 1)

/-- `vector_empty_slot`. -/
def vectorEmptySlot : Proc (Heap α) (Vec α) (BitVec 32) := do
  let v ← get
  if v.max = 0 then pure 0
  else do
    let i ← findEmpty v.max.toNat 0
    pure (BitVec.ofNat 32 i)

/-- `vector_set_index`. -/
def vectorSetIndex (fuel : Nat) (i : BitVec 32) (val : Option α) :
    Proc (Heap α) (Vec α) (BitVec 32) := do
  vectorEnsure i fuel
  setSlot i.toNat val
  modify fun v => if v.max ≤ i then { v with max := i + 1 } else v
  pure i

/-- `vector_set`, which does with the empty slot what `vector_set_index` does with a slot. -/
def vectorSet (fuel : Nat) (val : Option α) : Proc (Heap α) (Vec α) (BitVec 32) := do
  let i ← vectorEmptySlot
  vectorSetIndex fuel i val

/-- `vector_lookup_ensure`. -/
def vectorLookupEnsure (fuel : Nat) (i : BitVec 32) : Proc (Heap α) (Vec α) (Option α) := do
  vectorEnsure i fuel
  getSlot i.toNat

/-- `while (i && v->index[--i] == NULL && v->max--);` -/
def trimMax : Nat → Proc (Heap α) (Vec α) Unit
  | 0 => pure ()
  | i + 1 => do
    match ← getSlot i with
    | some _ => pure ()
    | none => do
      let v ← get
      modify fun v => { v with max := v.max - 1 }
      if v.max = 0 then pure () else trimMax i

/-- `vector_unset`. -/
def vectorUnset (i : BitVec 32) : Proc (Heap α) (Vec α) Unit := do
  let v ← get
  if v.alloced ≤ i then pure ()
  else do
    setSlot i.toNat none
    if i + 1 = v.max then do
      modify fun v => { v with max := v.max - 1 }
      trimMax i.toNat
    else pure ()

/-! ## The representation -/

/-- What a slot holds; there is nothing behind the block. -/
def Vec.slot (v : Vec α) (i : Nat) : Option α := (v.index[i]?).join

/-- The representation of a vector. -/
structure VectorRep (v : Vec α) : Prop where
  pos : 0 < v.alloced.toNat
  max_le : v.max.toNat ≤ v.alloced.toNat
  allocated : v.index.length = v.alloced.toNat
  null : ∀ i, v.max.toNat ≤ i → i < v.alloced.toNat → v.index[i]? = some none

variable {e : Heap α} {s : σ} {v v' : Vec α} {i num : BitVec 32} {fuel : Nat} {val : Option α}

@[simp] theorem safe_zalloc {size : Nat} {Q : Unit → σ → Prop} :
    Safe (zalloc size) e s Q ↔ (e.memory size = true → Q () s) := by
  unfold zalloc
  rw [safe_bind, safe_ask]
  cases e.memory size <;> simp

@[simp] theorem safe_getSlot {i : Nat} {Q : Option α → Vec α → Prop} :
    Safe (getSlot i) e v Q ↔ ∃ x, v.index[i]? = some x ∧ Q x v := by
  unfold getSlot
  rw [safe_bind, safe_get]
  cases v.index[i]? <;> simp

@[simp] theorem safe_setSlot {i : Nat} {Q : Unit → Vec α → Prop} :
    Safe (setSlot i val) e v Q ↔
      i < v.index.length ∧ Q () { v with index := v.index.set i val } := by
  have hslot : (∃ x, v.index[i]? = some x) ↔ i < v.index.length :=
    ⟨fun ⟨_, hx⟩ => (List.getElem?_eq_some_iff.mp hx).1, fun hi => ⟨_, List.getElem?_eq_getElem hi⟩⟩
  simp only [setSlot, safe_bind, safe_getSlot, safe_modify, exists_and_right, hslot]

theorem slot_set (v : Vec α) (i j : Nat) (val : Option α) (max alloced : BitVec 32)
    (hi : i < v.index.length) :
    Vec.slot ⟨max, alloced, v.index.set i val⟩ j = if j = i then val else v.slot j := by
  by_cases hj : j = i
  · simp [Vec.slot, hj, hi]
  · simp [Vec.slot, hj, List.getElem?_set_ne (Ne.symm hj)]

theorem VectorRep.slot_eq_none (h : VectorRep v) {i : Nat} (hi : v.max.toNat ≤ i) :
    v.slot i = none := by
  by_cases hlt : i < v.alloced.toNat
  · rw [Vec.slot, h.null i hi hlt]
    rfl
  · rw [← h.allocated] at hlt
    rw [Vec.slot, List.getElem?_eq_none (Nat.le_of_not_lt hlt)]
    rfl

/-- A block that is as large as the vector says keeps its slots when it grows. -/
theorem take_reallocBlock {garbage : Nat → Option α} {index : List (Option α)} {slots : Nat}
    (h : index.length ≤ slots) : (reallocBlock garbage index slots).take index.length = index := by
  refine List.ext_getElem? fun i => ?_
  by_cases hi : i < index.length
  · have hslots : i < slots := Nat.lt_of_lt_of_le hi h
    simp [reallocBlock, hi, hslots]
  · simp [hi, List.getElem?_take]

/-- A vector with twice as many slots, the new ones of which are empty. -/
def Vec.doubled (v : Vec α) : Vec α :=
  ⟨v.max, v.alloced * 2, v.index ++ List.replicate v.alloced.toNat none⟩

theorem toNat_mul_two {x : BitVec 32} (h : x.toNat < 2 ^ 31) : (x * 2).toNat = 2 * x.toNat := by
  have htwo : (2 : BitVec 32).toNat = 2 := rfl
  rw [BitVec.toNat_mul, htwo]
  omega

theorem Vec.slot_doubled (v : Vec α) (i : Nat) : v.doubled.slot i = v.slot i := by
  by_cases hi : i < v.index.length
  · simp [slot, doubled, List.getElem?_append_left hi]
  · rw [slot, slot, doubled, List.getElem?_append_right (Nat.le_of_not_lt hi),
      List.getElem?_eq_none (Nat.le_of_not_lt hi), List.getElem?_replicate]
    split <;> rfl

theorem VectorRep.doubled (h : VectorRep v) (hlt : v.alloced.toNat < 2 ^ 31) :
    VectorRep v.doubled where
  pos := by
    have hpos := h.pos
    rw [Vec.doubled, toNat_mul_two hlt]
    omega
  max_le := by
    have hmax := h.max_le
    rw [Vec.doubled, toNat_mul_two hlt]
    dsimp only
    omega
  allocated := by
    rw [Vec.doubled, toNat_mul_two hlt, List.length_append, List.length_replicate, h.allocated]
    omega
  null i hi hlt' := by
    rw [Vec.doubled, toNat_mul_two hlt] at hlt'
    by_cases hold : i < v.alloced.toNat
    · rw [Vec.doubled, List.getElem?_append_left (h.allocated ▸ hold)]
      exact h.null i hi hold
    · rw [Vec.doubled, List.getElem?_append_right (h.allocated ▸ Nat.le_of_not_lt hold),
        List.getElem?_replicate, if_pos]
      rw [h.allocated]
      omega

/-- What `vector_ensure` makes of a block in one round. -/
theorem VectorRep.grown {garbage : Nat → Option α} (h : VectorRep v)
    (hlt : v.alloced.toNat < 2 ^ 31) :
    { v with
      index := (reallocBlock garbage v.index (v.alloced * 2).toNat).take v.alloced.toNat ++
        List.replicate v.alloced.toNat none ++
          (reallocBlock garbage v.index (v.alloced * 2).toNat).drop
            (v.alloced.toNat + v.alloced.toNat)
      alloced := v.alloced * 2 } = v.doubled := by
  have hle : v.index.length ≤ (v.alloced * 2).toNat := by
    rw [toNat_mul_two hlt, h.allocated]
    omega
  have hdrop : (reallocBlock garbage v.index (v.alloced * 2).toNat).drop
      (v.alloced.toNat + v.alloced.toNat) = [] := by
    refine List.drop_eq_nil_of_le ?_
    rw [reallocBlock, List.length_map, List.length_range, toNat_mul_two hlt]
    omega
  rw [hdrop, List.append_nil, ← h.allocated, take_reallocBlock hle]
  rw [Vec.doubled, h.allocated]

/-- The vector grows by doubling until it has the slot. -/
theorem safe_vectorEnsure (h : VectorRep v) (hnum : num.toNat < 2 ^ 31)
    (hfuel : num.toNat < v.alloced.toNat * 2 ^ fuel) :
    Safe (vectorEnsure num (fuel + 1)) e v fun _ v' => VectorRep v' ∧ num < v'.alloced ∧
      v'.max = v.max ∧ ∀ j, v'.slot j = v.slot j := by
  induction fuel generalizing v with
  | zero =>
    have hlt : num < v.alloced := by
      rw [BitVec.lt_def]
      omega
    simp only [vectorEnsure, safe_bind, safe_get, if_pos hlt, safe_pure]
    exact ⟨h, hlt, trivial, fun _ => trivial⟩
  | succ fuel ih =>
    rw [vectorEnsure]
    simp only [safe_bind, safe_get]
    by_cases hlt : num < v.alloced
    · rw [if_pos hlt, safe_pure]
      exact ⟨h, hlt, rfl, fun _ => rfl⟩
    · have halloced : v.alloced.toNat < 2 ^ 31 := by
        rw [BitVec.lt_def] at hlt
        omega
      have htwice := toNat_mul_two halloced
      have hroom : v.alloced.toNat + v.alloced.toNat ≤ (v.alloced * 2).toNat := by omega
      rw [if_neg hlt]
      simp only [safe_bind, safe_zalloc, safe_ask, if_pos hroom, safe_modify]
      intro _
      rw [h.grown halloced]
      have h' := h.doubled halloced
      split
      · refine (ih h' ?_).mono ?_
        · rw [Vec.doubled, htwice]
          rw [Nat.pow_succ] at hfuel
          rw [Nat.mul_comm 2, Nat.mul_assoc, Nat.mul_comm 2]
          exact hfuel
        · rintro _ v' ⟨hv', hlt', hmax, hslot⟩
          exact ⟨hv', hlt', hmax, fun j => (hslot j).trans (v.slot_doubled j)⟩
      · next hgt => exact ⟨h', BitVec.not_le.mp hgt, rfl, v.slot_doubled⟩

theorem getElem?_of_slot {i : Nat} (hi : i < v.index.length) : v.index[i]? = some (v.slot i) := by
  rw [Vec.slot, List.getElem?_eq_getElem hi]
  rfl

/-- A slot of the block is written, below `max` or with `max` raised to it. -/
theorem VectorRep.setSlot (h : VectorRep v) {i : Nat} {max : BitVec 32}
    (hmax : v.max.toNat ≤ max.toNat) (hle : max.toNat ≤ v.alloced.toNat) (himax : i < max.toNat) :
    VectorRep ⟨max, v.alloced, v.index.set i val⟩ where
  pos := h.pos
  max_le := hle
  allocated := by rw [List.length_set, h.allocated]
  null j hj hlt := by
    have hne : i ≠ j := by
      rintro rfl
      exact absurd himax (Nat.not_lt.mpr hj)
    rw [List.getElem?_set_ne hne]
    exact h.null j (Nat.le_trans hmax hj) hlt

/-- A recursion of 32 rounds is deep enough. -/
theorem safe_vectorEnsure_of_le (h : VectorRep v) (hnum : num.toNat < 2 ^ 31) (hfuel : 32 ≤ fuel) :
    Safe (vectorEnsure num fuel) e v fun _ v' => VectorRep v' ∧ num < v'.alloced ∧
      v'.max = v.max ∧ ∀ j, v'.slot j = v.slot j := by
  obtain ⟨rounds, rfl⟩ := Nat.exists_eq_add_of_le' hfuel
  refine safe_vectorEnsure h hnum ?_
  calc num.toNat < 2 ^ 31 := hnum
    _ ≤ 2 ^ (rounds + 31) := Nat.pow_le_pow_right Nat.two_pos (Nat.le_add_left _ _)
    _ ≤ v.alloced.toNat * 2 ^ (rounds + 31) := Nat.le_mul_of_pos_left _ h.pos

/-- The slot is written and counted among the used ones. -/
theorem safe_vectorSetIndex (h : VectorRep v) (hi : i.toNat < 2 ^ 31) (hfuel : 32 ≤ fuel) :
    Safe (vectorSetIndex fuel i val) e v fun r v' => r = i ∧ VectorRep v' ∧
      v'.slot i.toNat = val ∧ ∀ j ≠ i.toNat, v'.slot j = v.slot j := by
  simp only [vectorSetIndex, safe_bind]
  refine (safe_vectorEnsure_of_le h hi hfuel).mono ?_
  rintro _ u ⟨hu, hroom, -, hslots⟩
  have hlt : i.toNat < u.alloced.toNat := hroom
  have hsucc : (i + 1).toNat = i.toNat + 1 := by
    have hone : (1 : BitVec 32).toNat = 1 := rfl
    rw [BitVec.toNat_add, hone]
    omega
  simp only [safe_setSlot, safe_modify, safe_pure]
  refine ⟨hu.allocated ▸ hlt, trivial, ?_⟩
  have hwritten : ∀ max, ∀ j, Vec.slot ⟨max, u.alloced, u.index.set i.toNat val⟩ j =
      if j = i.toNat then val else v.slot j := by
    intro max j
    rw [slot_set u i.toNat j val max u.alloced (hu.allocated ▸ hlt), hslots]
  split
  · next hle =>
    refine ⟨hu.setSlot ?_ ?_ ?_, ?_, fun j hj => ?_⟩
    · rw [hsucc]
      exact Nat.le_succ_of_le hle
    · rw [hsucc]
      exact hlt
    · rw [hsucc]
      exact Nat.lt_succ_self _
    · rw [hwritten, if_pos rfl]
    · rw [hwritten, if_neg hj]
  · next hgt =>
    refine ⟨hu.setSlot (Nat.le_refl _) hu.max_le (BitVec.not_le.mp hgt), ?_, fun j hj => ?_⟩
    · rw [hwritten, if_pos rfl]
    · rw [hwritten, if_neg hj]

theorem safe_findEmpty {rounds i : Nat} (h : i + rounds ≤ v.index.length) :
    Safe (findEmpty rounds i) e v fun r v' => v' = v ∧ r ≤ i + rounds ∧
      (∀ j, i ≤ j → j < r → v.slot j ≠ none) ∧ (r < i + rounds → v.slot r = none) := by
  induction rounds generalizing i with
  | zero => 
    simp only [findEmpty, safe_pure]
    exact ⟨trivial, Nat.le_refl _, fun j hj hlt => absurd hlt (Nat.not_lt.mpr hj), fun hlt => absurd hlt (Nat.lt_irrefl _)⟩
  | succ rounds ih =>
    simp only [findEmpty, safe_bind, safe_getSlot]
    refine ⟨v.slot i, getElem?_of_slot (by omega), ?_⟩
    cases hslot : v.slot i with
    | none => 
      simp only [safe_pure]
      exact ⟨trivial, Nat.le_add_right _ _, fun j hj hlt => absurd hlt (Nat.not_lt.mpr hj), fun _ => hslot⟩
    | some x =>
      dsimp only
      refine (ih (by omega)).mono ?_
      rintro r _ ⟨rfl, hle, hfull, hempty⟩
      refine ⟨rfl, by omega, fun j hj hlt => ?_, fun hlt => hempty (by omega)⟩
      rcases Nat.eq_or_lt_of_le hj with rfl | hij
      · rw [hslot]
        exact Option.some_ne_none x
      · exact hfull j hij hlt

/-- The empty slot that is found is the least one. -/
theorem safe_vectorEmptySlot (h : VectorRep v) :
    Safe vectorEmptySlot e v fun r v' => v' = v ∧ v.slot r.toNat = none ∧
      ∀ j < r.toNat, v.slot j ≠ none := by
  simp only [vectorEmptySlot, safe_bind, safe_get]
  split
  · next hzero =>
    have hempty : v.slot 0 = none := h.slot_eq_none (by rw [hzero]; exact Nat.le_refl 0)
    exact ⟨rfl, hempty, fun j hj => absurd hj (Nat.not_lt_zero j)⟩
  · have hblock : 0 + v.max.toNat ≤ v.index.length := by
      rw [h.allocated, Nat.zero_add]
      exact h.max_le
    simp only [safe_bind, safe_pure]
    refine (safe_findEmpty hblock).mono ?_
    rintro r u ⟨rfl, hle, hfull, hempty⟩
    rw [Nat.zero_add] at hle hempty
    have hr : (BitVec.ofNat 32 r).toNat = r :=
      Nat.mod_eq_of_lt (Nat.lt_of_le_of_lt hle u.max.isLt)
    rw [hr]
    refine ⟨rfl, ?_, fun j hj => hfull j (Nat.zero_le j) hj⟩
    rcases Nat.lt_or_eq_of_le hle with hlt | rfl
    · exact hempty hlt
    · exact h.slot_eq_none (Nat.le_refl _)

theorem toNat_sub_one {x : BitVec 32} {k : Nat} (h : x.toNat = k + 1) : (x - 1).toNat = k := by
  have hone : (1 : BitVec 32).toNat = 1 := rfl
  rw [BitVec.toNat_sub, hone]
  have hlt := x.isLt
  omega

/-- The trimming ends at zero or behind a slot that is in use. -/
theorem safe_trimMax {k : Nat} (h : VectorRep v) (hk : v.max.toNat = k) :
    Safe (trimMax k) e v fun _ v' => VectorRep v' ∧ (∀ j, v'.slot j = v.slot j) ∧
      (v'.max = 0 ∨ v'.slot (v'.max.toNat - 1) ≠ none) := by
  induction k generalizing v with
  | zero => exact ⟨h, fun _ => rfl, .inl (BitVec.eq_of_toNat_eq hk)⟩
  | succ k ih =>
    have hlt : k < v.alloced.toNat := Nat.lt_of_lt_of_le (Nat.lt_of_lt_of_eq k.lt_succ_self hk.symm) h.max_le
    simp only [trimMax, safe_bind, safe_getSlot]
    refine ⟨v.slot k, getElem?_of_slot (h.allocated ▸ hlt), ?_⟩
    cases hslot : v.slot k with
    | some x =>
      refine ⟨h, fun _ => rfl, .inr ?_⟩
      rw [hk, Nat.add_sub_cancel, hslot]
      exact Option.some_ne_none x
    | none =>
      have hne : v.max ≠ 0 := by
        intro hzero
        rw [hzero] at hk
        cases hk
      have hpred := toNat_sub_one hk
      simp only [safe_bind, safe_get, safe_modify, if_neg hne]
      refine ih ⟨h.pos, ?_, h.allocated, fun i hi hi' => ?_⟩ hpred
      · rw [hpred]
        exact Nat.le_of_lt hlt
      · rw [hpred] at hi
        rcases Nat.eq_or_lt_of_le hi with rfl | hki
        · rw [← hslot]
          exact getElem?_of_slot (h.allocated ▸ hlt)
        · exact h.null i (by omega) hi'

/-- A slot is emptied, and `max` may go down to it. -/
theorem VectorRep.unset (h : VectorRep v) {i : Nat} {max : BitVec 32}
    (hmax : max.toNat ≤ v.max.toNat) (hlast : ∀ j, max.toNat ≤ j → j < v.max.toNat → j = i) :
    VectorRep ⟨max, v.alloced, v.index.set i none⟩ where
  pos := h.pos
  max_le := Nat.le_trans hmax h.max_le
  allocated := by rw [List.length_set, h.allocated]
  null j hj hlt := by
    by_cases hij : i = j
    · rw [hij, List.getElem?_set_self (h.allocated ▸ hlt)]
    · rw [List.getElem?_set_ne hij]
      refine h.null j (Nat.le_of_not_lt fun hjmax => hij (hlast j hj hjmax).symm) hlt

/-- The slot is emptied. -/
theorem safe_vectorUnset (h : VectorRep v) :
    Safe (vectorUnset i) e v fun _ v' => VectorRep v' ∧ v'.slot i.toNat = none ∧
      (∀ j ≠ i.toNat, v'.slot j = v.slot j) ∧
        (i.toNat + 1 = v.max.toNat → v'.max = 0 ∨ v'.slot (v'.max.toNat - 1) ≠ none) := by
  have hmax := h.max_le
  simp only [vectorUnset, safe_bind, safe_get]
  split
  · next hle =>
    have hge : v.alloced.toNat ≤ i.toNat := hle
    refine ⟨h, h.slot_eq_none (Nat.le_trans hmax hge), fun _ _ => rfl, fun hlast => ?_⟩
    omega
  · next hgt =>
    have hlt : i.toNat < v.alloced.toNat := BitVec.not_le.mp hgt
    have hsucc : (i + 1).toNat = i.toNat + 1 := by
      have hone : (1 : BitVec 32).toNat = 1 := rfl
      have halloced := v.alloced.isLt
      rw [BitVec.toNat_add, hone]
      omega
    have hwritten : ∀ max, ∀ j, Vec.slot ⟨max, v.alloced, v.index.set i.toNat none⟩ j =
        if j = i.toNat then none else v.slot j := fun max j =>
      slot_set v i.toNat j none max v.alloced (h.allocated ▸ hlt)
    simp only [safe_bind, safe_setSlot]
    refine ⟨h.allocated ▸ hlt, ?_⟩
    split
    · next hlast =>
      have hused : v.max.toNat = i.toNat + 1 := by rw [← hlast, hsucc]
      have hpred := toNat_sub_one hused
      simp only [safe_bind, safe_modify]
      have h' : VectorRep ⟨v.max - 1, v.alloced, v.index.set i.toNat none⟩ := by
        refine h.unset ?_ fun j hj hjmax => ?_
        · omega
        · omega
      refine (safe_trimMax h' hpred).mono ?_
      rintro _ v' ⟨hv', hslots, hend⟩
      refine ⟨hv', ?_, fun j hj => ?_, fun _ => hend⟩
      · rw [hslots, hwritten, if_pos rfl]
      · rw [hslots, hwritten, if_neg hj]
    · next hlast =>
      refine ⟨h.unset (Nat.le_refl _) fun j hj hjmax => absurd hjmax (Nat.not_lt.mpr hj), ?_,
        fun j hj => ?_, fun heq => ?_⟩
      · rw [hwritten, if_pos rfl]
      · rw [hwritten, if_neg hj]
      · exact absurd (BitVec.eq_of_toNat_eq (hsucc.trans heq)) hlast

theorem safe_vectorInit {size : BitVec 32} :
    Safe (vectorInit size) e s fun v _ => VectorRep v := by
  simp only [vectorInit, safe_bind, safe_zalloc, safe_pure]
  intro _ _
  have hpos : 0 < (if size = 0 then 1 else size).toNat := by
    split
    · exact Nat.one_pos
    · next hne => exact Nat.pos_of_ne_zero fun hzero => hne (BitVec.eq_of_toNat_eq hzero)
  refine ⟨hpos, Nat.zero_le _, List.length_replicate, fun i _ hi => ?_⟩
  rw [List.getElem?_replicate, if_pos hi]

/-- The copy is as the vector is when the size of the block fits an `unsigned int`. Otherwise it
lacks slots. -/
theorem safe_vectorCopy (h : VectorRep v) :
    Safe vectorCopy e v fun new v' => v' = v ∧ (v.alloced.toNat < 2 ^ 29 → new = v) ∧
      (2 ^ 29 ≤ v.alloced.toNat → new.index.length ≠ new.alloced.toNat) := by
  have hslots : (BitVec.ofNat 32 (sizeofPointer * v.alloced.toNat)).toNat / sizeofPointer =
      v.alloced.toNat % 2 ^ 29 := by
    rw [BitVec.toNat_ofNat, sizeofPointer]
    omega
  have hle : v.alloced.toNat % 2 ^ 29 ≤ v.index.length := h.allocated ▸ Nat.mod_le _ _
  simp only [vectorCopy, safe_bind, safe_get, safe_zalloc, hslots, if_pos hle, safe_pure]
  intro _ _
  refine ⟨trivial, fun hlt => ?_, fun hge hlen => ?_⟩
  · rw [Nat.mod_eq_of_lt hlt, ← h.allocated, List.take_length]
  · rw [List.length_take, Nat.min_eq_left hle] at hlen
    omega

/-! ## Runs -/

/-- A call on a vector. A run goes on with the copy that `vector_copy` makes. -/
inductive VectorOp (α : Type) where
  | set (val : Option α)
  | setIndex (i : BitVec 32) (val : Option α)
  | unset (i : BitVec 32)
  | lookupEnsure (i : BitVec 32)
  | copy

namespace VectorOp

def run (fuel : Nat) : VectorOp α → Proc (Heap α) (Vec α) Unit
  | set val => do
    let _ ← vectorSet fuel val
    pure ()
  | setIndex i val => do
    let _ ← vectorSetIndex fuel i val
    pure ()
  | unset i => vectorUnset i
  | lookupEnsure i => do
    let _ ← vectorLookupEnsure fuel i
    pure ()
  | copy => do
    let new ← vectorCopy
    modify fun _ => new

/-- The index of the call is below 2^31; `vector_set` finds an empty slot there. -/
def Below (v : Vec α) : VectorOp α → Prop
  | set _ => ∃ i < 2 ^ 31, v.slot i = none
  | setIndex i _ | unset i | lookupEnsure i => i.toNat < 2 ^ 31
  | copy => True

/-- What the call does to the slots. -/
def Post (v v' : Vec α) : VectorOp α → Prop
  | set val => ∃ i, v.slot i = none ∧ (∀ j < i, v.slot j ≠ none) ∧ v'.slot i = val ∧
      ∀ j ≠ i, v'.slot j = v.slot j
  | setIndex i val => v'.slot i.toNat = val ∧ ∀ j ≠ i.toNat, v'.slot j = v.slot j
  | unset i => v'.slot i.toNat = none ∧ (∀ j ≠ i.toNat, v'.slot j = v.slot j) ∧
      (i.toNat + 1 = v.max.toNat → v'.max = 0 ∨ v'.slot (v'.max.toNat - 1) ≠ none)
  | lookupEnsure i => i < v'.alloced ∧ v'.max = v.max ∧ ∀ j, v'.slot j = v.slot j
  | copy => v'.max = v.max ∧ ∀ j, v'.slot j = v.slot j

end VectorOp

/-- The vectors that `vector_init` makes. -/
def VectorStart (v : Vec α) : Prop :=
  ∃ (e : Heap α) (size : BitVec 32), vectorInit size e () = .done v ()

/-- A call that returns. -/
def VectorStep (v : Vec α) (op : VectorOp α) (v' : Vec α) : Prop :=
  op.Below v ∧ ∃ e fuel, 32 ≤ fuel ∧ op.run fuel e v = .done () v'

/-- The size of a block that is copied fits an `unsigned int`. -/
def CopyFits (v : Vec α) (op : VectorOp α) : Prop := op = .copy → v.alloced.toNat < 2 ^ 29

/-- A call does what it should exactly when it does not copy a block that is too large. -/
theorem VectorOp.safe_run {op : VectorOp α} (h : VectorRep v) (hbelow : op.Below v)
    (hfuel : 32 ≤ fuel) : Safe (op.run fuel) e v fun _ v' =>
      (VectorRep v' ∧ op.Post v v' ↔ CopyFits v op) := by
  have hfits : ∀ {p : Prop} {op : VectorOp α}, op ≠ .copy → p → (p ↔ CopyFits v op) :=
    fun hne hp => ⟨fun _ heq => absurd heq hne, fun _ => hp⟩
  cases op with
  | set val =>
    simp only [run, vectorSet, safe_bind, safe_pure]
    refine (safe_vectorEmptySlot h).mono ?_
    rintro r _ ⟨rfl, hempty, hfull⟩
    obtain ⟨i, hi, hslot⟩ := hbelow
    have hr : r.toNat < 2 ^ 31 := by
      refine Nat.lt_of_le_of_lt (Nat.le_of_not_lt fun hlt => ?_) hi
      exact hfull i hlt hslot
    refine (safe_vectorSetIndex h hr hfuel).mono ?_
    rintro _ v' ⟨-, h', hval, hslots⟩
    exact hfits (by simp) ⟨h', r.toNat, hempty, hfull, hval, hslots⟩
  | setIndex i val =>
    simp only [run, safe_bind, safe_pure]
    refine (safe_vectorSetIndex h hbelow hfuel).mono ?_
    rintro _ v' ⟨-, h', hval, hslots⟩
    exact hfits (by simp) ⟨h', hval, hslots⟩
  | unset i =>
    refine (safe_vectorUnset h).mono ?_
    rintro _ v' ⟨h', hpost⟩
    exact hfits (by simp) ⟨h', hpost⟩
  | lookupEnsure i =>
    simp only [run, vectorLookupEnsure, safe_bind, safe_pure, safe_getSlot]
    refine (safe_vectorEnsure_of_le h hbelow hfuel).mono ?_
    rintro _ v' ⟨h', hpost⟩
    refine ⟨_, getElem?_of_slot ?_, hfits (by simp) ⟨h', hpost⟩⟩
    rw [h'.allocated]
    exact hpost.1
  | copy =>
    simp only [run, safe_bind, safe_modify]
    refine (safe_vectorCopy h).mono ?_
    rintro new _ ⟨rfl, hsame, hlacks⟩
    constructor
    · intro hrep _
      exact Nat.lt_of_not_le fun hge => hlacks hge hrep.1.allocated
    · intro hlt
      rw [hsame (hlt rfl)]
      exact ⟨h, rfl, fun _ => rfl⟩

/-- The representation of a vector after any sequence of calls that do not copy a block that is too
large, and what the next call does: it returns, or there is no memory. -/
theorem vectorRep_of_reach (h : Reach VectorStart VectorStep CopyFits v) : VectorRep v ∧
    ∀ op : VectorOp α, op.Below v → ∀ e fuel, 32 ≤ fuel → Safe (op.run fuel) e v fun _ v' =>
      (VectorRep v' ∧ op.Post v v' ↔ CopyFits v op) := by
  have hrep : VectorRep v := by
    refine h.invariant (fun v hstart => ?_) fun v op v' hv hfits hstep => ?_
    · obtain ⟨e, size, hdone⟩ := hstart
      exact safe_vectorInit.of_done hdone
    · obtain ⟨hbelow, e, fuel, hfuel, hdone⟩ := hstep
      exact (((VectorOp.safe_run hv hbelow hfuel).of_done hdone).mpr hfits).1
  exact ⟨hrep, fun op hbelow e fuel hfuel => VectorOp.safe_run hrep hbelow hfuel⟩

end

/-- An allocator that always has memory. -/
def plenty : Heap Nat := ⟨fun _ => true, fun _ => none⟩

/-- A vector of one slot grows when a second pointer is stored. -/
theorem vectorRep_of_reach_two : VectorRep (⟨2, 2, [some 7, some 9]⟩ : Vec Nat) := by
  have hstart : Reach VectorStart VectorStep CopyFits (⟨0, 1, [none]⟩ : Vec Nat) :=
    .init ⟨plenty, 0, rfl⟩
  have hfirst : Reach VectorStart VectorStep CopyFits (⟨1, 1, [some 7]⟩ : Vec Nat) :=
    .step (i := .set (some 7)) hstart nofun ⟨⟨0, by decide, rfl⟩, plenty, 32, Nat.le_refl _, rfl⟩
  have hsecond : Reach VectorStart VectorStep CopyFits (⟨2, 2, [some 7, some 9]⟩ : Vec Nat) :=
    .step (i := .set (some 9)) hfirst nofun ⟨⟨1, by decide, rfl⟩, plenty, 32, Nat.le_refl _, rfl⟩
  exact (vectorRep_of_reach hsecond).1

/-- The copy of a vector with 2^29 slots, for which no memory is allocated. -/
def emptyCopy : Vec Nat := ⟨0, 0x20000000, []⟩

/-- The size of the block is a multiple of 2^32. -/
theorem run_copy_of_large (block : List (Option Nat)) :
    VectorOp.run 32 .copy plenty ⟨0, 0x20000000, block⟩ = .done () emptyCopy := by
  have hslots : (BitVec.ofNat 32 (sizeofPointer * (0x20000000 : BitVec 32).toNat)).toNat /
      sizeofPointer = 0 := by decide
  have hruns : Runs (VectorOp.run 32 .copy) plenty ⟨0, 0x20000000, block⟩ fun _ v =>
      v = emptyCopy := by
    simp only [VectorOp.run, vectorCopy, zalloc, plenty, runs_bind, runs_get, runs_ask, runs_pure,
      runs_modify, hslots, if_pos (Nat.zero_le _), List.take_zero, emptyCopy]
  obtain ⟨⟨⟩, v, hdone, rfl⟩ := runs_iff.mp hruns
  exact hdone

/-- The first slot of the copy is not there, and storing a pointer goes outside the block. -/
theorem not_vectorRep : Reach VectorStart VectorStep (fun _ _ => True) emptyCopy ∧
    (¬ ∀ i, emptyCopy.max.toNat ≤ i → i < emptyCopy.alloced.toNat →
      emptyCopy.index[i]? = some none) ∧
    ∀ e fuel val, vectorSet fuel val e emptyCopy = .undefined := by
  have hstart : Reach VectorStart VectorStep (fun _ _ => True)
      (⟨0, 0x20000000, List.replicate (0x20000000 : BitVec 32).toNat none⟩ : Vec Nat) :=
    .init ⟨plenty, 0x20000000, rfl⟩
  refine ⟨.step (i := .copy) hstart trivial ⟨trivial, plenty, 32, Nat.le_refl _,
    run_copy_of_large _⟩, ?_, ?_⟩
  · intro h
    exact absurd (h 0 (Nat.le_refl _) (by decide)) nofun
  · intro e fuel val
    cases fuel with
    | zero => rfl
    | succ fuel => rfl

end QrWireguard.Vtysh
