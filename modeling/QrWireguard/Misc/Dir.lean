import Mathlib.Data.List.Sort

/-!
# Directories of records

A directory holds one record for each name and lists its records in name order. The names
stand strictly ordered in the entries, so a directory is determined by what it reads.
-/

namespace QrWireguard

variable {κ α : Type} [LinearOrder κ]

/-- The entries of a directory, in name order. -/
structure Dir (κ α : Type) [LinearOrder κ] where
  entries : List (κ × α)
  sorted : entries.Pairwise (fun a b => a.1 < b.1)
  deriving DecidableEq

namespace Dir

/-- The record of a name in a list of entries. -/
def lookup (name : κ) : List (κ × α) → Option α
  | [] => none
  | (other, value) :: rest => if name = other then some value else lookup name rest

/-- Puts a record in its place, over the one of the same name. -/
def insert (name : κ) (value : α) : List (κ × α) → List (κ × α)
  | [] => [(name, value)]
  | (other, previous) :: rest =>
    if name < other then (name, value) :: (other, previous) :: rest
    else if name = other then (name, value) :: rest
    else (other, previous) :: insert name value rest

theorem mem_insert {name : κ} {value : α} {l : List (κ × α)} {e : κ × α}
    (h : e ∈ insert name value l) : e = (name, value) ∨ e ∈ l := by
  induction l with
  | nil => exact .inl (by simpa [insert] using h)
  | cons entry rest ih =>
    unfold insert at h
    split at h
    · rcases List.mem_cons.mp h with equal | member
      · exact .inl equal
      · exact .inr member
    · split at h
      · rcases List.mem_cons.mp h with equal | member
        · exact .inl equal
        · exact .inr (List.mem_cons_of_mem _ member)
      · rcases List.mem_cons.mp h with equal | member
        · exact .inr (equal ▸ List.mem_cons_self)
        · exact (ih member).imp_right (List.mem_cons_of_mem _)

theorem insert_sorted {name : κ} {value : α} {l : List (κ × α)}
    (h : l.Pairwise (fun a b => a.1 < b.1)) :
    (insert name value l).Pairwise (fun a b => a.1 < b.1) := by
  induction l with
  | nil => simp [insert]
  | cons entry rest ih =>
    rcases entry with ⟨other, previous⟩
    have hrest := (List.pairwise_cons.mp h).2
    have hfirst := (List.pairwise_cons.mp h).1
    unfold insert
    by_cases less : name < other
    · rw [if_pos less]
      refine List.pairwise_cons.mpr ⟨fun e he => ?_, h⟩
      rcases List.mem_cons.mp he with rfl | member
      · exact less
      · exact less.trans (hfirst e member)
    · rw [if_neg less]
      by_cases equal : name = other
      · rw [if_pos equal, equal]
        exact List.pairwise_cons.mpr ⟨hfirst, hrest⟩
      · rw [if_neg equal]
        refine List.pairwise_cons.mpr ⟨fun e he => ?_, ih hrest⟩
        rcases mem_insert he with rfl | member
        · exact lt_of_le_of_ne (not_lt.mp less) (Ne.symm equal)
        · exact hfirst e member

theorem lookup_insert (name other : κ) (value : α) (l : List (κ × α)) :
    lookup other (insert name value l) = if other = name then some value else lookup other l := by
  induction l with
  | nil => simp [insert, lookup]
  | cons entry rest ih =>
    rcases entry with ⟨head, previous⟩
    unfold insert
    by_cases less : name < head
    · rw [if_pos less]
      rfl
    · rw [if_neg less]
      by_cases equal : name = head
      · subst head
        rw [if_pos rfl]
        by_cases hit : other = name
        · simp [lookup, hit]
        · simp [lookup, hit]
      · rw [if_neg equal]
        by_cases hit : other = head
        · subst head
          rw [if_neg (Ne.symm equal)]
          simp [lookup]
        · simp only [lookup, if_neg hit]
          exact ih

theorem lookup_filter_ne (name other : κ) (l : List (κ × α)) :
    lookup other (l.filter fun e => decide (e.1 ≠ name)) =
      if other = name then none else lookup other l := by
  induction l with
  | nil => simp [lookup]
  | cons entry rest ih =>
    rcases entry with ⟨head, value⟩
    by_cases hit : head = name
    · subst head
      rw [List.filter_cons_of_neg (by simp), ih]
      by_cases same : other = name
      · simp [same]
      · simp [lookup, same]
    · rw [List.filter_cons_of_pos (by simpa using hit)]
      simp only [lookup, ih]
      by_cases same : other = name
      · subst other
        rw [if_neg (Ne.symm hit), if_pos rfl, if_pos rfl]
      · rw [if_neg same, if_neg same]

/-- In sorted entries the lookup finds exactly the entries. -/
theorem lookup_eq_some_iff {name : κ} {value : α} {l : List (κ × α)}
    (h : l.Pairwise (fun a b => a.1 < b.1)) :
    lookup name l = some value ↔ (name, value) ∈ l := by
  induction l with
  | nil => simp [lookup]
  | cons entry rest ih =>
    rcases entry with ⟨head, first⟩
    have hfirst := (List.pairwise_cons.mp h).1
    rw [lookup, List.mem_cons]
    by_cases hit : name = head
    · subst head
      rw [if_pos rfl]
      constructor
      · intro heq
        exact .inl (by rw [Option.some.inj heq])
      · intro hmem
        rcases hmem with equal | member
        · rw [(Prod.mk.inj equal).2]
        · exact absurd (hfirst _ member) (lt_irrefl name)
    · rw [if_neg hit, ih (List.pairwise_cons.mp h).2]
      simp [hit]

theorem filter_map_insert {name : κ} {value : α} {p : α → Bool} {l : List (κ × α)}
    (hvalue : p value = false) (hlookup : ∀ old, lookup name l = some old → p old = false) :
    ((insert name value l).map (·.2)).filter p = (l.map (·.2)).filter p := by
  induction l with
  | nil => simp [insert, hvalue]
  | cons entry rest ih =>
    rcases entry with ⟨other, previous⟩
    unfold insert
    by_cases less : name < other
    · rw [if_pos less]
      simp [hvalue]
    · rw [if_neg less]
      by_cases equal : name = other
      · rw [if_pos equal]
        have hprevious : p previous = false := hlookup previous (by rw [lookup, if_pos equal])
        simp [hvalue, hprevious]
      · rw [if_neg equal]
        have hrest := ih fun old hold => hlookup old (by rw [lookup, if_neg equal, hold])
        simp only [List.map_cons, List.filter_cons, hrest]

/-- A directory without records. -/
def empty : Dir κ α := ⟨[], .nil⟩

/-- The record of a name. -/
def read (d : Dir κ α) (name : κ) : Option α := lookup name d.entries

/-- Writes the record of a name. -/
def write (d : Dir κ α) (name : κ) (value : α) : Dir κ α :=
  ⟨insert name value d.entries, insert_sorted d.sorted⟩

/-- Removes the record of a name. -/
def delete (d : Dir κ α) (name : κ) : Dir κ α :=
  ⟨d.entries.filter fun e => decide (e.1 ≠ name), d.sorted.filter _⟩

/-- The records in name order. -/
def readAll (d : Dir κ α) : List α := d.entries.map (·.2)

@[simp] theorem read_empty (name : κ) : (empty : Dir κ α).read name = none := rfl

theorem read_write (d : Dir κ α) (name other : κ) (value : α) [Decidable (other = name)] :
    (d.write name value).read other = if other = name then some value else d.read other := by
  unfold read write
  rw [lookup_insert]
  by_cases hname : other = name
  · rw [if_pos hname, if_pos hname]
  · rw [if_neg hname, if_neg hname]

theorem read_delete (d : Dir κ α) (name other : κ) [Decidable (other = name)] :
    (d.delete name).read other = if other = name then none else d.read other := by
  unfold read delete
  rw [lookup_filter_ne]
  by_cases hname : other = name
  · rw [if_pos hname, if_pos hname]
  · rw [if_neg hname, if_neg hname]

@[simp] theorem read_write_self (d : Dir κ α) (name : κ) (value : α) :
    (d.write name value).read name = some value := by
  rw [read_write, if_pos rfl]

theorem read_write_of_ne {d : Dir κ α} {name other : κ} {value : α} (h : other ≠ name) :
    (d.write name value).read other = d.read other := by
  rw [read_write, if_neg h]

@[simp] theorem read_delete_self (d : Dir κ α) (name : κ) : (d.delete name).read name = none := by
  rw [read_delete, if_pos rfl]

theorem read_delete_of_ne {d : Dir κ α} {name other : κ} (h : other ≠ name) :
    (d.delete name).read other = d.read other := by
  rw [read_delete, if_neg h]

theorem read_write_eq_some {d : Dir κ α} {name other : κ} {value read : α} :
    (d.write name value).read other = some read ↔
      other = name ∧ read = value ∨ other ≠ name ∧ d.read other = some read := by
  by_cases equal : other = name
  · rw [equal, read_write_self]
    simp [eq_comm]
  · rw [read_write_of_ne equal]
    simp [equal]

theorem read_delete_eq_some {d : Dir κ α} {name other : κ} {read : α} :
    (d.delete name).read other = some read ↔ other ≠ name ∧ d.read other = some read := by
  by_cases equal : other = name
  · rw [equal, read_delete_self]
    simp
  · rw [read_delete_of_ne equal]
    simp [equal]

/-- The records listed are the records read. -/
theorem mem_readAll {d : Dir κ α} {value : α} :
    value ∈ d.readAll ↔ ∃ name, d.read name = some value := by
  unfold readAll read
  rw [List.mem_map]
  constructor
  · rintro ⟨⟨name, _⟩, hmem, rfl⟩
    exact ⟨name, (lookup_eq_some_iff d.sorted).mpr hmem⟩
  · rintro ⟨name, hread⟩
    exact ⟨(name, value), (lookup_eq_some_iff d.sorted).mp hread, rfl⟩

/-- Records that a filter drops may be written without changing what it keeps. -/
theorem filter_readAll_write {d : Dir κ α} {name : κ} {value : α} {p : α → Bool}
    (hvalue : p value = false) (hread : ∀ old, d.read name = some old → p old = false) :
    (d.write name value).readAll.filter p = d.readAll.filter p :=
  filter_map_insert hvalue hread

theorem any_readAll_eq_false {d : Dir κ α} {p : α → Bool} :
    d.readAll.any p = false ↔ ∀ name value, d.read name = some value → p value = false := by
  rw [List.any_eq_false]
  constructor
  · intro h name value hread
    simpa using h value (mem_readAll.mpr ⟨name, hread⟩)
  · intro h value hmem
    obtain ⟨name, hread⟩ := mem_readAll.mp hmem
    simpa using h name value hread

/-- Two directories that read alike are one. -/
theorem ext_read {d d' : Dir κ α} (h : ∀ name, d.read name = d'.read name) : d = d' := by
  have hmem : ∀ e, e ∈ d.entries ↔ e ∈ d'.entries := by
    intro e
    rw [← lookup_eq_some_iff d.sorted, ← lookup_eq_some_iff d'.sorted]
    exact iff_of_eq (congrArg (· = some e.2) (h e.1))
  have hnodup : ∀ d : Dir κ α, d.entries.Nodup := fun d =>
    d.sorted.imp fun {a b} hlt heq => absurd (heq ▸ hlt) (lt_irrefl a.1)
  have hperm : d.entries.Perm d'.entries :=
    (List.perm_ext_iff_of_nodup (hnodup d) (hnodup d')).mpr hmem
  have hentries : d.entries = d'.entries := by
    refine hperm.eq_of_pairwise (fun a b _ _ hab hba => ?_) d.sorted d'.sorted
    exact absurd (lt_trans hab hba) (lt_irrefl a.1)
  cases d
  cases d'
  cases hentries
  rfl

end Dir

end QrWireguard
