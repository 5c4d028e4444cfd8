import Mathlib.Logic.Function.Basic
import QrWireguard.Misc.Split

/-!
# Sections of options

A section of a UCI configuration file: a heading with its type, a line for each option and a blank
line. A section has values for some keys, and its options stand in the order of the keys.
-/

namespace QrWireguard

variable {κ β : Type}

/-! ## Entries -/

/-- The entries of the keys that have a value. -/
def entries (keys : List κ) (value : κ → Option β) : List (κ × β) :=
  keys.filterMap fun key => (value key).map (Prod.mk key)

section
variable {keys : List κ} {value value' : κ → Option β} {key : κ} {b : β}

theorem mem_entries : (key, b) ∈ entries keys value ↔ key ∈ keys ∧ value key = some b := by
  unfold entries
  constructor
  · intro h
    obtain ⟨key', hkey', hvalue⟩ := List.mem_filterMap.mp h
    obtain ⟨b', hb', heq⟩ := Option.map_eq_some_iff.mp hvalue
    cases heq
    exact ⟨hkey', hb'⟩
  · rintro ⟨hkey, hb⟩
    exact List.mem_filterMap.mpr ⟨key, hkey, by rw [hb]; rfl⟩

/-- The entries determine the value of every key. -/
theorem entries_eq_iff :
    entries keys value = entries keys value' ↔ ∀ key ∈ keys, value key = value' key := by
  constructor
  · intro h key hkey
    apply Option.ext
    intro b
    have hmem : (key, b) ∈ entries keys value ↔ (key, b) ∈ entries keys value' := by rw [h]
    rw [mem_entries, mem_entries] at hmem
    simpa [hkey] using hmem
  · intro h
    refine List.filterMap_congr fun key hkey => ?_
    rw [h key hkey]

end

/-! ## Text -/

section
variable {name : κ → Str} {entry entry' : κ × Str} {options options' : List (κ × Str)} {type : Str}

/-- The line of an option. -/
def optionLine (name : κ → Str) (entry : κ × Str) : Str :=
  str "        option " ++ name entry.1 ++ str " '" ++ entry.2 ++ str "'"

/-- The text of a section. -/
def sectionText (name : κ → Str) (type : Str) (options : List (κ × Str)) : Str :=
  unlines ((str "config " ++ type) :: options.map (optionLine name) ++ [[]])

/-- The text an option adds. -/
def optionText (name : κ → Str) (key : κ) : Option Str → Str
  | none => []
  | some v => optionLine name (key, v) ++ str "\n"

theorem optionText_some (key : κ) (v : Str) : optionText name key (some v) =
    str "        option " ++ name key ++ str " '" ++ v ++ str "'\n" := by
  rw [optionText, optionLine, List.append_assoc]
  rfl

theorem sectionText_entries (name : κ → Str) (type : Str) (keys : List κ)
    (value : κ → Option Str) : sectionText name type (entries keys value) =
      str "config " ++ type ++ str "\n" ++
        (keys.flatMap fun key => optionText name key (value key)) ++ str "\n" := by
  have hoptions : unlines ((entries keys value).map (optionLine name)) =
      keys.flatMap fun key => optionText name key (value key) := by
    induction keys with
    | nil => rfl
    | cons key keys ih =>
      rw [List.flatMap_cons, ← ih]
      cases hvalue : value key with
      | none => simp [entries, hvalue, optionText]
      | some v => simp [entries, hvalue, optionText, str]
  rw [sectionText, List.cons_append, unlines_cons, unlines_append, hoptions]
  simp [str]

theorem optionLine_inj (hname : ∀ key, ' ' ∉ name key) (hinj : Function.Injective name)
    (h : optionLine name entry = optionLine name entry') : entry = entry' := by
  simp only [optionLine, List.append_assoc] at h
  have htail := List.append_cancel_left h
  obtain ⟨hkey, hvalue⟩ := append_boundary_inj (hname entry.1) (hname entry'.1)
    (.inr rfl) (.inr rfl) htail
  have hvalue' := List.append_cancel_right (List.append_cancel_left hvalue)
  exact Prod.ext (hinj hkey) hvalue'

/-- A section can be told from its text when its parts hold no line break. -/
theorem sectionText_inj (hname : ∀ key, ' ' ∉ name key ∧ '\n' ∉ name key)
    (hinj : Function.Injective name) (htype : '\n' ∉ type)
    (hoptions : ∀ entry ∈ options, '\n' ∉ entry.2)
    (hoptions' : ∀ entry ∈ options', '\n' ∉ entry.2)
    (h : sectionText name type options = sectionText name type options') :
    options = options' := by
  have hline : ∀ entry : κ × Str, '\n' ∉ entry.2 → '\n' ∉ optionLine name entry := by
    intro entry hvalue
    simp only [optionLine, List.mem_append, not_or]
    exact ⟨⟨⟨⟨by decide, (hname entry.1).2⟩, by decide⟩, hvalue⟩, by decide⟩
  have hlines : ∀ os : List (κ × Str), (∀ entry ∈ os, '\n' ∉ entry.2) →
      ∀ line ∈ (str "config " ++ type) :: os.map (optionLine name) ++ [[]], '\n' ∉ line := by
    intro os hos line hmem
    rcases List.mem_append.mp hmem with hmem | hmem
    · rcases List.mem_cons.mp hmem with rfl | hmem
      · rw [List.mem_append, not_or]
        exact ⟨by decide, htype⟩
      · obtain ⟨entry, hentry, rfl⟩ := List.mem_map.mp hmem
        exact hline entry (hos entry hentry)
    · obtain rfl := List.mem_singleton.mp hmem
      exact List.not_mem_nil
  have heq := unlines_inj (hlines options hoptions) (hlines options' hoptions') h
  have hmap := (List.cons.inj (List.append_cancel_right heq)).2
  have hinjline : Function.Injective (optionLine name) :=
    fun _ _ => optionLine_inj (fun key => (hname key).1) hinj
  exact List.map_injective_iff.mpr hinjline hmap

end

end QrWireguard
