import QrWireguard.BePlugin.Message

/-!
# Fields of a request

What the two agents have in common: the array of values that they fill from a request, and the
ways in which a request can bring them down.
-/

namespace QrWireguard.WebAgent

/-- What takes an agent down: an index behind the end of a vector or an array, an exception that
nothing catches, a text that is longer than its buffer, or the process ending itself. -/
inductive Fault where
  | index
  | exception
  | overflow
  | exit
  deriving DecidableEq

/-- The element of a vector that the code reads without a check. -/
def index (l : List Str) (i : Nat) : Except Fault Str :=
  match l[i]? with
  | some s => .ok s
  | none => .error .index

/-- A decoded request. -/
structure Fields where
  subcmd : Str
  count : Int
  keyValue : Vector Str 16
  deriving DecidableEq

/-- A line that has a value. -/
def HasValue (line : Str) : Prop := str ":=" <:+: line

instance decidableHasValue (line : Str) : Decidable (HasValue line) :=
  inferInstanceAs (Decidable (_ <:+: _))

/-- The value of a line, up to the next `:=`. -/
def lineValue (line : Str) : Str := (split (str ":=") line)[1]?.getD []

/-- The loop that fills `KeyValue` from index `i` on, for `n` more fields. -/
def fillLoop (field : Nat → Except Fault Str) (keyValue : Vector Str 16) (i : Nat) :
    Nat → Except Fault (Vector Str 16)
  | 0 => .ok keyValue
  | n + 1 => do
    let value ← field i
    if h : i < 16 then fillLoop field (keyValue.set i value) (i + 1) n else .error .index

/-- The array after the loop. -/
def fillKeyValue (field : Nat → Except Fault Str) (count : Int) : Except Fault (Vector Str 16) :=
  fillLoop field (Vector.replicate 16 []) 0 count.toNat

section
variable {field : Nat → Except Fault Str} {keyValue filled : Vector Str 16} {i n : Nat}

theorem bind_eq_ok {α β : Type} {x : Except Fault α} {f : α → Except Fault β} {b : β} :
    (x >>= f) = .ok b ↔ ∃ a, x = .ok a ∧ f a = .ok b := by
  constructor
  · intro h
    cases x with
    | error e => cases h
    | ok a => exact ⟨a, rfl, h⟩
  · rintro ⟨a, rfl, hf⟩
    exact hf

theorem index_eq_ok {l : List Str} {s : Str} : index l i = .ok s ↔ l[i]? = some s := by
  unfold index
  cases l[i]? <;> simp

theorem split_colonEq_ne_nil : str ":=" ≠ [] := List.cons_ne_nil _ _

/-- The second part of a line is its value. -/
theorem index_lineValue {line s : Str} :
    index (split (str ":=") line) 1 = .ok s ↔ HasValue line ∧ lineValue line = s := by
  rw [index_eq_ok, HasValue, ← split_one_isSome split_colonEq_ne_nil, lineValue]
  cases (split (str ":=") line)[1]? <;> simp

/-- The loop ends when all fields can be read and have room in the array. -/
theorem fillLoop_ok (h : fillLoop field keyValue i n = .ok filled) :
    (n = 0 ∨ i + n ≤ 16) ∧ (∀ j, i ≤ j → j < i + n → ∀ hj : j < 16, field j = .ok filled[j]) ∧
      ∀ j (hj : j < 16), j < i ∨ i + n ≤ j → filled[j] = keyValue[j] := by
  induction n generalizing keyValue i with
  | zero =>
    obtain rfl := Except.ok.inj h
    exact ⟨.inl rfl, fun j hi hn => by omega, fun _ _ _ => rfl⟩
  | succ n ih =>
    unfold fillLoop at h
    cases hfield : field i with
    | error e =>
      rw [hfield] at h
      cases h
    | ok value =>
      rw [hfield] at h
      change (if h : i < 16 then _ else _) = _ at h
      split at h
      · rename_i hi
        obtain ⟨hroom, hread, hkept⟩ := ih h
        refine ⟨.inr (by omega), ?_, ?_⟩
        · intro j hij hjn hj
          by_cases equal : j = i
          · subst equal
            have hself := hkept j hj (.inl (Nat.lt_succ_self j))
            rw [hself, Vector.getElem_set_self, hfield]
          · exact hread j (by omega) (by omega) hj
        · intro j hj hout
          have hother := hkept j hj (by omega)
          rw [hother, Vector.getElem_set_ne _ _ (by omega)]
      · cases h

/-- The loop ends in the array of the values when it can read them. -/
theorem fillLoop_of_ok {v : Nat → Str} (hroom : i + n ≤ 16)
    (h : ∀ j, i ≤ j → j < i + n → field j = .ok (v j)) :
    ∃ filled, fillLoop field keyValue i n = .ok filled := by
  induction n generalizing keyValue i with
  | zero => exact ⟨keyValue, rfl⟩
  | succ n ih =>
    have hfield := h i (Nat.le_refl i) (by omega)
    have hi : i < 16 := by omega
    obtain ⟨filled, hfilled⟩ := @ih (keyValue.set i (v i)) (i + 1) (by omega) fun j hij hjn =>
      h j (by omega) (by omega)
    refine ⟨filled, ?_⟩
    unfold fillLoop
    rw [hfield]
    change (if h : i < 16 then _ else _) = _
    rw [dif_pos hi]
    exact hfilled

/-- The values of an array that has been filled. -/
theorem fillKeyValue_ok {count : Int} (h : fillKeyValue field count = .ok filled) :
    count ≤ 16 ∧ (∀ j : Nat, (j : Int) < count → ∀ hj : j < 16, field j = .ok filled[j]) ∧
      ∀ (j : Nat) (hj : j < 16), count ≤ (j : Int) → filled[j] = [] := by
  obtain ⟨hroom, hread, hkept⟩ := fillLoop_ok h
  refine ⟨by omega, ?_, ?_⟩
  · intro j hlt hj
    exact hread j (Nat.zero_le j) (by omega) hj
  · intro j hj hle
    have hempty := hkept j hj (.inr (by omega))
    rw [hempty, Vector.getElem_replicate]

/-- The array is filled just when the fields can be read and there are at most sixteen. -/
theorem fillKeyValue_isOk {count : Int} :
    (∃ filled, fillKeyValue field count = .ok filled) ↔
      count ≤ 16 ∧ ∀ j : Nat, (j : Int) < count → ∃ v, field j = .ok v := by
  constructor
  · rintro ⟨filled, h⟩
    obtain ⟨hroom, hread, -⟩ := fillKeyValue_ok h
    exact ⟨hroom, fun j hlt => ⟨_, hread j hlt (by omega)⟩⟩
  · rintro ⟨hroom, hread⟩
    have hvalues : ∀ j : Nat, ∃ v, (j : Int) < count → field j = .ok v := by
      intro j
      by_cases hlt : (j : Int) < count
      · obtain ⟨v, hv⟩ := hread j hlt
        exact ⟨v, fun _ => hv⟩
      · exact ⟨[], fun h => absurd h hlt⟩
    choose v hv using hvalues
    exact fillLoop_of_ok (v := v) (by omega) fun j _ hjn => hv j (by omega)

end

end QrWireguard.WebAgent
