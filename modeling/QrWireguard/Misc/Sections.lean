import QrWireguard.Misc.GoStr

/-!
# Lines of sections

Configuration files have lines `key = value` under headings in brackets. A `#` begins a comment,
and blanks around keys and values do not count.
-/

namespace QrWireguard

/-- What a line stands for. -/
inductive Item where
  | header (text : Str)
  | entry (key value : Str)
  deriving DecidableEq

/-- The items of a line. A blank line and a comment have none, and a line that is neither a heading
nor a key with a value is an error. -/
def lineItems (line : Str) : Option (List Item) :=
  let stripped := line.takeWhile (· != '#')
  let key := trim isspace (stripped.takeWhile (· != '='))
  if key.head? = some '[' then some [.header key]
  else match stripped.dropWhile (· != '=') with
    | _ :: value => some [.entry key (trim isspace value)]
    | [] => if key = [] then some [] else none

example : lineItems (str "key = a b # note") = some [.entry (str "key") (str "a b")] := by decide

variable {key : Str}

/-- The value that is read of a text behind a key. -/
def entryValue (value : Str) : Str := trim isspace (value.takeWhile (· != '#'))

/-- A value without a comment only loses the blanks around it. -/
theorem entryValue_of_not_mem {value : Str} (h : '#' ∉ value) :
    entryValue value = trim isspace value := by
  rw [entryValue, List.takeWhile_eq_self_iff.mpr (bne_of_not_mem h)]

/-- A key that is read as it is written. -/
structure IsKey (key : Str) : Prop where
  comment : '#' ∉ key
  equals : '=' ∉ key
  header : key.head? ≠ some '['
  trimmed : trim isspace (key ++ [' ']) = key

instance isKeyDecidable (key : Str) : Decidable (IsKey key) :=
  decidable_of_iff ('#' ∉ key ∧ '=' ∉ key ∧ key.head? ≠ some '[' ∧ trim isspace (key ++ [' ']) = key)
    ⟨fun h => ⟨h.1, h.2.1, h.2.2.1, h.2.2.2⟩, fun h => ⟨h.comment, h.equals, h.header, h.trimmed⟩⟩

/-- A line with a key and a value. -/
theorem lineItems_entry (hkey : IsKey key) (value : Str) :
    lineItems (key ++ str " = " ++ value) = some [.entry key (entryValue value)] := by
  have hcomment : ∀ c ∈ key ++ str " = ", (c != '#') = true := by
    apply bne_of_not_mem
    rw [List.mem_append, not_or]
    exact ⟨hkey.comment, by decide⟩
  have hequals : ∀ c ∈ key ++ [' '], (c != '=') = true := by
    apply bne_of_not_mem
    rw [List.mem_append, not_or]
    exact ⟨hkey.equals, by decide⟩
  have hstripped : key ++ str " = " ++ value.takeWhile (· != '#') =
      (key ++ [' ']) ++ '=' :: ' ' :: value.takeWhile (· != '#') := by
    simp [str]
  have hfront : (key ++ [' '] ++ '=' :: ' ' :: value.takeWhile (· != '#')).takeWhile (· != '=') =
      key ++ [' '] := by
    rw [List.takeWhile_append_of_pos hequals]
    simp
  have hback : (key ++ [' '] ++ '=' :: ' ' :: value.takeWhile (· != '#')).dropWhile (· != '=') =
      '=' :: ' ' :: value.takeWhile (· != '#') := by
    rw [List.dropWhile_append_of_pos hequals]
    simp
  unfold lineItems
  rw [List.takeWhile_append_of_pos hcomment, hstripped]
  dsimp only
  rw [hfront, hback, hkey.trimmed, if_neg hkey.header]
  rfl

end QrWireguard
