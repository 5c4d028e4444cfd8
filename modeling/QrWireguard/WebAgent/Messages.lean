import QrWireguard.WebAgent.Malformed

/-!
# Messages read back

Which messages of the web UI the agents decode to the values they were built from.
-/

namespace QrWireguard.WebAgent

open BePlugin

/-- A text that survives as a value of a message: it has neither of the separators in it. -/
def Plain (s : Str) : Prop := '\n' ∉ s ∧ ¬ HasValue s

instance decidablePlain (s : Str) : Decidable (Plain s) := inferInstanceAs (Decidable (_ ∧ _))

/-- Both agents decode a message to these fields, the C++ agent from the text that is written
for it. -/
def DecodesTo (smsg : RequestMessage) (fields : Fields) : Prop :=
  (∃ text, handleConnectionCPP smsg = some text ∧ Cpp.decode text = .ok fields) ∧
    Go.decode smsg = .ok fields

/-- A field without the newline at its end. -/
def fieldLine (key value : Str) : Str := key ++ str ":=" ++ value

theorem hasValue_fieldLine (key value : Str) : HasValue (fieldLine key value) :=
  ⟨key, value, rfl⟩

theorem lineValue_fieldLine {key value : Str} (hkey : ¬ HasValue key) (hvalue : ¬ HasValue value) :
    lineValue (fieldLine key value) = value := by
  unfold lineValue fieldLine
  rw [split_key hkey, split_of_not_infix hvalue]
  rfl

/-- The value of a line is plain when the line is one. -/
theorem plain_lineValue {line : Str} (h : '\n' ∉ line) : Plain (lineValue line) := by
  unfold lineValue
  cases hsecond : (split (str ":=") line)[1]? with
  | none =>
    refine ⟨List.not_mem_nil, ?_⟩
    rw [HasValue, Option.getD_none, List.infix_nil]
    exact split_colonEq_ne_nil
  | some value =>
    have hmem := List.mem_of_getElem? hsecond
    exact ⟨fun hnl => h (mem_of_mem_piece split_colonEq_ne_nil hmem hnl),
      not_infix_of_mem_split split_colonEq_ne_nil hmem⟩

theorem plain_natDigits (n : Nat) : Plain (natDigits n) := by
  have hdigits : ∀ c ∈ natDigits n, isdigit c = true := fun c hc => isdigit_of_mem_natDigits hc
  constructor
  · intro hmem
    exact absurd (hdigits _ hmem) (by decide)
  · intro hoccurs
    exact absurd (hdigits ':' (hoccurs.subset List.mem_cons_self)) (by decide)

namespace Cpp

theorem stoi_natDigits {n : Nat} (h : n < 2 ^ 31) : stoi (natDigits n) = .ok (n : Int) := by
  have hdigits : ∀ c ∈ natDigits n, isdigit c = true := fun c hc => isdigit_of_mem_natDigits hc
  have hall : (natDigits n).takeWhile isdigit = natDigits n :=
    List.takeWhile_eq_self_iff.mpr hdigits
  have hblank : (natDigits n).dropWhile isspace = natDigits n := by
    obtain ⟨c, cs, hcs⟩ := List.exists_cons_of_ne_nil (natDigits_ne_nil n)
    have hc : isspace c = false := isspace_of_isdigit (hdigits c (hcs ▸ List.mem_cons_self))
    rw [hcs, List.dropWhile_cons, hc]
    rfl
  have hsign : ∀ c ∈ natDigits n, c ≠ '-' ∧ c ≠ '+' := by
    intro c hc
    have hdigit := hdigits c hc
    constructor <;> rintro rfl <;> simp [isdigit] at hdigit
  unfold stoi
  rw [hblank]
  split
  rename_i sign t hsplit
  split at hsplit
  · rename_i ds hds
    exact absurd rfl (hsign '-' (hds ▸ List.mem_cons_self)).1
  · rename_i ds hds
    exact absurd rfl (hsign '+' (hds ▸ List.mem_cons_self)).2
  · obtain ⟨rfl, rfl⟩ := Prod.mk.inj hsplit
    dsimp only
    rw [hall, decimal_natDigits, one_mul, if_pos ⟨natDigits_ne_nil n, by omega, by omega⟩]

/-- What the C++ agent decodes from lines is plain. -/
theorem plain_lineValues {s : Str} {count : Int} {i : Nat} (hi : i < 16) :
    Plain (lineValues (split ['\n'] s) count)[i] := by
  unfold lineValues
  rw [Vector.getElem_ofFn]
  split
  · apply plain_lineValue
    cases hline : (split ['\n'] s)[i + 3]? with
    | none => exact List.not_mem_nil
    | some line =>
      exact not_mem_of_mem_split (List.mem_of_getElem? hline)
  · refine ⟨List.not_mem_nil, ?_⟩
    rw [HasValue, List.infix_nil]
    exact split_colonEq_ne_nil

/-- The lines of a message. -/
def messageLines (subcmd : Str) (fields : List (Str × Str)) : List Str :=
  str "cmd:=HELLO" :: fieldLine (str "subcmd") subcmd ::
    fieldLine (str "field_count") (natDigits fields.length) ::
    fields.map fun f => fieldLine f.1 f.2

/-- The text of a message is made of its lines. -/
theorem handleConnectionCPP_lines {subcmd : Str} {fields : List (Str × Str)}
    (hlen : fields.length ≤ 16) :
    handleConnectionCPP (helloMessage subcmd fields) = some (unlines (messageLines subcmd fields)) := by
  have hfields : fields.flatMap (fun f => field f.1 f.2) =
      unlines (fields.map fun f => fieldLine f.1 f.2) := by
    induction fields with
    | nil => rfl
    | cons f fields ih =>
      have hrest := ih (by simp at hlen; omega)
      rw [List.flatMap_cons, hrest, List.map_cons, unlines_cons]
      simp [field, fieldLine]
  rw [handleConnectionCPP_hello hlen, hfields]
  simp [messageLines, field, fieldLine, str]

theorem not_mem_fieldLine {c : Char} {key value : Str} (hsep : c ∉ str ":=") (hkey : c ∉ key)
    (hvalue : c ∉ value) : c ∉ fieldLine key value := by
  unfold fieldLine
  rw [List.mem_append, List.mem_append]
  rintro ((h | h) | h)
  · exact hkey h
  · exact hsep h
  · exact hvalue h

theorem newline_not_mem_fieldLine {key value : Str} (hkey : '\n' ∉ key) (hvalue : '\n' ∉ value) :
    '\n' ∉ fieldLine key value :=
  not_mem_fieldLine (by decide) hkey hvalue

/-- The lines of a message with plain values. -/
theorem split_messageLines {subcmd : Str} {fields : List (Str × Str)} (hsubcmd : Plain subcmd)
    (hkeys : ∀ f ∈ fields, Plain f.1) (hvalues : ∀ f ∈ fields, Plain f.2) :
    split ['\n'] (unlines (messageLines subcmd fields)) = messageLines subcmd fields ++ [[]] := by
  have hlines : ∀ line ∈ messageLines subcmd fields, '\n' ∉ line := by
    intro line hline
    simp only [messageLines, List.mem_cons, List.mem_map] at hline
    rcases hline with rfl | rfl | rfl | ⟨f, hf, rfl⟩
    · decide
    · exact newline_not_mem_fieldLine (by decide) hsubcmd.1
    · exact newline_not_mem_fieldLine (by decide) (plain_natDigits _).1
    · exact newline_not_mem_fieldLine (hkeys f hf).1 (hvalues f hf).1
  have hsplit := split_unlines hlines []
  rwa [List.append_nil] at hsplit

/-- The C++ agent decodes a message with plain values to them. -/
theorem decode_messageLines {subcmd : Str} {fields : List (Str × Str)} (hlen : fields.length ≤ 16)
    (hsubcmd : Plain subcmd) (hkeys : ∀ f ∈ fields, Plain f.1)
    (hvalues : ∀ f ∈ fields, Plain f.2) :
    decode (unlines (messageLines subcmd fields)) =
      .ok ⟨subcmd, fields.length, keyValues (fields.map (·.2))⟩ := by
  have hfield : ∀ i (hi : i < fields.length),
      (messageLines subcmd fields ++ [[]])[i + 3]? = some (fieldLine fields[i].1 fields[i].2) := by
    intro i hi
    have hroom : i + 3 < (messageLines subcmd fields).length := by
      simp only [messageLines, List.length_cons, List.length_map]
      omega
    rw [List.getElem?_append_left hroom]
    simp [messageLines, hi]
  rw [decode_eq_ok, split_messageLines hsubcmd hkeys hvalues]
  refine ⟨fieldLine (str "subcmd") subcmd, fieldLine (str "field_count") (natDigits fields.length),
    fields.length, ⟨rfl, hasValue_fieldLine _ _, rfl, hasValue_fieldLine _ _, ?_, ?_, ?_⟩, ?_⟩
  · rw [lineValue_fieldLine (by decide) (plain_natDigits _).2]
    exact stoi_natDigits (by omega)
  · omega
  · intro i hlt
    have hi : i < fields.length := by omega
    exact ⟨_, hfield i hi, hasValue_fieldLine _ _⟩
  · have hvector : lineValues (messageLines subcmd fields ++ [[]]) fields.length =
        keyValues (fields.map (·.2)) := by
      apply Vector.ext
      intro i hi
      unfold lineValues
      rw [Vector.getElem_ofFn, keyValues_getElem hi]
      by_cases hlt : i < fields.length
      · have hmem : fields[i] ∈ fields := List.getElem_mem hlt
        rw [if_pos (Int.ofNat_lt.mpr hlt), hfield i hlt, Option.getD_some,
          lineValue_fieldLine (hkeys _ hmem).2 (hvalues _ hmem).2]
        simp [hlt]
      · rw [if_neg fun h => hlt (Int.ofNat_lt.mp h)]
        simp [hlt]
    rw [lineValue_fieldLine (by decide) hsubcmd.2, hvector]

end Cpp


namespace Go

theorem lineValue_field {key value : Str} (hkey : ¬ HasValue key) (hvalue : ¬ HasValue value) :
    entryText (field key value) = value := by
  have hnewline := lineValue_fieldLine hkey (not_infix_append_newline hvalue)
  unfold fieldLine at hnewline
  unfold entryText field
  rw [List.append_assoc, hnewline, trimSuffix_append]

theorem hasValue_field (key value : Str) : HasValue (field key value) :=
  ⟨key, value ++ ['\n'], by simp [field]⟩

/-- The Go agent decodes a message entry by entry. -/
theorem decode_entries {subcmd : Str} {fields : List (Str × Str)} (hlen : fields.length ≤ 16)
    (hsubcmd : Plain subcmd) :
    decode (helloMessage subcmd fields) =
      .ok ⟨subcmd, fields.length, keyValues (fields.map fun f => entryText (field f.1 f.2))⟩ := by
  have hentry : ∀ i (hi : i < 16) (hlt : i < fields.length),
      (helloMessage subcmd fields).keyValue[i] = field fields[i].1 fields[i].2 := by
    intro i hi hlt
    unfold helloMessage
    dsimp only
    rw [keyValues_getElem hi]
    simp [hlt]
  rw [decode_eq_ok]
  refine ⟨fields.length, ⟨hasValue_field _ _, hasValue_field _ _, ?_, by omega, ?_⟩, ?_⟩
  · unfold helloMessage
    dsimp only
    rw [lineValue_field (by decide) (plain_natDigits _).2]
    exact parseInt_natDigits (by omega)
  · intro i hi hlt
    rw [hentry i hi (by omega)]
    exact hasValue_field _ _
  · have hvector : entryTexts (helloMessage subcmd fields) fields.length =
        keyValues (fields.map fun f => entryText (field f.1 f.2)) := by
      apply Vector.ext
      intro i hi
      unfold entryTexts
      rw [Vector.getElem_ofFn, keyValues_getElem hi]
      by_cases hlt : i < fields.length
      · rw [if_pos (Int.ofNat_lt.mpr hlt)]
        change entryText (helloMessage subcmd fields).keyValue[i] = _
        rw [hentry i hi hlt]
        simp [hlt]
      · rw [if_neg fun h => hlt (Int.ofNat_lt.mp h)]
        simp [hlt]
    rw [hvector]
    unfold helloMessage
    dsimp only
    rw [lineValue_field (by decide) hsubcmd.2]

/-- The Go agent decodes a message with plain values to them. -/
theorem decode_helloMessage {subcmd : Str} {fields : List (Str × Str)} (hlen : fields.length ≤ 16)
    (hsubcmd : Plain subcmd) (hkeys : ∀ f ∈ fields, ¬ HasValue f.1)
    (hvalues : ∀ f ∈ fields, Plain f.2) :
    decode (helloMessage subcmd fields) =
      .ok ⟨subcmd, fields.length, keyValues (fields.map (·.2))⟩ := by
  have htexts : fields.map (fun f => entryText (field f.1 f.2)) = fields.map (·.2) :=
    List.map_congr_left fun f hf => lineValue_field (hkeys f hf) (hvalues f hf).2
  rw [decode_entries hlen hsubcmd, htexts]

end Go

/-- A message is decoded to its values just when they are plain. -/
theorem decodesTo_iff {subcmd : Str} {fields : List (Str × Str)} (hlen : fields.length ≤ 16)
    (hsubcmd : Plain subcmd) (hkeys : ∀ f ∈ fields, Plain f.1) :
    DecodesTo (helloMessage subcmd fields)
      ⟨subcmd, fields.length, keyValues (fields.map (·.2))⟩ ↔ ∀ f ∈ fields, Plain f.2 := by
  constructor
  · rintro ⟨⟨text, -, hdecode⟩, -⟩ f hf
    obtain ⟨subcmdLine, fcount, count, -, heq⟩ := Cpp.decode_eq_ok.mp hdecode
    obtain ⟨i, hlt, rfl⟩ := List.mem_iff_getElem.mp hf
    have hi : i < 16 := by omega
    have hvalue : (Cpp.lineValues (split ['\n'] text) count)[i] = fields[i].2 := by
      have hvector := congrArg Fields.keyValue heq
      dsimp only at hvector
      rw [hvector, keyValues_getElem hi]
      simp [hlt]
    rw [← hvalue]
    exact Cpp.plain_lineValues hi
  · intro hvalues
    exact ⟨⟨_, Cpp.handleConnectionCPP_lines hlen,
      Cpp.decode_messageLines hlen hsubcmd hkeys hvalues⟩,
      Go.decode_helloMessage hlen hsubcmd (fun f hf => (hkeys f hf).2) hvalues⟩

end QrWireguard.WebAgent
