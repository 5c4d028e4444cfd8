import QrWireguard.WebAgent.Messages

/-!
# Overflows

When the texts that the C++ agent formats for a request are longer than their buffers. Requests
that cannot be decoded take the agent down before that.
-/

namespace QrWireguard.WebAgent.Cpp

theorem ok_bind {α β : Type} (a : α) (f : α → Except Fault β) :
    (Except.ok a : Except Fault α) >>= f = f a := rfl

theorem bind_ne_overflow {α β : Type} {x : Except Fault α} {f : α → Except Fault β}
    (hx : x ≠ .error .overflow) (hf : ∀ a, f a ≠ .error .overflow) :
    x >>= f ≠ .error .overflow := by
  cases x with
  | error fault =>
    intro h
    apply hx
    cases h
    rfl
  | ok a => exact hf a

theorem index_ne_overflow (l : List Str) (i : Nat) : index l i ≠ .error .overflow := by
  intro h
  unfold index at h
  split at h
  · cases h
  · cases h

theorem stoi_ne_overflow (s : Str) : stoi s ≠ .error .overflow := by
  intro h
  unfold stoi at h
  split at h
  dsimp only at h
  split at h
  · cases h
  · cases h

theorem fillLoop_ne_overflow {field : Nat → Except Fault Str}
    (hfield : ∀ i, field i ≠ .error .overflow) (keyValue : Vector Str 16) (i n : Nat) :
    fillLoop field keyValue i n ≠ .error .overflow := by
  induction n generalizing keyValue i with
  | zero =>
    intro h
    cases h
  | succ n ih =>
    apply bind_ne_overflow (hfield i)
    intro value
    split
    · exact ih _ _
    · intro h
      cases h

/-- Nothing is formatted while a request is decoded. -/
theorem decode_ne_overflow (s : Str) : decode s ≠ .error .overflow := by
  apply bind_ne_overflow (index_ne_overflow _ _)
  intro subcmd
  apply bind_ne_overflow (index_ne_overflow _ _)
  intro fcount
  apply bind_ne_overflow (index_ne_overflow _ _)
  intro countText
  apply bind_ne_overflow (stoi_ne_overflow _)
  intro count
  have hfield : ∀ i, fieldValue (split ['\n'] s) i ≠ .error .overflow := by
    intro i
    exact bind_ne_overflow (index_ne_overflow _ _) fun line => index_ne_overflow _ _
  apply bind_ne_overflow (fillLoop_ne_overflow hfield _ _ _)
  intro keyValue
  apply bind_ne_overflow (index_ne_overflow _ _)
  intro name h
  cases h

theorem sprintf256_error {text : Str} {fault : Fault} (h : sprintf256 text = .error fault) :
    fault = .overflow := by
  unfold sprintf256 at h
  split at h
  · cases h
  · cases h
    rfl

theorem runScmd_error {scmd : Str} {fault : Fault} (h : runScmd scmd = .error fault) :
    fault = .overflow := by
  unfold runScmd at h
  cases hscmd : sprintf256 scmd with
  | error f =>
    rw [hscmd] at h
    cases h
    exact sprintf256_error hscmd
  | ok buf =>
    rw [hscmd] at h
    cases hcommand : runCommand buf with
    | error f =>
      obtain rfl := sprintf256_error hcommand
      change (runCommand buf >>= _) = _ at h
      rw [hcommand] at h
      cases h
      rfl
    | ok command =>
      change (runCommand buf >>= _) = _ at h
      rw [hcommand] at h
      cases h

/-- Whatever goes wrong in an action is a text that is too long. -/
theorem action_error {subcmd : Str} {keyValue : Vector Str 16} {fault : Fault}
    (h : action subcmd keyValue = .error fault) : fault = .overflow := by
  have hpure : ∀ handled : Handled, (pure handled : Except Fault Handled) ≠ .error fault := by
    intro handled h
    cases h
  unfold action at h
  cases hcmd : vtyshCmd subcmd with
  | none =>
    rw [hcmd] at h
    exact absurd h (hpure _)
  | some command =>
    rw [hcmd] at h
    cases command with
    | changeAdminPassword => exact absurd h (hpure _)
    | setWireguardGlobalConfig => exact absurd h (hpure _)
    | setEthernetInterface =>
      dsimp only at h
      split at h
      · exact runScmd_error h
      · exact absurd h (hpure _)
    | setWireguardInterface =>
      dsimp only at h
      split at h
      · exact runScmd_error h
      · exact absurd h (hpure _)
    | _ => exact runScmd_error h

theorem action_overflow {subcmd : Str} {keyValue : Vector Str 16} :
    action subcmd keyValue = .error .overflow ↔ ¬ Fits subcmd keyValue := by
  rw [← action_isOk]
  constructor
  · rintro h ⟨handled, hok⟩
    rw [h] at hok
    cases hok
  · intro h
    cases haction : action subcmd keyValue with
    | error fault => rw [action_error haction]
    | ok handled => exact absurd ⟨handled, haction⟩ h

/-- A request overflows a buffer just when it can be decoded and its command line does not fit. -/
theorem doAction_overflow {s : Str} : doAction s = .error .overflow ↔
    ∃ fields, decode s = .ok fields ∧ ¬ Fits fields.subcmd fields.keyValue := by
  unfold doAction
  have hne := decode_ne_overflow s
  generalize decode s = decoded at hne ⊢
  cases decoded with
  | error fault =>
    apply iff_of_false
    · intro h
      cases h
      exact hne rfl
    · rintro ⟨fields, h, -⟩
      cases h
  | ok fields =>
    change action fields.subcmd fields.keyValue = _ ↔ _
    rw [action_overflow]
    constructor
    · exact fun h => ⟨fields, rfl, h⟩
    · rintro ⟨_, heq, h⟩
      obtain rfl := Except.ok.inj heq
      exact h

/-! ## The fields that are read -/

section
variable (fields : List (Str × Str))

/-- The lines of the fields of a request as the agent finds them: what stands behind a NUL is not
read. -/
def readLines : List Str :=
  split ['\n'] (cstr (unlines (fields.map fun f => fieldLine f.1 f.2)))

/-- There is a line with a value for each field. -/
def ReadsAll : Prop :=
  ∀ i < fields.length, ∃ line, (readLines fields)[i]? = some line ∧ HasValue line

/-- The value that is read for a field. -/
def readValue (i : Nat) : Str := lineValue ((readLines fields)[i]?.getD [])

/-- The values that are read. -/
def readValues : Vector Str 16 :=
  Vector.ofFn fun i => if (i : Nat) < fields.length then readValue fields i else []

theorem get_readValues (i : Fin 16) : (readValues fields).get i =
    if (i : Nat) < fields.length then readValue fields i else [] :=
  Vector.getElem_ofFn i.isLt

end

section
variable {subcmd : Str} {fields : List (Str × Str)}

/-- The lines in front of the fields. -/
def headLines (subcmd : Str) (count : Nat) : List Str :=
  [str "cmd:=HELLO", fieldLine (str "subcmd") subcmd,
    fieldLine (str "field_count") (natDigits count)]

theorem unlines_messageLines : unlines (messageLines subcmd fields) =
    unlines (headLines subcmd fields.length) ++
      unlines (fields.map fun f => fieldLine f.1 f.2) := by
  rw [← unlines_append]
  rfl

theorem newline_not_mem_headLines (hsubcmd : '\n' ∉ subcmd) {count : Nat} :
    ∀ line ∈ headLines subcmd count, '\n' ∉ line := by
  intro line hline
  simp only [headLines, List.mem_cons, List.not_mem_nil, or_false] at hline
  rcases hline with rfl | rfl | rfl
  · decide
  · exact newline_not_mem_fieldLine (by decide) hsubcmd
  · exact newline_not_mem_fieldLine (by decide) (plain_natDigits _).1

theorem nul_not_mem_headLines (hsubcmd : '\x00' ∉ subcmd) {count : Nat} :
    '\x00' ∉ unlines (headLines subcmd count) := by
  have hdigits : '\x00' ∉ natDigits count := by
    intro hmem
    exact absurd (isdigit_of_mem_natDigits hmem) (by decide)
  intro hmem
  obtain ⟨line, hline, hnul⟩ := List.mem_flatMap.mp hmem
  have hnul : '\x00' ∈ line := by simpa using hnul
  simp only [headLines, List.mem_cons, List.not_mem_nil, or_false] at hline
  rcases hline with rfl | rfl | rfl
  · exact absurd hnul (by decide)
  · exact not_mem_fieldLine (by decide) (by decide) hsubcmd hnul
  · exact not_mem_fieldLine (by decide) (by decide) hdigits hnul

theorem cstr_append {s t : Str} (h : '\x00' ∉ s) : cstr (s ++ t) = s ++ cstr t := by
  unfold cstr
  exact List.takeWhile_append_of_pos (bne_of_not_mem h)

theorem cstr_append_of_mem {s t : Str} (h : '\x00' ∈ s) : cstr (s ++ t) = cstr s := by
  have hstop : (s.takeWhile (· != '\x00')).length ≠ s.length := by
    intro hlen
    have hall := (List.takeWhile_prefix (· != '\x00')).eq_of_length hlen
    rw [← hall] at h
    simpa using List.mem_takeWhile_imp h
  rw [cstr, List.takeWhile_append, if_neg hstop]
  rfl

/-- The lines of a request as the agent finds them. -/
theorem split_request (hsubcmd : Plain subcmd) (hnul : '\x00' ∉ subcmd) :
    split ['\n'] (cstr (unlines (messageLines subcmd fields))) =
      headLines subcmd fields.length ++ readLines fields := by
  rw [unlines_messageLines, cstr_append (nul_not_mem_headLines hnul),
    split_unlines (newline_not_mem_headLines hsubcmd.1)]
  rfl

/-- A request of the web UI is decoded when there is a line with a value for each field. -/
theorem decode_request (hlen : fields.length ≤ 16) (hsubcmd : Plain subcmd)
    (hnul : '\x00' ∉ subcmd) {decoded : Fields} :
    decode (cstr (unlines (messageLines subcmd fields))) = .ok decoded ↔
      ReadsAll fields ∧ decoded = ⟨subcmd, fields.length, readValues fields⟩ := by
  have hline : ∀ i, (headLines subcmd fields.length ++ readLines fields)[i + 3]? =
      (readLines fields)[i]? := fun i => rfl
  have hcount : lineValue (fieldLine (str "field_count") (natDigits fields.length)) =
      natDigits fields.length := lineValue_fieldLine (by decide) (plain_natDigits _).2
  have hstoi : stoi (natDigits fields.length) = .ok (fields.length : Int) :=
    stoi_natDigits (by omega)
  have hvalues : lineValues (headLines subcmd fields.length ++ readLines fields) fields.length =
      readValues fields := by
    apply Vector.ext
    intro i hi
    unfold lineValues readValues readValue
    rw [Vector.getElem_ofFn, Vector.getElem_ofFn, hline]
    simp only [Nat.cast_lt]
  rw [decode_eq_ok, split_request hsubcmd hnul]
  constructor
  · rintro ⟨subcmdLine, fcount, count, h, rfl⟩
    obtain rfl := Option.some.inj h.subcmd_line
    obtain rfl := Option.some.inj h.fcount_line
    have hnumber := h.count_number
    rw [hcount, hstoi] at hnumber
    obtain rfl := Except.ok.inj hnumber
    constructor
    · intro i hi
      exact h.fields i (by exact_mod_cast hi)
    · rw [hvalues, lineValue_fieldLine (by decide) hsubcmd.2]
  · rintro ⟨hreads, rfl⟩
    refine ⟨_, _, fields.length, ⟨rfl, hasValue_fieldLine _ _, rfl, hasValue_fieldLine _ _, ?_, ?_,
      ?_⟩, ?_⟩
    · rw [hcount, hstoi]
    · exact_mod_cast hlen
    · intro i hi
      exact hreads i (by exact_mod_cast hi)
    · rw [hvalues, lineValue_fieldLine (by decide) hsubcmd.2]

/-- A request of the web UI that fits its buffer is handled by `doAction`. -/
theorem onIncomingMsg_request (hsubcmd : Plain subcmd) (hnul : '\x00' ∉ subcmd) :
    onIncomingMsg (unlines (messageLines subcmd fields)) =
      if maxPacketSize < (unlines (messageLines subcmd fields)).length ∨
          maxPacketSize ≤ (cstr (unlines (messageLines subcmd fields))).length then
        .error .overflow
      else doAction (cstr (unlines (messageLines subcmd fields))) := by
  have hfirst : index (split ['\n'] (cstr (unlines (messageLines subcmd fields)))) 0 =
      .ok (str "cmd:=HELLO") := by
    rw [split_request hsubcmd hnul]
    rfl
  have hcmd : index (split (str ":=") (str "cmd:=HELLO")) 1 = .ok (str "HELLO") := by decide
  unfold onIncomingMsg
  split
  · rfl
  · dsimp only
    rw [hfirst, ok_bind, hcmd, ok_bind, if_pos rfl]

theorem onIncomingMsg_short (hsubcmd : Plain subcmd) (hnul : '\x00' ∉ subcmd)
    (hshort : (unlines (messageLines subcmd fields)).length < maxPacketSize) :
    onIncomingMsg (unlines (messageLines subcmd fields)) =
      doAction (cstr (unlines (messageLines subcmd fields))) := by
  have hcut : (cstr (unlines (messageLines subcmd fields))).length ≤
      (unlines (messageLines subcmd fields)).length := (List.takeWhile_sublist _).length_le
  rw [onIncomingMsg_request hsubcmd hnul, if_neg (by omega)]

/-- A request that is decoded is handed to the switch. -/
theorem doAction_request (hlen : fields.length ≤ 16) (hsubcmd : Plain subcmd)
    (hnul : '\x00' ∉ subcmd) {handled : Handled} :
    doAction (cstr (unlines (messageLines subcmd fields))) = .ok handled ↔
      ReadsAll fields ∧ action subcmd (readValues fields) = .ok handled := by
  unfold doAction
  rw [bind_eq_ok]
  constructor
  · rintro ⟨decoded, hdecode, haction⟩
    obtain ⟨hreads, rfl⟩ := (decode_request hlen hsubcmd hnul).mp hdecode
    exact ⟨hreads, haction⟩
  · rintro ⟨hreads, haction⟩
    exact ⟨_, (decode_request hlen hsubcmd hnul).mpr ⟨hreads, rfl⟩, haction⟩

/-- A request of the web UI that is short enough overflows a buffer just when it is decoded to
values with which the command line does not fit. -/
theorem onIncomingMsg_overflow (hlen : fields.length ≤ 16) (hsubcmd : Plain subcmd)
    (hnul : '\x00' ∉ subcmd)
    (hshort : (unlines (messageLines subcmd fields)).length < maxPacketSize) :
    onIncomingMsg (unlines (messageLines subcmd fields)) = .error .overflow ↔
      ReadsAll fields ∧ ¬ Fits subcmd (readValues fields) := by
  rw [onIncomingMsg_short hsubcmd hnul hshort, doAction_overflow]
  constructor
  · rintro ⟨decoded, hdecode, hfits⟩
    obtain ⟨hreads, rfl⟩ := (decode_request hlen hsubcmd hnul).mp hdecode
    exact ⟨hreads, hfits⟩
  · rintro ⟨hreads, hfits⟩
    exact ⟨_, (decode_request hlen hsubcmd hnul).mpr ⟨hreads, rfl⟩, hfits⟩

/-- Plain values without a NUL are read line by line. -/
theorem readLines_append (hkeys : ∀ f ∈ fields, Plain f.1 ∧ '\x00' ∉ f.1)
    (hvalues : ∀ f ∈ fields, Plain f.2 ∧ '\x00' ∉ f.2) (rest : List (Str × Str)) :
    readLines (fields ++ rest) = fields.map (fun f => fieldLine f.1 f.2) ++ readLines rest := by
  have hnul : '\x00' ∉ unlines (fields.map fun f => fieldLine f.1 f.2) := by
    intro hmem
    obtain ⟨line, hline, hnul⟩ := List.mem_flatMap.mp hmem
    obtain ⟨f, hf, rfl⟩ := List.mem_map.mp hline
    have hnul : '\x00' ∈ fieldLine f.1 f.2 := by simpa using hnul
    exact not_mem_fieldLine (by decide) (hkeys f hf).2 (hvalues f hf).2 hnul
  have hnewline : ∀ line ∈ fields.map (fun f => fieldLine f.1 f.2), '\n' ∉ line := by
    intro line hline
    obtain ⟨f, hf, rfl⟩ := List.mem_map.mp hline
    exact newline_not_mem_fieldLine (hkeys f hf).1.1 (hvalues f hf).1.1
  unfold readLines
  rw [List.map_append, unlines_append, cstr_append hnul, split_unlines hnewline]

/-- Nothing is read behind a NUL in a value. -/
theorem readLines_of_nul {key value : Str} (hkey : '\n' ∉ key ∧ '\x00' ∉ key) (hvalue : '\n' ∉ value)
    (hnul : '\x00' ∈ value) (rest : List (Str × Str)) :
    readLines ((key, value) :: rest) = [fieldLine key (cstr value)] := by
  have hline : '\n' ∉ fieldLine key (cstr value) :=
    newline_not_mem_fieldLine hkey.1 fun hmem => hvalue ((List.takeWhile_sublist _).subset hmem)
  have hprefix : '\x00' ∉ key ++ str ":=" := by
    rw [List.mem_append, not_or]
    exact ⟨hkey.2, by decide⟩
  unfold readLines
  rw [List.map_cons, unlines_cons, fieldLine, List.append_assoc, cstr_append hprefix,
    cstr_append_of_mem hnul]
  apply split_of_not_infix
  rwa [List.singleton_infix_iff]

/-- The first line of a field whose value is on one line ends at a NUL in the value. -/
theorem getElem?_readLines_cons {key value : Str} (hkey : '\n' ∉ key ∧ '\x00' ∉ key)
    (hvalue : '\n' ∉ value) (rest : List (Str × Str)) :
    (readLines ((key, value) :: rest))[0]? = some (fieldLine key (cstr value)) := by
  by_cases hnul : '\x00' ∈ value
  · rw [readLines_of_nul hkey hvalue hnul]
    rfl
  · have hline : '\n' ∉ fieldLine key value := newline_not_mem_fieldLine hkey.1 hvalue
    have hprefix : '\x00' ∉ fieldLine key value := not_mem_fieldLine (by decide) hkey.2 hnul
    have hbreak : ∀ t : Str, cstr ('\n' :: t) = '\n' :: cstr t := fun t => rfl
    unfold readLines
    rw [List.map_cons, unlines_cons, cstr_append hprefix, hbreak, split_append_char hline,
      cstr_of_not_mem hnul]
    rfl

/-- Plain values without a NUL are read as they are. -/
theorem readValue_of_plain (hkeys : ∀ f ∈ fields, Plain f.1 ∧ '\x00' ∉ f.1)
    (hvalues : ∀ f ∈ fields, Plain f.2 ∧ '\x00' ∉ f.2) :
    ReadsAll fields ∧ ∀ i (hi : i < fields.length), readValue fields i = fields[i].2 := by
  have hlines : ∀ i (hi : i < fields.length),
      (readLines fields)[i]? = some (fieldLine fields[i].1 fields[i].2) := by
    intro i hi
    have happend := readLines_append hkeys hvalues []
    rw [List.append_nil] at happend
    rw [happend, List.getElem?_append_left (by simpa using hi)]
    simp [hi]
  constructor
  · intro i hi
    exact ⟨_, hlines i hi, hasValue_fieldLine _ _⟩
  · intro i hi
    have hmem : fields[i] ∈ fields := List.getElem_mem hi
    rw [readValue, hlines i hi, Option.getD_some,
      lineValue_fieldLine (hkeys _ hmem).1.2 (hvalues _ hmem).1.2]

end

end QrWireguard.WebAgent.Cpp
