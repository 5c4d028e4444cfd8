import QrWireguard.Misc.GoStr

/-!
# Messages to the agent

The requests the web UI sends to the agent through its plugin. A value is written behind its key
and a `:=`, and a newline ends it.
-/

namespace QrWireguard.BePlugin

/-- The array of values has a first place. -/
instance neZeroKeyValue : NeZero 16 := ⟨by decide⟩

/-- `RequestMessage`. -/
structure RequestMessage where
  cmd : Str
  subCmd : Str
  fieldCount : Str
  keyValue : Vector Str 16
  deriving DecidableEq

/-- A value behind its key. -/
def field (key value : Str) : Str := key ++ str ":=" ++ value ++ ['\n']

/-- The `KeyValue` array with the given entries in front. -/
def keyValues (fields : List Str) : Vector Str 16 := Vector.ofFn fun i => fields[i]?.getD []

/-- The message of a handler: its subcommand and its fields. -/
def helloMessage (subcmd : Str) (fields : List (Str × Str)) : RequestMessage where
  cmd := str "cmd:=HELLO\n"
  subCmd := field (str "subcmd") subcmd
  fieldCount := field (str "field_count") (natDigits fields.length)
  keyValue := keyValues (fields.map fun f => field f.1 f.2)

/-- The key values from the second one to the one before the count. Reading behind the array
panics. -/
def appendKeyValues (smsg : RequestMessage) (count : Nat) (t : Str) : Option Str :=
  (List.range' 1 (count - 1)).foldlM (fun t i => (smsg.keyValue[i]?).map (t ++ ·)) t

/-- The text `handleConnectionCPP` writes to the C++ agent. It has no text for a field count
without `:=`, where the handler panics. -/
def handleConnectionCPP (smsg : RequestMessage) : Option Str :=
  match (split (str ":=") smsg.fieldCount)[1]? with
  | none => none
  | some t =>
    match parseInt (trimSuffix ['\n'] t) with
    | none => some (smsg.cmd ++ smsg.subCmd ++ smsg.fieldCount)
    | some count =>
      (appendKeyValues smsg count.toNat (smsg.keyValue.get 0)).map fun t =>
        smsg.cmd ++ smsg.subCmd ++ smsg.fieldCount ++ t

/-- A key without a separator in it ends at the first separator. -/
theorem split_key {key : Str} (hkey : ¬ str ":=" <:+: key) (value : Str) :
    split (str ":=") (key ++ str ":=" ++ value) = key :: split (str ":=") value := by
  apply split_append (List.cons_ne_nil _ _)
  rintro b c rfl hc ⟨t, ht⟩
  obtain ⟨x, xs, rfl⟩ := List.exists_cons_of_ne_nil hc
  obtain ⟨rfl, hrest⟩ := List.cons.inj ht
  cases xs with
  | nil => exact absurd (List.cons.inj hrest).1 (by decide)
  | cons y ys =>
    obtain rfl : '=' = y := (List.cons.inj hrest).1
    exact hkey ⟨b, ys, by simp [str]⟩

/-- A newline at the end does not complete a separator. -/
theorem not_infix_append_newline {s : Str} (h : ¬ str ":=" <:+: s) :
    ¬ str ":=" <:+: s ++ ['\n'] := by
  rintro ⟨a, b, hab⟩
  rcases List.eq_nil_or_concat b with rfl | ⟨b, c, rfl⟩
  · have hlast := congrArg List.getLast? hab
    simp [str] at hlast
  · apply h
    refine ⟨a, b, ?_⟩
    rw [List.concat_eq_append, ← List.append_assoc] at hab
    exact List.append_inj_left' hab rfl

theorem keyValues_getElem {fields : List Str} {i : Nat} (hi : i < 16) :
    (keyValues fields)[i] = fields[i]?.getD [] := by
  unfold keyValues
  rw [Vector.getElem_ofFn]
  rfl

theorem foldlM_keyValue {smsg : RequestMessage} {l : List Nat} (h : ∀ i ∈ l, i < 16) (t : Str) :
    l.foldlM (fun t i => (smsg.keyValue[i]?).map (t ++ ·)) t =
      some (t ++ l.flatMap fun i => smsg.keyValue[i]?.getD []) := by
  induction l generalizing t with
  | nil => simp
  | cons i l ih =>
    have hi : i < 16 := h i List.mem_cons_self
    have hrest := ih (fun j hj => h j (List.mem_cons_of_mem _ hj)) (t ++ smsg.keyValue[i])
    rw [List.foldlM_cons, Vector.getElem?_eq_getElem hi]
    simp only [Option.map_some, Option.bind_eq_bind, Option.bind_some, hrest, List.flatMap_cons,
      Vector.getElem?_eq_getElem hi, Option.getD_some, List.append_assoc]

/-- The entries of a message are written one after the other. -/
theorem appendKeyValues_hello {subcmd : Str} {fields : List (Str × Str)}
    (hlen : fields.length ≤ 16) :
    appendKeyValues (helloMessage subcmd fields) fields.length ((helloMessage subcmd fields).keyValue.get 0) =
      some (fields.flatMap fun f => field f.1 f.2) := by
  unfold appendKeyValues
  rw [foldlM_keyValue]
  · refine congrArg some ?_
    cases fields with
    | nil => exact List.append_nil _
    | cons f fields =>
      have hhead : (helloMessage subcmd (f :: fields)).keyValue.get 0 = field f.1 f.2 :=
        keyValues_getElem (Nat.zero_lt_succ 15)
      have htail : (List.range' 1 ((f :: fields).length - 1)).map
          (fun i => (helloMessage subcmd (f :: fields)).keyValue[i]?.getD []) =
          fields.map fun f => field f.1 f.2 := by
        apply List.ext_getElem
        · simp
        · intro i hi _
          simp only [List.length_map, List.length_range', List.length_cons,
            Nat.add_sub_cancel] at hi
          simp only [List.length_cons] at hlen
          have hroom : 1 + i < 16 := by omega
          simp only [List.getElem_map, List.getElem_range', one_mul, helloMessage,
            Vector.getElem?_eq_getElem hroom, Option.getD_some, keyValues_getElem hroom]
          simp [Nat.add_comm 1 i, hi]
      rw [hhead, List.flatMap_def, htail, List.flatMap_cons, List.flatMap_def]
  · intro i hi
    rw [List.mem_range'_1] at hi
    omega

/-- The text of a message. -/
theorem handleConnectionCPP_hello {subcmd : Str} {fields : List (Str × Str)}
    (hlen : fields.length ≤ 16) :
    handleConnectionCPP (helloMessage subcmd fields) =
      some (str "cmd:=HELLO\n" ++ field (str "subcmd") subcmd ++
        field (str "field_count") (natDigits fields.length) ++
        fields.flatMap fun f => field f.1 f.2) := by
  have hdigits : ':' ∉ natDigits fields.length := by
    intro hmem
    have hdigit := isdigit_of_mem_natDigits hmem
    simp [isdigit] at hdigit
  have hplain : ¬ str ":=" <:+: natDigits fields.length := fun hoccurs =>
    hdigits (hoccurs.subset List.mem_cons_self)
  have hcount : (split (str ":=") (helloMessage subcmd fields).fieldCount)[1]? =
      some (natDigits fields.length ++ ['\n']) := by
    unfold helloMessage field
    dsimp only
    rw [List.append_assoc, split_key (by decide),
      split_of_not_infix (not_infix_append_newline hplain)]
    rfl
  unfold handleConnectionCPP
  rw [hcount]
  dsimp only
  rw [trimSuffix_append, parseInt_natDigits (by omega)]
  dsimp only
  rw [Int.toNat_natCast, appendKeyValues_hello hlen]
  rfl

example : handleConnectionCPP (helloMessage (str "SET_WIREGUARD_INTERFACE")
    [(str "Addresses", str "10.0.0.1/24"), (str "ListenPort", str "51820")]) =
    some (str "cmd:=HELLO\nsubcmd:=SET_WIREGUARD_INTERFACE\nfield_count:=2\nAddresses:=10.0.0.1/24\nListenPort:=51820\n") := by
  decide +kernel

end QrWireguard.BePlugin
