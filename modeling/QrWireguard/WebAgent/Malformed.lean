import QrWireguard.WebAgent.Cpp
import QrWireguard.WebAgent.Go

/-!
# Malformed requests

Neither agent checks what it decodes. A request gets a reply just when it has all the lines and
values that the agent reads, and when its texts fit.
-/

namespace QrWireguard.WebAgent

namespace Cpp

theorem length_inetNtoa_le (addr : BitVec 32) : (inetNtoa addr).length ≤ 15 := by
  have hbyte : ∀ i, (natDigits (addr.extractLsb' (8 * (3 - i)) 8).toNat).length ≤ 3 := by
    intro i
    have hlt := (addr.extractLsb' (8 * (3 - i)) 8).isLt
    exact length_natDigits_le (by decide) (by omega)
  have h0 := hbyte 0
  have h1 := hbyte 1
  have h2 := hbyte 2
  have h3 := hbyte 3
  simp only [inetNtoa, List.range_succ, List.range_zero, List.nil_append, List.cons_append,
    List.map_cons, List.map_nil, unsplit, List.flatMap_cons, List.flatMap_nil, List.length_append,
    List.length_cons, List.length_nil]
  omega

theorem length_getIPNetmask_le {netinfo ip mask : Str} (h : getIPNetmask netinfo = some (ip, mask)) :
    ip.length ≤ 15 ∧ mask.length ≤ 15 := by
  unfold getIPNetmask at h
  split at h
  · split at h
    · cases h
    · split at h
      · cases h
      · obtain ⟨rfl, rfl⟩ := Prod.mk.inj (Option.some.inj h)
        exact ⟨length_inetNtoa_le _, length_inetNtoa_le _⟩
  · cases h

/-- The command line of a request fits the buffers: it has at most 230 bytes. -/
def Fits (subcmd : Str) (keyValue : Vector Str 16) : Prop :=
  match vtyshCmd subcmd with
  | some .setHostName => (keyValue.get 0).length ≤ 221
  | some .setEthernetInterface => ∀ ip mask, getIPNetmask (keyValue.get 0) = some (ip, mask) →
    (keyValue.get 1).length + ip.length + mask.length ≤ 217
  | some .noSetEthernetInterface => (keyValue.get 0).length ≤ 216
  | some .addRouteEntry =>
    (keyValue.get 0).length + (keyValue.get 1).length + (keyValue.get 2).length + (keyValue.get 3).length ≤ 218
  | some .removeRouteEntry => (keyValue.get 1).length + (keyValue.get 2).length ≤ 217
  | some .addWireguardPeer =>
    (keyValue.get 0).length + (keyValue.get 1).length + (keyValue.get 2).length ≤ 175
  | some .removeWireguardPeer => (keyValue.get 0).length ≤ 219
  | _ => True

theorem sprintf256_isOk {text : Str} : (∃ s, sprintf256 text = .ok s) ↔ text.length < 256 := by
  unfold sprintf256
  split <;> simp [*]

/-- The text of a command line for the shell. -/
def shellText (scmd : Str) : Str := str "/usr/bin/qrwg/vtysh -e \"" ++ scmd ++ str "\""

/-- A command that fits goes to the shell, followed by `write`. -/
theorem runScmd_eq_ok {scmd : Str} {handled : Handled} : runScmd scmd = .ok handled ↔
    scmd.length ≤ 230 ∧
      handled = ⟨true, [shellText scmd, str "/usr/bin/qrwg/vtysh -e \"write\""]⟩ := by
  have hlen : (shellText scmd).length = scmd.length + 25 := by
    rw [shellText, List.length_append, List.length_append, show (str "\"").length = 1 from rfl,
      show (str "/usr/bin/qrwg/vtysh -e \"").length = 24 from rfl]
    omega
  have hcommand : runCommand scmd = sprintf256 (shellText scmd) := rfl
  unfold runScmd
  simp only [bind_eq_ok]
  constructor
  · rintro ⟨buf, hbuf, command, hrun, hhandled⟩
    unfold sprintf256 at hbuf
    split at hbuf
    · obtain rfl := Except.ok.inj hbuf
      rw [hcommand] at hrun
      have hfits := sprintf256_isOk.mp ⟨command, hrun⟩
      rw [sprintf256, if_pos hfits] at hrun
      obtain rfl := Except.ok.inj hrun
      exact ⟨by omega, (Except.ok.inj hhandled).symm⟩
    · cases hbuf
  · rintro ⟨h, rfl⟩
    have hfits : (shellText scmd).length < 256 := by omega
    exact ⟨scmd, if_pos (by omega), shellText scmd, if_pos hfits, rfl⟩

theorem runScmd_isOk {scmd : Str} :
    (∃ handled, runScmd scmd = .ok handled) ↔ scmd.length ≤ 230 := by
  constructor
  · rintro ⟨handled, h⟩
    exact (runScmd_eq_ok.mp h).1
  · intro h
    exact ⟨_, runScmd_eq_ok.mpr ⟨h, rfl⟩⟩

theorem action_isOk {subcmd : Str} {keyValue : Vector Str 16} :
    (∃ handled, action subcmd keyValue = .ok handled) ↔ Fits subcmd keyValue := by
  have hok : ∀ handled : Handled, (∃ h, (pure handled : Except Fault Handled) = .ok h) ↔ True :=
    fun handled => iff_true_intro ⟨handled, rfl⟩
  unfold action Fits
  cases vtyshCmd subcmd with
  | none => exact hok _
  | some command =>
    cases command with
    | setHostName =>
      dsimp only
      rw [runScmd_isOk, List.length_append, show (str "hostname ").length = 9 from rfl]
      omega
    | changeAdminPassword => exact hok _
    | rebootSystem =>
      dsimp only
      rw [runScmd_isOk]
      decide
    | setEthernetInterface =>
      dsimp only
      cases hnet : getIPNetmask (keyValue.get 0) with
      | none =>
        rw [hok]
        exact iff_of_true trivial fun ip mask h => by cases h
      | some network =>
        obtain ⟨ip, mask⟩ := network
        dsimp only
        rw [runScmd_isOk]
        simp only [List.length_append, List.length_cons, show (str "ip address ").length = 11 from rfl]
        constructor
        · intro h ip' mask' hnetwork
          obtain ⟨rfl, rfl⟩ := Prod.mk.inj (Option.some.inj hnetwork)
          omega
        · intro h
          have hfits := h ip mask rfl
          omega
    | noSetEthernetInterface =>
      dsimp only
      rw [runScmd_isOk, List.length_append, show (str "no ip address ").length = 14 from rfl]
      omega
    | addRouteEntry =>
      dsimp only
      rw [runScmd_isOk]
      simp only [List.length_append, List.length_cons, show (str "ip route ").length = 9 from rfl]
      omega
    | removeRouteEntry =>
      dsimp only
      rw [runScmd_isOk]
      simp only [List.length_append, List.length_cons,
        show (str "no ip route ").length = 12 from rfl]
      omega
    | setWireguardInterface =>
      dsimp only
      cases hnet : getIPNetmask (keyValue.get 0) with
      | none => exact hok _
      | some network =>
        obtain ⟨ip, mask⟩ := network
        have hshort := length_getIPNetmask_le hnet
        dsimp only
        rw [runScmd_isOk]
        simp only [List.length_append, List.length_cons,
          show (str "ip address wg0 ").length = 15 from rfl]
        exact iff_of_true (by omega) trivial
    | noSetWireguardInterface =>
      dsimp only
      rw [runScmd_isOk]
      decide
    | setWireguardGlobalConfig => exact hok _
    | addWireguardPeer =>
      dsimp only
      rw [runScmd_isOk]
      simp only [List.length_append, show (str "wg peer ").length = 8 from rfl,
        show (str " allowed-ips ").length = 13 from rfl,
        show (str " endpoint ").length = 10 from rfl,
        show (str " persistent-keepalive 25").length = 24 from rfl]
      omega
    | removeWireguardPeer =>
      dsimp only
      rw [runScmd_isOk, List.length_append, show (str "no wg peer ").length = 11 from rfl]
      omega

/-- The values of the first `count` fields. -/
def lineValues (l : List Str) (count : Int) : Vector Str 16 :=
  Vector.ofFn fun i => if (i : Int) < count then lineValue (l[(i : Nat) + 3]?.getD []) else []

theorem fieldValue_eq_ok {l : List Str} {i : Nat} {s : Str} :
    fieldValue l i = .ok s ↔ ∃ line, l[i + 3]? = some line ∧ HasValue line ∧ lineValue line = s := by
  simp only [fieldValue, bind_eq_ok, index_lineValue]
  simp only [index_eq_ok]

theorem lineValues_of_fill {l : List Str} {count : Int} {filled : Vector Str 16}
    (h : fillKeyValue (fieldValue l) count = .ok filled) : lineValues l count = filled := by
  obtain ⟨-, hread, hempty⟩ := fillKeyValue_ok h
  apply Vector.ext
  intro i hi
  unfold lineValues
  rw [Vector.getElem_ofFn]
  by_cases hlt : (i : Int) < count
  · obtain ⟨line, hline, -, heq⟩ := fieldValue_eq_ok.mp (hread i hlt hi)
    rw [if_pos hlt, hline, ← heq]
    rfl
  · rw [if_neg hlt, hempty i hi (by omega)]

theorem fillKeyValue_lines {l : List Str} {count : Int} {filled : Vector Str 16} :
    fillKeyValue (fieldValue l) count = .ok filled ↔
      count ≤ 16 ∧ (∀ i : Nat, (i : Int) < count → ∃ line, l[i + 3]? = some line ∧ HasValue line) ∧
        lineValues l count = filled := by
  constructor
  · intro h
    obtain ⟨hroom, hread, -⟩ := fillKeyValue_ok h
    refine ⟨hroom, ?_, lineValues_of_fill h⟩
    intro i hlt
    obtain ⟨line, hline, hvalue, -⟩ := fieldValue_eq_ok.mp (hread i hlt (by omega))
    exact ⟨line, hline, hvalue⟩
  · rintro ⟨hroom, hread, rfl⟩
    obtain ⟨filled, hfilled⟩ := fillKeyValue_isOk.mpr ⟨hroom, fun i hlt => by
      obtain ⟨line, hline, hvalue⟩ := hread i hlt
      exact ⟨_, fieldValue_eq_ok.mpr ⟨line, hline, hvalue, rfl⟩⟩⟩
    rw [lineValues_of_fill hfilled, hfilled]

/-- The lines of a request that `doAction` can decode: its subcommand, its field count, and one
line for each field. -/
structure Decodable (l : List Str) (subcmd fcount : Str) (count : Int) : Prop where
  subcmd_line : l[1]? = some subcmd
  subcmd_value : HasValue subcmd
  fcount_line : l[2]? = some fcount
  fcount_value : HasValue fcount
  count_number : stoi (lineValue fcount) = .ok count
  count_le : count ≤ 16
  fields : ∀ i : Nat, (i : Int) < count → ∃ line, l[i + 3]? = some line ∧ HasValue line

theorem decode_eq_ok {s : Str} {fields : Fields} :
    decode s = .ok fields ↔ ∃ subcmd fcount count,
      Decodable (split ['\n'] s) subcmd fcount count ∧
        ⟨lineValue subcmd, count, lineValues (split ['\n'] s) count⟩ = fields := by
  unfold decode
  simp only [bind_eq_ok, index_lineValue, fillKeyValue_lines]
  simp only [index_eq_ok]
  constructor
  · rintro ⟨subcmd, hsubcmd, fcount, hfcount, countText, ⟨hcountValue, rfl⟩, count, hnumber,
      keyValue, ⟨hle, hfields, rfl⟩, name, ⟨hvalue, rfl⟩, hpure⟩
    exact ⟨subcmd, fcount, count,
      ⟨hsubcmd, hvalue, hfcount, hcountValue, hnumber, hle, hfields⟩, Except.ok.inj hpure⟩
  · rintro ⟨subcmd, fcount, count, h, rfl⟩
    exact ⟨subcmd, h.subcmd_line, fcount, h.fcount_line, _, ⟨h.fcount_value, rfl⟩, count,
      h.count_number, _, ⟨h.count_le, h.fields, rfl⟩, _, ⟨h.subcmd_value, rfl⟩, rfl⟩

/-- A request that `doAction` can decode, with a command line that fits. -/
def WellFormedAction (s : Str) : Prop :=
  ∃ subcmd fcount count, Decodable (split ['\n'] s) subcmd fcount count ∧
    Fits (lineValue subcmd) (lineValues (split ['\n'] s) count)

theorem doAction_isOk {s : Str} : (∃ handled, doAction s = .ok handled) ↔ WellFormedAction s := by
  constructor
  · rintro ⟨handled, h⟩
    obtain ⟨fields, hdecode, haction⟩ := bind_eq_ok.mp h
    obtain ⟨subcmd, fcount, count, hdecodable, rfl⟩ := decode_eq_ok.mp hdecode
    exact ⟨subcmd, fcount, count, hdecodable, action_isOk.mp ⟨handled, haction⟩⟩
  · rintro ⟨subcmd, fcount, count, hdecodable, hfits⟩
    obtain ⟨handled, haction⟩ := action_isOk.mpr hfits
    exact ⟨handled, bind_eq_ok.mpr ⟨_, decode_eq_ok.mpr ⟨subcmd, fcount, count, hdecodable, rfl⟩,
      haction⟩⟩

/-- The first line of a message. -/
def firstLine (s : Str) : Str := (split ['\n'] s).head (split_ne_nil _ _)

theorem index_firstLine {s line : Str} : index (split ['\n'] s) 0 = .ok line ↔ firstLine s = line := by
  rw [index_eq_ok, ← List.head?_eq_getElem?, List.head?_eq_some_head (split_ne_nil _ _), firstLine,
    Option.some.injEq]

/-- A message that the C++ agent can handle: it ends before the end of the buffer, its first
line has a value, and a request has all that `doAction` reads. -/
structure WellFormed (msg : Str) : Prop where
  length_le : msg.length ≤ maxPacketSize
  cstr_lt : (cstr msg).length < maxPacketSize
  cmd : HasValue (firstLine (cstr msg))
  action : lineValue (firstLine (cstr msg)) = str "HELLO" → WellFormedAction (cstr msg)

/-- The C++ agent replies to a message just when it is well formed. -/
theorem onIncomingMsg_isOk {msg : Str} :
    (∃ handled, onIncomingMsg msg = .ok handled) ↔ WellFormed msg := by
  unfold onIncomingMsg
  by_cases hlong : maxPacketSize < msg.length ∨ maxPacketSize ≤ (cstr msg).length
  · rw [if_pos hlong]
    constructor
    · rintro ⟨handled, h⟩
      cases h
    · intro h
      have hle := h.length_le
      have hlt := h.cstr_lt
      omega
  rw [if_neg hlong]
  simp only [bind_eq_ok, index_lineValue, index_firstLine]
  constructor
  · rintro ⟨handled, line, rfl, cmd, ⟨hcmd, rfl⟩, h⟩
    refine ⟨by omega, by omega, hcmd, ?_⟩
    intro hhello
    rw [if_pos hhello] at h
    exact doAction_isOk.mp ⟨handled, h⟩
  · intro h
    by_cases hhello : lineValue (firstLine (cstr msg)) = str "HELLO"
    · obtain ⟨handled, hhandled⟩ := doAction_isOk.mpr (h.action hhello)
      refine ⟨handled, _, rfl, _, ⟨h.cmd, rfl⟩, ?_⟩
      rw [if_pos hhello]
      exact hhandled
    · by_cases hbye : lineValue (firstLine (cstr msg)) = str "BYE"
      · refine ⟨⟨true, []⟩, _, rfl, _, ⟨h.cmd, rfl⟩, ?_⟩
        rw [if_neg hhello, if_pos hbye]
        rfl
      · refine ⟨⟨false, []⟩, _, rfl, _, ⟨h.cmd, rfl⟩, ?_⟩
        rw [if_neg hhello, if_neg hbye]
        rfl

end Cpp

namespace Go

open BePlugin

theorem entryValue_eq_ok {entry s : Str} :
    entryValue entry = .ok s ↔ HasValue entry ∧ trimSuffix ['\n'] (lineValue entry) = s := by
  unfold entryValue
  simp only [bind_eq_ok, index_lineValue]
  constructor
  · rintro ⟨temp, ⟨hvalue, rfl⟩, h⟩
    exact ⟨hvalue, Except.ok.inj h⟩
  · rintro ⟨hvalue, rfl⟩
    exact ⟨_, ⟨hvalue, rfl⟩, rfl⟩

/-- The value of an entry of a message. -/
def entryText (entry : Str) : Str := trimSuffix ['\n'] (lineValue entry)

/-- The values of the first `count` fields. -/
def entryTexts (rmsg : RequestMessage) (count : Int) : Vector Str 16 :=
  Vector.ofFn fun i => if (i : Int) < count then entryText rmsg.keyValue[i] else []

theorem fieldValue_eq_ok {rmsg : RequestMessage} {i : Nat} {s : Str} (hi : i < 16) :
    fieldValue rmsg i = .ok s ↔ HasValue rmsg.keyValue[i] ∧ entryText rmsg.keyValue[i] = s := by
  unfold fieldValue
  simp only [bind_eq_ok, entryValue_eq_ok]
  simp [index_eq_ok, entryText, hi]

theorem atoi_eq_ok {s : Str} {n : Int} : atoi s = .ok n ↔ parseInt s = some n := by
  unfold atoi
  cases parseInt s <;> simp

theorem entryTexts_of_fill {rmsg : RequestMessage} {count : Int} {filled : Vector Str 16}
    (h : fillKeyValue (fieldValue rmsg) count = .ok filled) : entryTexts rmsg count = filled := by
  obtain ⟨-, hread, hempty⟩ := fillKeyValue_ok h
  apply Vector.ext
  intro i hi
  unfold entryTexts
  rw [Vector.getElem_ofFn]
  by_cases hlt : (i : Int) < count
  · rw [if_pos hlt]
    exact ((fieldValue_eq_ok hi).mp (hread i hlt hi)).2
  · rw [if_neg hlt, hempty i hi (by omega)]

theorem fillKeyValue_entries {rmsg : RequestMessage} {count : Int} {filled : Vector Str 16} :
    fillKeyValue (fieldValue rmsg) count = .ok filled ↔
      count ≤ 16 ∧ (∀ (i : Nat) (hi : i < 16), (i : Int) < count → HasValue rmsg.keyValue[i]) ∧
        entryTexts rmsg count = filled := by
  constructor
  · intro h
    obtain ⟨hroom, hread, -⟩ := fillKeyValue_ok h
    refine ⟨hroom, ?_, entryTexts_of_fill h⟩
    intro i hi hlt
    exact ((fieldValue_eq_ok hi).mp (hread i hlt hi)).1
  · rintro ⟨hroom, hread, rfl⟩
    obtain ⟨filled, hfilled⟩ := fillKeyValue_isOk.mpr ⟨hroom, fun i hlt => by
      have hi : i < 16 := by omega
      exact ⟨_, (fieldValue_eq_ok hi).mpr ⟨hread i hi hlt, rfl⟩⟩⟩
    rw [entryTexts_of_fill hfilled, hfilled]

/-- A request that `doAction` can decode: its subcommand, its field count, and that many entries
have values. -/
structure Decodable (rmsg : RequestMessage) (count : Int) : Prop where
  subCmd : HasValue rmsg.subCmd
  fieldCount : HasValue rmsg.fieldCount
  count_number : parseInt (entryText rmsg.fieldCount) = some count
  count_le : count ≤ 16
  fields : ∀ (i : Nat) (hi : i < 16), (i : Int) < count → HasValue rmsg.keyValue[i]

theorem decode_eq_ok {rmsg : RequestMessage} {fields : Fields} :
    decode rmsg = .ok fields ↔ ∃ count, Decodable rmsg count ∧
      ⟨entryText rmsg.subCmd, count, entryTexts rmsg count⟩ = fields := by
  unfold decode
  simp only [bind_eq_ok, entryValue_eq_ok, atoi_eq_ok, fillKeyValue_entries]
  constructor
  · rintro ⟨subcmd, ⟨hsubCmd, rfl⟩, countText, ⟨hfieldCount, rfl⟩, count, hnumber, keyValue,
      ⟨hle, hfields, rfl⟩, hpure⟩
    exact ⟨count, ⟨hsubCmd, hfieldCount, hnumber, hle, hfields⟩, Except.ok.inj hpure⟩
  · rintro ⟨count, h, rfl⟩
    exact ⟨_, ⟨h.subCmd, rfl⟩, _, ⟨h.fieldCount, rfl⟩, count, h.count_number, _,
      ⟨h.count_le, h.fields, rfl⟩, rfl⟩

/-- The subcommands whose first value is a network. -/
def networkSubcmds : List Str := [str "SET_ETHERNET_INTERFACE", str "SET_WIREGUARD_INTERFACE"]

/-- The subcommands for which a script is run. -/
def scriptSubcmds : List Str :=
  [str "SET_HOST_NAME", str "REBOOT_SYSTEM", str "SET_ETHERNET_INTERFACE",
    str "NO_SET_ETHERNET_INTERFACE", str "ADD_ROUTE_ENTRY", str "REMOVE_ROUTE_ENTRY",
    str "SET_WIREGUARD_INTERFACE", str "NO_SET_WIREGUARD_INTERFACE", str "ADD_WIREGUARD_PEER",
    str "REMOVE_WIREGUARD_PEER"]

/-- A request that does not end the process: its network is one, and the host runs its script. -/
structure Runs (host : Host) (subcmd : Str) (keyValue : Vector Str 16) : Prop where
  network : subcmd ∈ networkSubcmds → (parseCIDR (keyValue.get 0)).isSome = true
  script : subcmd ∈ scriptSubcmds →
    (host.created && host.written && host.executable) = true

theorem runScmd_isOk {host : Host} {scmd : Str} :
    (∃ handled, runScmd host scmd = .ok handled) ↔
      (host.created && host.written && host.executable) = true := by
  unfold runScmd runCommand
  cases host.created && host.written && host.executable
  · exact iff_of_false (fun ⟨_, h⟩ => by cases h) (by decide)
  · exact iff_of_true ⟨_, rfl⟩ rfl

theorem networkTexts_isOk {s : Str} :
    (∃ texts, networkTexts s = .ok texts) ↔ (parseCIDR s).isSome = true := by
  unfold networkTexts
  cases parseCIDR s <;> simp

/-- A subcommand with a script and no network. -/
theorem runs_script {host : Host} {subcmd : Str} {keyValue : Vector Str 16}
    (hnetwork : subcmd ∉ networkSubcmds) (hscript : subcmd ∈ scriptSubcmds) :
    Runs host subcmd keyValue ↔ (host.created && host.written && host.executable) = true :=
  ⟨fun h => h.script hscript, fun h => ⟨fun hmem => absurd hmem hnetwork, fun _ => h⟩⟩

/-- A subcommand with a script and a network. -/
theorem runs_network {host : Host} {subcmd : Str} {keyValue : Vector Str 16}
    {f : Str × Str → Str} (hnetwork : subcmd ∈ networkSubcmds)
    (hscript : subcmd ∈ scriptSubcmds) :
    (∃ handled, (networkTexts (keyValue.get 0) >>= fun texts => runScmd host (f texts)) =
      .ok handled) ↔ Runs host subcmd keyValue := by
  constructor
  · rintro ⟨handled, h⟩
    obtain ⟨texts, htexts, hrun⟩ := bind_eq_ok.mp h
    exact ⟨fun _ => networkTexts_isOk.mp ⟨texts, htexts⟩,
      fun _ => runScmd_isOk.mp ⟨handled, hrun⟩⟩
  · intro h
    obtain ⟨texts, htexts⟩ := networkTexts_isOk.mpr (h.network hnetwork)
    obtain ⟨handled, hrun⟩ := (@runScmd_isOk host (f texts)).mpr (h.script hscript)
    exact ⟨handled, bind_eq_ok.mpr ⟨texts, htexts, hrun⟩⟩

theorem action_isOk {host : Host} {subcmd : Str} {keyValue : Vector Str 16} :
    (∃ handled, action host subcmd keyValue = .ok handled) ↔ Runs host subcmd keyValue := by
  unfold action
  by_cases h1 : subcmd = str "SET_HOST_NAME"
  · rw [if_pos h1, runScmd_isOk, runs_script (by rw [h1]; decide) (by rw [h1]; decide)]
  rw [if_neg h1]
  by_cases h2 : subcmd = str "REBOOT_SYSTEM"
  · rw [if_pos h2, runScmd_isOk, runs_script (by rw [h2]; decide) (by rw [h2]; decide)]
  rw [if_neg h2]
  by_cases h3 : subcmd = str "SET_ETHERNET_INTERFACE"
  · rw [if_pos h3]
    exact runs_network (f := fun texts => str "ip address " ++ keyValue.get 1 ++ ' ' :: texts.1 ++ ' ' :: texts.2)
      (by rw [h3]; decide) (by rw [h3]; decide)
  rw [if_neg h3]
  by_cases h4 : subcmd = str "NO_SET_ETHERNET_INTERFACE"
  · rw [if_pos h4, runScmd_isOk, runs_script (by rw [h4]; decide) (by rw [h4]; decide)]
  rw [if_neg h4]
  by_cases h5 : subcmd = str "ADD_ROUTE_ENTRY"
  · rw [if_pos h5, runScmd_isOk, runs_script (by rw [h5]; decide) (by rw [h5]; decide)]
  rw [if_neg h5]
  by_cases h6 : subcmd = str "REMOVE_ROUTE_ENTRY"
  · rw [if_pos h6, runScmd_isOk, runs_script (by rw [h6]; decide) (by rw [h6]; decide)]
  rw [if_neg h6]
  by_cases h7 : subcmd = str "SET_WIREGUARD_INTERFACE"
  · rw [if_pos h7]
    exact runs_network (f := fun texts => str "ip address wg0 " ++ texts.1 ++ ' ' :: texts.2)
      (by rw [h7]; decide) (by rw [h7]; decide)
  rw [if_neg h7]
  by_cases h8 : subcmd = str "NO_SET_WIREGUARD_INTERFACE"
  · rw [if_pos h8, runScmd_isOk, runs_script (by rw [h8]; decide) (by rw [h8]; decide)]
  rw [if_neg h8]
  by_cases h9 : subcmd = str "SET_WIREGUARD_GLOBAL_CONFIG"
  · rw [if_pos h9]
    exact iff_of_true ⟨_, rfl⟩ ⟨fun h => absurd h (by rw [h9]; decide),
      fun h => absurd h (by rw [h9]; decide)⟩
  rw [if_neg h9]
  by_cases h10 : subcmd = str "ADD_WIREGUARD_PEER"
  · rw [if_pos h10, runScmd_isOk, runs_script (by rw [h10]; decide) (by rw [h10]; decide)]
  rw [if_neg h10]
  by_cases h11 : subcmd = str "REMOVE_WIREGUARD_PEER"
  · rw [if_pos h11, runScmd_isOk, runs_script (by rw [h11]; decide) (by rw [h11]; decide)]
  rw [if_neg h11]
  refine iff_of_true ⟨_, rfl⟩ ⟨?_, ?_⟩
  · intro hmem
    simp only [networkSubcmds, List.mem_cons, List.not_mem_nil, or_false] at hmem
    tauto
  · intro hmem
    simp only [scriptSubcmds, List.mem_cons, List.not_mem_nil, or_false] at hmem
    tauto

/-- A request that the Go agent can handle on a host: its command has a value, a `HELLO` can be
decoded and run, and the reply can be written. -/
structure WellFormed (host : Host) (rmsg : RequestMessage) : Prop where
  cmd : HasValue rmsg.cmd
  action : entryText rmsg.cmd = str "HELLO" → ∃ count, Decodable rmsg count ∧
    Runs host (entryText rmsg.subCmd) (entryTexts rmsg count)
  replied : host.replied = true

theorem doAction_isOk {host : Host} {rmsg : RequestMessage} :
    (∃ handled, doAction host rmsg = .ok handled) ↔ ∃ count, Decodable rmsg count ∧
      Runs host (entryText rmsg.subCmd) (entryTexts rmsg count) := by
  constructor
  · rintro ⟨handled, h⟩
    obtain ⟨fields, hdecode, haction⟩ := bind_eq_ok.mp h
    obtain ⟨count, hdecodable, rfl⟩ := decode_eq_ok.mp hdecode
    exact ⟨count, hdecodable, action_isOk.mp ⟨handled, haction⟩⟩
  · rintro ⟨count, hdecodable, hruns⟩
    obtain ⟨handled, haction⟩ := action_isOk.mpr hruns
    exact ⟨handled, bind_eq_ok.mpr ⟨_, decode_eq_ok.mpr ⟨count, hdecodable, rfl⟩, haction⟩⟩

theorem sendMessage_eq_ok {host : Host} {handled sent : Handled} :
    sendMessage host handled = .ok sent ↔ host.replied = true ∧ handled = sent := by
  unfold sendMessage
  cases host.replied <;> simp

theorem answer_isOk {host : Host} {cmd : Str} {rmsg : RequestMessage} :
    (∃ handled, answer host cmd rmsg = .ok handled) ↔
      (cmd = str "HELLO" → ∃ handled, doAction host rmsg = .ok handled) := by
  unfold answer
  by_cases hhello : cmd = str "HELLO"
  · rw [if_pos hhello]
    exact ⟨fun h _ => h, fun h => h hhello⟩
  · rw [if_neg hhello]
    refine iff_of_true ?_ fun h => absurd h hhello
    split <;> exact ⟨_, rfl⟩

/-- The Go agent replies to a request just when it is well formed. -/
theorem handleConnection_isOk {host : Host} {rmsg : RequestMessage} :
    (∃ handled, handleConnection host (.request rmsg) = .ok (some handled)) ↔
      WellFormed host rmsg := by
  unfold handleConnection
  simp only [bind_eq_ok, entryValue_eq_ok, sendMessage_eq_ok]
  constructor
  · rintro ⟨handled, cmd, ⟨hcmd, rfl⟩, acted, hacted, sent, ⟨hreplied, rfl⟩, -⟩
    refine ⟨hcmd, ?_, hreplied⟩
    intro hhello
    exact doAction_isOk.mp (answer_isOk.mp ⟨acted, hacted⟩ hhello)
  · intro h
    obtain ⟨acted, hacted⟩ := answer_isOk.mpr fun hhello => doAction_isOk.mpr (h.action hhello)
    exact ⟨acted, _, ⟨h.cmd, rfl⟩, acted, hacted, acted, ⟨h.replied, rfl⟩, rfl⟩

end Go

/-- An agent replies to what it receives just when that is well formed. -/
theorem agents_reply (msg : Str) (host : Go.Host) (rmsg : BePlugin.RequestMessage) :
    ((∃ handled, Cpp.onIncomingMsg msg = .ok handled) ↔ Cpp.WellFormed msg) ∧
      ((∃ handled, Go.handleConnection host (.request rmsg) = .ok (some handled)) ↔
        Go.WellFormed host rmsg) :=
  ⟨Cpp.onIncomingMsg_isOk, Go.handleConnection_isOk⟩

/-- A host on which nothing fails. -/
def Go.usualHost : Go.Host := ⟨true, true, true, true⟩

/-- A `HELLO` without a second line is read behind the end of its lines, and the Go agent does
not look whether a request has a subcommand. -/
theorem agents_not_reply :
    Cpp.onIncomingMsg (str "cmd:=HELLO\n") = .error .index ∧
      Go.handleConnection Go.usualHost (.request
        ⟨str "cmd:=HELLO\n", [], [], BePlugin.keyValues []⟩) = .error .index := by
  decide

end QrWireguard.WebAgent
