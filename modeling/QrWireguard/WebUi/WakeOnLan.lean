import Mathlib.Data.Char
import Mathlib.Data.List.Lex
import QrWireguard.Misc.Mac
import QrWireguard.Misc.Dir
import QrWireguard.WebUi.Model

/-!
# Wake-on-LAN hosts

A host is stored under a resource name that is made from its hardware address: in upper case, with
hyphens for colons. An edit looks up the old address, deletes its record and saves the new one.
-/

namespace QrWireguard.WebUi

/-- `model.WakeOnLanHost`. -/
structure WakeOnLanHost where
  macAddress : Str
  name : Str
  latestUsed : Option Time
  deriving DecidableEq, Repr

/-- The characters that are trimmed off an address. -/
def isMacSpace (c : Char) : Bool :=
  c == ' ' || c == '\t' || c == '\r' || c == '\n' || c == '\x00'

/-- `ResolveResourceName`, with the texts of its errors. -/
def WakeOnLanHost.resolveResourceName (host : WakeOnLanHost) : Except Str Str :=
  let resourceName := trim isMacSpace host.macAddress
  if resourceName.length = 0 then .error (str "mac Address is Empty")
  else
    let resourceName := resourceName.map Char.toUpper
    let resourceName := replaceAll (str ":") (str "-") resourceName
    match parseMAC resourceName with
    | none => .error (str "invalid mac address")
    | some _ => .ok resourceName

/-! ## Resource names -/

section
variable {host host' : WakeOnLanHost} {name name' : Str}

/-- A character of a resource name. -/
def nameChar (c : Char) : Char := if c = ':' then '-' else c.toUpper

theorem resolveResourceName_eq_ok (h : host.resolveResourceName = .ok name) :
    name = (trim isMacSpace host.macAddress).map nameChar ∧ ∃ hw, parseMAC name = some hw := by
  unfold WakeOnLanHost.resolveResourceName at h
  dsimp only at h
  split at h
  · cases h
  · have hmap : (fun c => if c = ':' then '-' else c) ∘ Char.toUpper = nameChar := by
      funext c
      simp only [Function.comp_apply, nameChar, toUpper_eq_iff (.inr rfl)]
    rw [show str ":" = [':'] from rfl, show str "-" = ['-'] from rfl, replaceAll_char,
      List.map_map, hmap] at h
    split at h
    · cases h
    · rename_i hw hmac
      obtain rfl := Except.ok.inj h
      exact ⟨rfl, hw, hmac⟩

theorem isxdigit_nameChar (c : Char) : isxdigit (nameChar c) = isxdigit c := by
  unfold nameChar
  split
  · rename_i hc
    rw [hc]
    rfl
  · exact isxdigit_toUpper c

/-- The name of a host is in upper case without colons. -/
theorem normalised_of_resolve (h : host.resolveResourceName = .ok name) : Normalised name := by
  obtain ⟨rfl, -⟩ := resolveResourceName_eq_ok h
  constructor
  · intro c hc
    obtain ⟨d, -, rfl⟩ := List.mem_map.mp hc
    unfold nameChar
    split
    · rfl
    · exact toUpper_toUpper d
  · intro hcolon
    obtain ⟨d, -, hd⟩ := List.mem_map.mp hcolon
    unfold nameChar at hd
    split at hd
    · cases hd
    · rename_i hne
      exact hne ((toUpper_eq_iff (.inr rfl)).mp hd)

theorem macDigits_of_resolve (h : host.resolveResourceName = .ok name) :
    macDigits name = macDigits host.macAddress := by
  obtain ⟨rfl, -⟩ := resolveResourceName_eq_ok h
  have htrim : ∀ c, isMacSpace c = true → isxdigit c = false := by
    intro c hc
    simp only [isMacSpace, Bool.or_eq_true, beq_iff_eq] at hc
    rcases hc with (((rfl | rfl) | rfl) | rfl) | rfl <;> rfl
  have hfilter : isxdigit ∘ nameChar = isxdigit := funext isxdigit_nameChar
  unfold macDigits
  rw [List.filter_map, hfilter, filter_trim htrim, List.map_map]
  apply List.map_congr_left
  intro c hc
  have hne : c ≠ ':' := by
    rintro rfl
    cases (List.mem_filter.mp hc).2
  rw [Function.comp_apply, nameChar, if_neg hne, toUpper_toUpper]

theorem dot_mem_of_resolve (h : host.resolveResourceName = .ok name) :
    '.' ∈ name ↔ '.' ∈ host.macAddress := by
  obtain ⟨rfl, -⟩ := resolveResourceName_eq_ok h
  have hdot : ∀ c, nameChar c = '.' ↔ c = '.' := by
    intro c
    unfold nameChar
    split
    · rename_i hc
      rw [hc]
      decide
    · exact toUpper_eq_iff (.inl rfl)
  rw [List.mem_map, ← mem_trim_iff (show isMacSpace '.' = false from rfl)]
  simp only [hdot, exists_eq_right]

/-- Two hosts have one resource name just when their addresses are equal, but for two notations of
one address of which only one has dots. -/
theorem resourceName_eq_iff (h : host.resolveResourceName = .ok name)
    (h' : host'.resolveResourceName = .ok name') :
    (name = name' ↔ parseMAC name = parseMAC name') ↔
      (('.' ∈ host.macAddress ↔ '.' ∈ host'.macAddress) ∨
        macDigits host.macAddress ≠ macDigits host'.macAddress) := by
  obtain ⟨-, hw, hmac⟩ := resolveResourceName_eq_ok h
  obtain ⟨-, hw', hmac'⟩ := resolveResourceName_eq_ok h'
  have hnorm := normalised_of_resolve h
  have hnorm' := normalised_of_resolve h'
  rw [hmac, hmac', Option.some.injEq, hnorm.bytes_eq_iff hnorm' hmac hmac',
    ← dot_mem_of_resolve h, ← dot_mem_of_resolve h', ← macDigits_of_resolve h,
    ← macDigits_of_resolve h']
  constructor
  · intro hiff
    by_cases hdigits : macDigits name = macDigits name'
    · rw [hiff.mpr hdigits]
      exact .inl Iff.rfl
    · exact .inr hdigits
  · intro hcond
    constructor
    · rintro rfl
      rfl
    · intro hdigits
      have hdots := hcond.resolve_right fun hne => hne hdigits
      exact hnorm.eq_of_macDigits_eq hnorm' hmac hmac' hdots hdigits

/-- A host with an address that has not been used. -/
def hostOf (macAddress : Str) : WakeOnLanHost := ⟨macAddress, str "pc", none⟩

theorem resourceName_eq_iff_different :
    (str "AA-BB-CC-DD-EE-0F" = str "0011.2233.4455" ↔
      parseMAC (str "AA-BB-CC-DD-EE-0F") = parseMAC (str "0011.2233.4455")) := by
  have hcolons : (hostOf (str " aa:bb:cc:dd:ee:0f")).resolveResourceName =
      .ok (str "AA-BB-CC-DD-EE-0F") := by decide +kernel
  have hdots : (hostOf (str "0011.2233.4455")).resolveResourceName =
      .ok (str "0011.2233.4455") := by decide +kernel
  exact (resourceName_eq_iff hcolons hdots).mpr (.inr (by decide +kernel))

theorem resourceName_not_eq_iff : ¬ ∀ host host' : WakeOnLanHost, ∀ name name',
    host.resolveResourceName = .ok name → host'.resolveResourceName = .ok name' →
      (name = name' ↔ parseMAC name = parseMAC name') := by
  intro h
  have hhyphens : (hostOf (str "00-11-22-33-44-55")).resolveResourceName =
      .ok (str "00-11-22-33-44-55") := by decide +kernel
  have hdots : (hostOf (str "0011.2233.4455")).resolveResourceName =
      .ok (str "0011.2233.4455") := by decide +kernel
  have hbytes : parseMAC (str "00-11-22-33-44-55") = parseMAC (str "0011.2233.4455") := by
    decide +kernel
  cases (h _ _ _ _ hhyphens hdots).mpr hbytes

end

/-! ## Edits -/

/-- The hosts by resource name. -/
abbrev HostDir := Dir Str WakeOnLanHost

/-- The resource name of an address. -/
def macName (macAddress : Str) : Except Str Str :=
  (⟨macAddress, [], none⟩ : WakeOnLanHost).resolveResourceName

namespace HostDir
variable (unfound : Str → Str)

/-- `GetWakeOnLanHost`. The parameter is the text of the error for a record that is missing. -/
def getWakeOnLanHost (macAddress : Str) (d : HostDir) : Except Str WakeOnLanHost :=
  match macName macAddress with
  | .error err => .error err
  | .ok resourceName =>
    match d.read resourceName with
    | none => .error (unfound resourceName)
    | some host => .ok host

/-- `DeleteWakeOnHostLanHost`. -/
def deleteWakeOnHostLanHost (macAddress : Str) (d : HostDir) : Except Str HostDir :=
  match macName macAddress with
  | .error err => .error err
  | .ok resourceName =>
    match d.read resourceName with
    | none => .error (unfound resourceName)
    | some _ => .ok (d.delete resourceName)

/-- `SaveWakeOnLanHost` of the store. A write under a valid name succeeds. -/
def saveWakeOnLanHost (host : WakeOnLanHost) (d : HostDir) : Except Str HostDir :=
  match host.resolveResourceName with
  | .error err => .error err
  | .ok resourceName => .ok (d.write resourceName host)

end HostDir

/-- `WakeOnLanHostSavePayload`. -/
structure WakeOnLanHostSavePayload where
  name : Str
  macAddress : Str
  oldMacAddress : Str

/-- The answers: `createError` with its message, and the host that was saved. -/
inductive HostAnswer where
  | error (message : Str)
  | saved (host : WakeOnLanHost)

/-- The end of the handler. -/
def saveAnswer (host : WakeOnLanHost) (d : HostDir) : HostAnswer × HostDir :=
  match HostDir.saveWakeOnLanHost host d with
  | .error err => (.error (str "Wake On Host Save Error: " ++ err), d)
  | .ok d => (.saved host, d)

/-- `SaveWakeOnLanHost` for a body that binds. -/
def saveWakeOnLanHost (unfound : Str → Str) (payload : WakeOnLanHostSavePayload) (d : HostDir) :
    HostAnswer × HostDir :=
  let host : WakeOnLanHost := ⟨payload.macAddress, payload.name, none⟩
  if payload.oldMacAddress.length ≠ 0 then
    if payload.oldMacAddress ≠ payload.macAddress then
      match HostDir.getWakeOnLanHost unfound payload.oldMacAddress d with
      | .error err => (.error (str "Wake On Host Update Err: " ++ err), d)
      | .ok oldHost =>
        match HostDir.getWakeOnLanHost unfound payload.macAddress d with
        | .ok _ => (.error (str "Mac Address already exists."), d)
        | .error _ =>
          match HostDir.deleteWakeOnHostLanHost unfound payload.oldMacAddress d with
          | .error err => (.error (str "Wake On Host Update Err: " ++ err), d)
          | .ok d => saveAnswer { host with latestUsed := oldHost.latestUsed } d
    else saveAnswer host d
  else
    match HostDir.getWakeOnLanHost unfound payload.macAddress d with
    | .ok _ => (.error (str "Mac Address already exists."), d)
    | .error _ => saveAnswer host d

/-- An edit that is atomic and keeps the history: an error leaves the store as it is, and success
puts one record with the new name and the new address in the place of the old one. -/
structure AtomicEdit (payload : WakeOnLanHostSavePayload) (d : HostDir)
    (out : HostAnswer × HostDir) : Prop where
  kept : ∀ message, out.1 = .error message → out.2 = d
  replaced : ∀ host, out.1 = .saved host → ∀ oldName oldHost,
    macName payload.oldMacAddress = .ok oldName → d.read oldName = some oldHost →
      ∃ newName, macName payload.macAddress = .ok newName ∧ out.2 =
        (d.delete oldName).write newName ⟨payload.macAddress, payload.name, oldHost.latestUsed⟩

/-- The condition on an edit of a host that is stored: under an unchanged address it has not been
used, and a changed address is a valid one. -/
def EditKeeps (payload : WakeOnLanHostSavePayload) (d : HostDir) : Prop :=
  ∀ oldName oldHost, macName payload.oldMacAddress = .ok oldName →
    d.read oldName = some oldHost →
      if payload.oldMacAddress = payload.macAddress then oldHost.latestUsed = none
      else ∃ newName, macName payload.macAddress = .ok newName

section
variable {unfound : Str → Str} {payload : WakeOnLanHostSavePayload} {d : HostDir}

theorem resolveResourceName_eq (host : WakeOnLanHost) :
    host.resolveResourceName = macName host.macAddress := rfl

theorem getWakeOnLanHost_eq_ok {macAddress : Str} {host : WakeOnLanHost} :
    HostDir.getWakeOnLanHost unfound macAddress d = .ok host ↔
      ∃ name, macName macAddress = .ok name ∧ d.read name = some host := by
  unfold HostDir.getWakeOnLanHost
  cases macName macAddress with
  | error err => simp
  | ok name =>
    cases hread : d.read name with
    | none => simp [hread]
    | some found => simp [hread]

/-- An answer that reports an error and leaves the store as it is. -/
theorem atomicEdit_error (message : Str) : AtomicEdit payload d (.error message, d) where
  kept _ _ := rfl
  replaced host h := by cases h

/-- An edit of a host that is not stored keeps the promise: only a host that is stored is
replaced. -/
theorem atomicEdit_of_missing (hedit : payload.oldMacAddress ≠ [])
    (h : ∀ oldName oldHost, macName payload.oldMacAddress = .ok oldName →
      d.read oldName ≠ some oldHost) :
    AtomicEdit payload d (saveWakeOnLanHost unfound payload d) := by
  unfold saveWakeOnLanHost
  dsimp only
  rw [if_pos (mt List.length_eq_zero_iff.mp hedit)]
  split
  · cases hget : HostDir.getWakeOnLanHost unfound payload.oldMacAddress d with
    | error err => exact atomicEdit_error _
    | ok oldHost =>
      obtain ⟨oldName, hname, hread⟩ := getWakeOnLanHost_eq_ok.mp hget
      exact absurd hread (h oldName oldHost hname)
  · unfold saveAnswer
    cases HostDir.saveWakeOnLanHost ⟨payload.macAddress, payload.name, none⟩ d with
    | error err => exact atomicEdit_error _
    | ok d' =>
      constructor
      · intro message hmessage
        cases hmessage
      · intro host _ oldName oldHost hname hread
        exact absurd hread (h oldName oldHost hname)

/-- A record that is deleted and written again. -/
theorem write_eq_delete_write (d : HostDir) (name : Str) (host : WakeOnLanHost) :
    (d.delete name).write name host = d.write name host := by
  apply Dir.ext_read
  intro other
  by_cases hother : other = name
  · rw [hother, Dir.read_write_self, Dir.read_write_self]
  · rw [Dir.read_write_of_ne hother, Dir.read_write_of_ne hother, Dir.read_delete_of_ne hother]

/-- Under an unchanged address the record is written without its history. -/
theorem atomicEdit_same {oldName : Str} {oldHost : WakeOnLanHost}
    (hsame : payload.oldMacAddress = payload.macAddress) (hedit : payload.oldMacAddress ≠ [])
    (hname : macName payload.oldMacAddress = .ok oldName) (hread : d.read oldName = some oldHost) :
    AtomicEdit payload d (saveWakeOnLanHost unfound payload d) ↔ oldHost.latestUsed = none := by
  have hnew : macName payload.macAddress = .ok oldName := by rw [← hsame, hname]
  have hout : saveWakeOnLanHost unfound payload d =
      (.saved ⟨payload.macAddress, payload.name, none⟩,
        d.write oldName ⟨payload.macAddress, payload.name, none⟩) := by
    unfold saveWakeOnLanHost saveAnswer HostDir.saveWakeOnLanHost
    dsimp only
    rw [if_pos (mt List.length_eq_zero_iff.mp hedit), if_neg (not_not.mpr hsame),
      resolveResourceName_eq, hnew]
  rw [hout]
  constructor
  · intro h
    obtain ⟨newName, hnew', hdir⟩ := h.replaced _ rfl oldName oldHost hname hread
    obtain rfl := Except.ok.inj (hnew.symm.trans hnew')
    have hrecord := congrArg (Dir.read · oldName) hdir
    dsimp only at hrecord
    rw [Dir.read_write_self, Dir.read_write_self] at hrecord
    exact (congrArg WakeOnLanHost.latestUsed (Option.some.inj hrecord)).symm
  · intro hlatest
    constructor
    · intro message hmessage
      cases hmessage
    · intro host _ oldName' oldHost' hname' hread'
      obtain rfl := Except.ok.inj (hname.symm.trans hname')
      obtain rfl := Option.some.inj (hread.symm.trans hread')
      refine ⟨oldName, hnew, ?_⟩
      rw [hlatest, write_eq_delete_write]

/-- Under a changed address the old record is deleted before the new address is looked at. -/
theorem atomicEdit_changed {oldName : Str} {oldHost : WakeOnLanHost}
    (hchanged : payload.oldMacAddress ≠ payload.macAddress) (hedit : payload.oldMacAddress ≠ [])
    (hname : macName payload.oldMacAddress = .ok oldName) (hread : d.read oldName = some oldHost) :
    AtomicEdit payload d (saveWakeOnLanHost unfound payload d) ↔
      ∃ newName, macName payload.macAddress = .ok newName := by
  have hget : HostDir.getWakeOnLanHost unfound payload.oldMacAddress d = .ok oldHost :=
    getWakeOnLanHost_eq_ok.mpr ⟨oldName, hname, hread⟩
  have hdelete : HostDir.deleteWakeOnHostLanHost unfound payload.oldMacAddress d =
      .ok (d.delete oldName) := by
    unfold HostDir.deleteWakeOnHostLanHost
    rw [hname]
    dsimp only
    rw [hread]
  unfold saveWakeOnLanHost
  dsimp only
  rw [if_pos (mt List.length_eq_zero_iff.mp hedit), if_pos hchanged, hget]
  dsimp only
  cases hexist : HostDir.getWakeOnLanHost unfound payload.macAddress d with
  | ok existHost =>
    obtain ⟨newName, hnew, -⟩ := getWakeOnLanHost_eq_ok.mp hexist
    exact iff_of_true (atomicEdit_error _) ⟨newName, hnew⟩
  | error err =>
    rw [hdelete]
    unfold saveAnswer HostDir.saveWakeOnLanHost
    dsimp only
    rw [resolveResourceName_eq]
    dsimp only
    cases hnew : macName payload.macAddress with
    | error err =>
      dsimp only
      constructor
      · intro h
        have hkept := congrArg (Dir.read · oldName) (h.kept _ rfl)
        dsimp only at hkept
        rw [hread, Dir.read_delete_self] at hkept
        cases hkept
      · rintro ⟨newName, hok⟩
        cases hok
    | ok newName =>
      dsimp only
      refine iff_of_true ?_ ⟨newName, rfl⟩
      constructor
      · intro message hmessage
        cases hmessage
      · intro host _ oldName' oldHost' hname' hread'
        obtain rfl := Except.ok.inj (hname.symm.trans hname')
        obtain rfl := Option.some.inj (hread.symm.trans hread')
        exact ⟨newName, hnew, rfl⟩

/-- An edit is atomic and keeps the history just under the condition. -/
theorem saveWakeOnLanHost_atomic (hedit : payload.oldMacAddress ≠ []) :
    AtomicEdit payload d (saveWakeOnLanHost unfound payload d) ↔ EditKeeps payload d := by
  by_cases hstored : ∃ oldName oldHost, macName payload.oldMacAddress = .ok oldName ∧
      d.read oldName = some oldHost
  · obtain ⟨oldName, oldHost, hname, hread⟩ := hstored
    have hkeeps : EditKeeps payload d ↔
        if payload.oldMacAddress = payload.macAddress then oldHost.latestUsed = none
        else ∃ newName, macName payload.macAddress = .ok newName := by
      constructor
      · intro h
        exact h oldName oldHost hname hread
      · intro h oldName' oldHost' hname' hread'
        obtain rfl := Except.ok.inj (hname.symm.trans hname')
        obtain rfl := Option.some.inj (hread.symm.trans hread')
        exact h
    rw [hkeeps]
    split
    · rename_i hsame
      exact atomicEdit_same hsame hedit hname hread
    · rename_i hchanged
      exact atomicEdit_changed hchanged hedit hname hread
  · have hmissing : ∀ oldName oldHost, macName payload.oldMacAddress = .ok oldName →
        d.read oldName ≠ some oldHost := by
      intro oldName oldHost hname hread
      exact hstored ⟨oldName, oldHost, hname, hread⟩
    refine iff_of_true (atomicEdit_of_missing hedit hmissing) ?_
    intro oldName oldHost hname hread
    exact absurd hread (hmissing oldName oldHost hname)

/-- A store with one host. -/
def oneHost : HostDir :=
  Dir.write Dir.empty (str "00-11-22-33-44-55") (hostOf (str "00-11-22-33-44-55"))

theorem macName_stored : macName (str "00-11-22-33-44-55") = .ok (str "00-11-22-33-44-55") := by
  decide +kernel

theorem saveWakeOnLanHost_atomic_moved :
    AtomicEdit ⟨str "pc", str "00:11:22:33:44:66", str "00-11-22-33-44-55"⟩ oneHost
      (saveWakeOnLanHost id ⟨str "pc", str "00:11:22:33:44:66", str "00-11-22-33-44-55"⟩
        oneHost) := by
  apply (saveWakeOnLanHost_atomic (by decide)).mpr
  intro oldName oldHost _ _
  rw [if_neg (by decide)]
  exact ⟨str "00-11-22-33-44-66", by decide +kernel⟩

theorem saveWakeOnLanHost_not_atomic : ¬ ∀ unfound payload d,
    payload.oldMacAddress ≠ [] → AtomicEdit payload d (saveWakeOnLanHost unfound payload d) := by
  intro h
  have hatomic := h id ⟨str "pc", str "nonsense", str "00-11-22-33-44-55"⟩ oneHost (by decide)
  obtain ⟨newName, hnew⟩ := (atomicEdit_changed (by decide) (by decide) macName_stored
    (Dir.read_write_self ..)).mp hatomic
  have hinvalid : macName (str "nonsense") = .error (str "invalid mac address") := by
    decide +kernel
  rw [hinvalid] at hnew
  cases hnew

end

end QrWireguard.WebUi
