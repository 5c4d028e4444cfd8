import QrWireguard.WebUi.Roles

/-!
# Updates of users

`UpdateUser` deletes the record of a user before it saves the new one. Each of the two touches the
checksums in memory and the files in its own order, and nothing is undone when one of them fails.
-/

namespace QrWireguard.WebUi

/-- Whether a response reports success. -/
def Response.success : Response → Bool
  | json _ status _ => status
  | _ => false

/-- The checksums in memory are those of the users on disk. -/
def UserDb.CacheExact (db : UserDb) : Prop :=
  ∀ name, db.dbUsersToCRC32 name = (db.users.read name).map getDBUserCRC32

/-- An update of a user that is all or nothing: without success the store is as it was, and with
success the updated record stands in the place of the previous one and the checksums are exact. -/
structure AllOrNothing (cfg : Config) (r : Request) (sess : SessionValues)
    (body : Option UpdateUserBody) (db : UserDb) (out : Outcome) : Prop where
  kept : out.response.success = false → out.db = db
  replaced : out.response.success = true → ∃ username password previous admin user,
    body = some ⟨some username, some password, some previous, some admin⟩ ∧
      updatedUser cfg r sess username password previous admin db = .ok user ∧
      out.db.users = (db.users.delete previous).write user.username user ∧ out.db.CacheExact

/-- The condition on the end of an update that has passed the checks: every store operation
succeeds and the checksums of the other users are exact, or the previous user has no checksum that
could be lost and its record is not deleted, or is written again as it is. -/
def UpdateKeeps (faults : StoreFaults) (previous : Str) (user : User) (db : UserDb) : Prop :=
  (faults = .none ∧ ∀ name, name ≠ previous → name ≠ user.username →
      db.dbUsersToCRC32 name = (db.users.read name).map getDBUserCRC32) ∨
    (db.dbUsersToCRC32 previous = none ∧
      (faults.deleteOk = false ∨ (faults = ⟨true, true, false⟩ ∧ user.username = previous ∧
        db.users.read previous = some user)))

section
variable {cfg : Config} {r : Request} {sess : SessionValues} {db : UserDb}

theorem updatedUser_error {username password previous : Str} {admin : Bool} {response : Response}
    (h : updatedUser cfg r sess username password previous admin db = .error response) :
    response.success = false := by
  revert h
  fun_cases updatedUser cfg r sess username password previous admin db
  case case7 =>
    intro h
    cases h
  all_goals
    intro h
    obtain rfl := Except.error.inj h
    rfl

/-- An answer that leaves the store as it is and does not report success. -/
theorem allOrNothing_answer {body : Option UpdateUserBody} {response : Response}
    (h : response.success = false) : AllOrNothing cfg r sess body db (db.answer response) where
  kept _ := rfl
  replaced hsuccess := by
    rw [show (db.answer response).response = response from rfl, h] at hsuccess
    cases hsuccess

theorem update_none_eq_iff {α : Type} {f : Str → Option α} {name : Str} :
    Function.update f name none = f ↔ f name = none := by
  rw [Function.update_eq_self_iff]
  exact eq_comm

/-- The checksums after an update are exact when those of the other users are. -/
theorem cacheExact_put_drop {previous : Str} {user' : User} :
    ((db.drop previous).put user').CacheExact ↔
      ∀ name, name ≠ previous → name ≠ user'.username →
        db.dbUsersToCRC32 name = (db.users.read name).map getDBUserCRC32 := by
  have hcrcs : ∀ name, ((db.drop previous).put user').dbUsersToCRC32 name =
      if name = user'.username then some (getDBUserCRC32 user')
      else if name = previous then none else db.dbUsersToCRC32 name := by
    intro name
    simp only [UserDb.put, UserDb.drop, keepCRC32, Function.update_apply]
  unfold UserDb.CacheExact
  constructor
  · intro h name hprevious hname
    have hother := h name
    rwa [hcrcs, UserDb.read_put, UserDb.read_drop, if_neg hname, if_neg hname, if_neg hprevious,
      if_neg hprevious] at hother
  · intro h name
    rw [hcrcs, UserDb.read_put, UserDb.read_drop]
    by_cases hname : name = user'.username
    · rw [if_pos hname, if_pos hname]
      rfl
    · rw [if_neg hname, if_neg hname]
      by_cases hprevious : name = previous
      · rw [if_pos hprevious, if_pos hprevious]
        rfl
      · rw [if_neg hprevious, if_neg hprevious]
        exact h name hprevious hname

theorem deleteUser_ok {faults : StoreFaults} {previous : Str} (hdelete : faults.deleteOk = true)
    (hread : (db.users.read previous).isSome) :
    db.deleteUser faults previous = (db.drop previous, true) := by
  unfold UserDb.deleteUser
  rw [hdelete, hread]
  rfl

theorem deleteUser_failed {faults : StoreFaults} (hdelete : faults.deleteOk = false)
    (db : UserDb) (previous : Str) :
    db.deleteUser faults previous = ({ db with
      dbUsersToCRC32 := Function.update db.dbUsersToCRC32 previous none }, false) := by
  unfold UserDb.deleteUser
  rw [hdelete]
  rfl

theorem saveUser_ok {faults : StoreFaults} (hwrite : faults.writeOk = true)
    (hperms : faults.permsOk = true) (db : UserDb) (user : User) :
    db.saveUser faults user = (db.put user, true) := by
  unfold UserDb.saveUser
  rw [hwrite, hperms, if_pos rfl]
  dsimp only
  rw [Dir.read_write_self]
  rfl

theorem saveUser_written {faults : StoreFaults} (hwrite : faults.writeOk = true)
    (hperms : faults.permsOk = false) (db : UserDb) (user : User) :
    db.saveUser faults user = ({ db with users := db.users.write user.username user }, false) := by
  unfold UserDb.saveUser
  rw [hwrite, hperms]
  rfl

/-- A new file that is not written has no permissions to set either. -/
theorem saveUser_failed {faults : StoreFaults} {user : User} (hwrite : faults.writeOk = false)
    (hread : db.users.read user.username = none) : db.saveUser faults user = (db, false) := by
  unfold UserDb.saveUser
  rw [hwrite, if_neg Bool.false_ne_true]
  dsimp only
  rw [hread, Option.isSome_none, Bool.and_false]
  rfl

section
variable {username password previous : Str} {admin : Bool} {user : User}

theorem updateUser_delete_failed
    (h : updatedUser cfg r sess username password previous admin db = .ok user) {db' : UserDb}
    (hdelete : db.deleteUser r.faults previous = (db', false)) :
    updateUser cfg r sess (some ⟨some username, some password, some previous, some admin⟩) db =
      db'.answer (.error 500) := by
  simp only [updateUser, h, hdelete]

theorem updateUser_save_failed
    (h : updatedUser cfg r sess username password previous admin db = .ok user) {db' db'' : UserDb}
    (hdelete : db.deleteUser r.faults previous = (db', true))
    (hsave : db'.saveUser r.faults user = (db'', false)) :
    updateUser cfg r sess (some ⟨some username, some password, some previous, some admin⟩) db =
      db''.answer (.error 500) := by
  simp only [updateUser, h, hdelete, hsave]

theorem updateUser_saved
    (h : updatedUser cfg r sess username password previous admin db = .ok user) {db' db'' : UserDb}
    (hdelete : db.deleteUser r.faults previous = (db', true))
    (hsave : db'.saveUser r.faults user = (db'', true)) :
    (updateUser cfg r sess (some ⟨some username, some password, some previous, some admin⟩) db).db =
        db'' ∧
      (updateUser cfg r sess (some ⟨some username, some password, some previous, some admin⟩)
        db).response = .json 200 true "Updated user information successfully" := by
  simp [updateUser, h, hdelete, hsave]

/-- An update that fails with an error is all or nothing when it has left the store as it was. -/
theorem allOrNothing_error {body : Option UpdateUserBody} {db' : UserDb} {code : Nat} :
    AllOrNothing cfg r sess body db (db'.answer (.error code)) ↔ db' = db := by
  constructor
  · exact fun h => h.kept rfl
  · rintro rfl
    exact allOrNothing_answer rfl

theorem forget_eq_iff : ({ db with
    dbUsersToCRC32 := Function.update db.dbUsersToCRC32 previous none } : UserDb) = db ↔
      db.dbUsersToCRC32 previous = none := by
  cases db
  rw [UserDb.mk.injEq, update_none_eq_iff]
  exact and_iff_right rfl

/-- A user that is deleted and written again is the same only when its record and its missing
checksum are. -/
theorem rewritten_eq_iff (hread : (db.users.read previous).isSome) :
    ({ db.drop previous with
      users := (db.drop previous).users.write user.username user } : UserDb) = db ↔
      db.dbUsersToCRC32 previous = none ∧ user.username = previous ∧
        db.users.read previous = some user := by
  have hafter : ∀ name, ((db.drop previous).users.write user.username user).read name =
      if name = user.username then some user
      else if name = previous then none else db.users.read name := by
    intro name
    rw [Dir.read_write, UserDb.read_drop]
  constructor
  · intro h
    have hcrcs : db.dbUsersToCRC32 previous = none := by
      rw [← congrArg UserDb.dbUsersToCRC32 h]
      exact Function.update_self ..
    have husers := congrArg (·.users.read previous) h
    dsimp only at husers
    rw [hafter] at husers
    by_cases hname : previous = user.username
    · rw [if_pos hname] at husers
      exact ⟨hcrcs, hname.symm, husers.symm⟩
    · rw [if_neg hname, if_pos rfl] at husers
      rw [← husers] at hread
      cases hread
  · rintro ⟨hcrcs, hname, husers⟩
    have hdir : (db.drop previous).users.write user.username user = db.users := by
      apply Dir.ext_read
      intro name
      rw [hafter, hname]
      by_cases hself : name = previous
      · rw [if_pos hself, hself, husers]
      · rw [if_neg hself, if_neg hself]
    rw [hdir]
    exact forget_eq_iff.mpr hcrcs

/-- An update that succeeds is all or nothing when the other checksums are exact. -/
theorem allOrNothing_saved
    (h : updatedUser cfg r sess username password previous admin db = .ok user) {out : Outcome}
    (hdb : out.db = (db.drop previous).put user)
    (hresponse : out.response = .json 200 true "Updated user information successfully") :
    AllOrNothing cfg r sess (some ⟨some username, some password, some previous, some admin⟩) db
        out ↔
      ∀ name, name ≠ previous → name ≠ user.username →
        db.dbUsersToCRC32 name = (db.users.read name).map getDBUserCRC32 := by
  rw [← cacheExact_put_drop]
  constructor
  · intro hall
    obtain ⟨_, _, _, _, _, -, -, -, hexact⟩ := hall.replaced (by rw [hresponse]; rfl)
    rwa [hdb] at hexact
  · intro hothers
    refine ⟨?_, fun _ => ⟨username, password, previous, admin, user, rfl, h, ?_, ?_⟩⟩
    · intro hfailed
      rw [hresponse] at hfailed
      cases hfailed
    · rw [hdb]
      rfl
    · rwa [hdb]

/-- The end of an update that has passed the checks. -/
theorem updateUser_passed
    (h : updatedUser cfg r sess username password previous admin db = .ok user) :
    AllOrNothing cfg r sess (some ⟨some username, some password, some previous, some admin⟩) db
        (updateUser cfg r sess (some ⟨some username, some password, some previous, some admin⟩) db) ↔
      UpdateKeeps r.faults previous user db := by
  obtain ⟨-, old, hread, hfree, -⟩ := updatedUser_ok h
  have hsome : (db.users.read previous).isSome := by rw [hread]; rfl
  unfold UpdateKeeps
  cases hfaults : r.faults with
  | mk deleteOk writeOk permsOk =>
    cases deleteOk with
    | false =>
      -- the file stays, and the checksum goes
      have hdelete := deleteUser_failed (show r.faults.deleteOk = false by rw [hfaults]) db previous
      rw [updateUser_delete_failed h hdelete, allOrNothing_error, forget_eq_iff]
      constructor
      · exact fun hnone => .inr ⟨hnone, .inl rfl⟩
      · rintro (⟨hfault, -⟩ | ⟨hnone, -⟩)
        · cases hfault
        · exact hnone
    | true =>
      have hdelete := deleteUser_ok (show r.faults.deleteOk = true by rw [hfaults]) hsome
      cases writeOk with
      | false =>
        have hgone : (db.drop previous).users.read user.username = none := by
          rw [UserDb.read_drop]
          split
          · rfl
          · rename_i hname
            exact hfree.resolve_left hname
        have hsave := saveUser_failed (show r.faults.writeOk = false by rw [hfaults]) hgone
        rw [updateUser_save_failed h hdelete hsave, allOrNothing_error]
        apply iff_of_false
        · intro hsame
          rw [← hsame, UserDb.read_drop, if_pos rfl] at hread
          cases hread
        · rintro (⟨hfault, -⟩ | ⟨-, hfault | ⟨hfault, -⟩⟩)
          · cases hfault
          · cases hfault
          · cases hfault
      | true =>
        cases permsOk with
        | false =>
          have hsave := saveUser_written (show r.faults.writeOk = true by rw [hfaults])
            (show r.faults.permsOk = false by rw [hfaults]) (db.drop previous) user
          rw [updateUser_save_failed h hdelete hsave, allOrNothing_error, rewritten_eq_iff hsome]
          constructor
          · rintro ⟨hnone, hname, hsame⟩
            exact .inr ⟨hnone, .inr ⟨rfl, hname, hsame⟩⟩
          · rintro (⟨hfault, -⟩ | ⟨hnone, hfault | ⟨-, hname, hsame⟩⟩)
            · cases hfault
            · cases hfault
            · exact ⟨hnone, hname, hsame⟩
        | true =>
          have hsave := saveUser_ok (show r.faults.writeOk = true by rw [hfaults])
            (show r.faults.permsOk = true by rw [hfaults]) (db.drop previous) user
          obtain ⟨hdb, hresponse⟩ := updateUser_saved h hdelete hsave
          rw [allOrNothing_saved h hdb hresponse]
          constructor
          · exact fun hothers => .inl ⟨rfl, hothers⟩
          · rintro (⟨-, hothers⟩ | ⟨-, hfault | ⟨hfault, -⟩⟩)
            · exact hothers
            · cases hfault
            · cases hfault

end

/-- An update of a user is all or nothing just when its checks refuse it or its end keeps the
store in step. -/
theorem updateUser_allOrNothing (cfg : Config) (r : Request) (sess : SessionValues)
    (body : Option UpdateUserBody) (db : UserDb) :
    AllOrNothing cfg r sess body db (updateUser cfg r sess body db) ↔
      ∀ username password previous admin user,
        body = some ⟨some username, some password, some previous, some admin⟩ →
        updatedUser cfg r sess username password previous admin db = .ok user →
        UpdateKeeps r.faults previous user db := by
  constructor
  · rintro h username password previous admin user rfl hupdated
    exact (updateUser_passed hupdated).mp h
  · intro h
    match body, h with
    | none, _ => exact allOrNothing_answer rfl
    | some ⟨some username, some password, some previous, some admin⟩, h =>
      cases hupdated : updatedUser cfg r sess username password previous admin db with
      | error response =>
        simp only [updateUser, hupdated]
        exact allOrNothing_answer (updatedUser_error hupdated)
      | ok user => exact (updateUser_passed hupdated).mpr (h _ _ _ _ _ rfl hupdated)
    | some ⟨none, _, _, _⟩, _ => exact allOrNothing_answer rfl
    | some ⟨some _, none, _, _⟩, _ => exact allOrNothing_answer rfl
    | some ⟨some _, some _, none, _⟩, _ => exact allOrNothing_answer rfl
    | some ⟨some _, some _, some _, none⟩, _ => exact allOrNothing_answer rfl

end

/-- The body with which the default user takes another name. -/
def renameBody : UpdateUserBody :=
  ⟨some (str "boss"), some [], some (str "admin"), some true⟩

/-- The request with that body, on a full disk: the record is deleted and not written again. -/
def renameRequest : Request :=
  { browserRequest (.updateUser (some renameBody)) none none 1000 [] none with
    faults := ⟨true, false, true⟩ }

/-- On a full disk an update of the only user is answered with an error and leaves no user. -/
theorem updateUser_not_allOrNothing :
    ¬ AllOrNothing usualConfig renameRequest
      (loginSession ⟨str "admin", [], adminHash, true⟩ (str "t1") 0 1000) (some renameBody)
      freshSite.db (updateUser usualConfig renameRequest
        (loginSession ⟨str "admin", [], adminHash, true⟩ (str "t1") 0 1000) (some renameBody)
        freshSite.db) := by
  intro h
  have hkept := h.kept (by decide +kernel)
  have husers := congrArg (·.users.readAll.length) hkept
  revert husers
  decide +kernel

end QrWireguard.WebUi
