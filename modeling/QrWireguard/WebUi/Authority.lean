import QrWireguard.Misc.Run
import QrWireguard.WebUi.Account

/-!
# Who may do what

The runs of the user routes: requests served one at a time, each with no session cookie or with
one that was set before. The authority of a session stands in its cookie, in the checksums in
memory and in the user files; the invariant says how the three agree.
-/

namespace QrWireguard.WebUi

/-! ## The effect of a request -/

/-- A user saved and a user removed, when the store operations succeed. -/
def UserDb.put (db : UserDb) (user : User) : UserDb where
  users := db.users.write user.username user
  dbUsersToCRC32 := keepCRC32 db.dbUsersToCRC32 user

def UserDb.drop (db : UserDb) (username : Str) : UserDb where
  users := db.users.delete username
  dbUsersToCRC32 := Function.update db.dbUsersToCRC32 username none

theorem UserDb.saveUser_none (db : UserDb) (user : User) :
    db.saveUser .none user = (db.put user, true) := by
  simp [UserDb.saveUser, UserDb.put, StoreFaults.none]

theorem UserDb.deleteUser_none (db : UserDb) (username : Str) :
    db.deleteUser .none username = (db.drop username, (db.users.read username).isSome) := by
  unfold UserDb.deleteUser UserDb.drop
  cases hread : db.users.read username with
  | some user => simp [StoreFaults.none]
  | none =>
    have husers : db.users.delete username = db.users := by
      refine Dir.ext_read fun name => ?_
      rw [Dir.read_delete]
      by_cases hname : name = username
      · rw [if_pos hname, hname, hread]
      · rw [if_neg hname]
    simp [husers]

/-- What a request whose store operations succeed leaves in the store, and the values it saves
into the session. `sess` is the session of the request. -/
inductive Acts (cfg : Config) (r : Request) (sess : SessionValues) (db : UserDb) :
    UserDb → Option SessionValues → Prop
  | nothing : Acts cfg r sess db db none
  | login {dbuser : User} {ageMax : Int} (huser : db.users.read dbuser.username = some dbuser) :
      Acts cfg r sess db db (some (loginSession dbuser r.tokenUID ageMax r.now))
  | logout (hvalid : isValidSession cfg sess db.dbUsersToCRC32 r.now r.token = true) :
      Acts cfg r sess db db (some (clearSession sess))
  | refresh (hvalid : isValidSession cfg sess db.dbUsersToCRC32 r.now r.token = true) :
      Acts cfg r sess db db (some { sess with updatedAt := some r.now })
  | update {previous : Str} {user user' : User}
      (hvalid : isValidSession cfg sess db.dbUsersToCRC32 r.now r.token = true)
      (hmay : isAdmin cfg sess = true ∨ previous = currentUser cfg sess)
      (huser : db.users.read previous = some user)
      (hfree : user'.username = previous ∨ db.users.read user'.username = none)
      (hadmin : previous = currentUser cfg sess → user'.admin = user.admin) :
      Acts cfg r sess db ((db.drop previous).put user')
        (if previous = currentUser cfg sess then
          some (setUser sess user'.username user'.admin (getDBUserCRC32 user'))
        else none)
  | create {user : User}
      (hvalid : isValidSession cfg sess db.dbUsersToCRC32 r.now r.token = true)
      (hmay : isAdmin cfg sess = true) (hfree : db.users.read user.username = none) :
      Acts cfg r sess db (db.put user) none
  | remove {username : Str}
      (hvalid : isValidSession cfg sess db.dbUsersToCRC32 r.now r.token = true)
      (hmay : isAdmin cfg sess = true) (hother : username ≠ currentUser cfg sess) :
      Acts cfg r sess db (db.drop username) none

section
variable {cfg : Config} {bcrypt : Bcrypt} {r : Request} {sess : SessionValues} {db : UserDb}

theorem acts_login (body : Option LoginBody) :
    Acts cfg r sess db (login bcrypt r body db).db (login bcrypt r body db).session := by
  fun_cases login bcrypt r body db
  case case5 username password rememberMe hname dbuser hread correct hcorrect hok ageMax =>
    simp only [Bool.and_eq_true, decide_eq_true_eq] at hok
    refine .login ?_
    rw [← hok.1]
    exact hread
  all_goals exact .nothing

theorem updatedUser_ok {username password previous : Str} {admin : Bool} {user' : User}
    (h : updatedUser cfg r sess username password previous admin db = .ok user') :
    (isAdmin cfg sess = true ∨ previous = currentUser cfg sess) ∧
      ∃ user, db.users.read previous = some user ∧
        (user'.username = previous ∨ db.users.read user'.username = none) ∧
        (previous = currentUser cfg sess → user'.admin = user.admin) := by
  revert h
  fun_cases updatedUser cfg r sess username password previous admin db
  case case7 hmay admin hprevious user hread hname hfree hash hash' hhash =>
    intro h
    obtain rfl := Except.ok.inj h
    refine ⟨?_, user, hread, ?_, fun hself => by simp [hself]⟩
    · by_cases hadm : isAdmin cfg sess = true
      · exact .inl hadm
      · exact .inr (by simpa [hadm] using hmay)
    · by_cases hsame : username = previous
      · exact .inl hsame
      · refine .inr ?_
        simpa [hsame, UserDb.getUserByName] using hfree
  all_goals
    intro h
    cases h

theorem acts_updateUser (body : Option UpdateUserBody) (hfaults : r.faults = .none)
    (hvalid : isValidSession cfg sess db.dbUsersToCRC32 r.now r.token = true) :
    Acts cfg r sess db (updateUser cfg r sess body db).db
      (updateUser cfg r sess body db).session := by
  unfold updateUser
  rw [hfaults]
  split
  · exact .nothing
  · next username password previous admin =>
    cases hupd : updatedUser cfg r sess username password previous admin db with
    | error response => exact .nothing
    | ok user' =>
      obtain ⟨hmay, user, hread, hfree, hadmin⟩ := updatedUser_ok hupd
      simp only [UserDb.deleteUser_none, hread, Option.isSome_some, UserDb.saveUser_none]
      exact .update hvalid hmay hread hfree hadmin
  · exact .nothing

theorem acts_createUser (body : Option CreateUserBody) (hfaults : r.faults = .none)
    (hvalid : isValidSession cfg sess db.dbUsersToCRC32 r.now r.token = true)
    (hmay : isAdmin cfg sess = true) :
    Acts cfg r sess db (createUser r body db).db (createUser r body db).session := by
  unfold createUser
  rw [hfaults]
  split
  · exact .nothing
  · next username _ admin =>
    split
    · exact .nothing
    · split
      · exact .nothing
      · next hfree =>
        cases r.hashPassword with
        | none => exact .nothing
        | some hash =>
          simp only [UserDb.saveUser_none]
          refine .create hvalid hmay ?_
          simpa [UserDb.getUserByName] using hfree
  · exact .nothing

theorem acts_removeUser (body : Option RemoveUserBody) (hfaults : r.faults = .none)
    (hvalid : isValidSession cfg sess db.dbUsersToCRC32 r.now r.token = true)
    (hmay : isAdmin cfg sess = true) :
    Acts cfg r sess db (removeUser cfg r sess body db).db
      (removeUser cfg r sess body db).session := by
  unfold removeUser
  rw [hfaults]
  split
  · exact .nothing
  · next username =>
    split
    · exact .nothing
    · split
      · exact .nothing
      · next hother =>
        simp only [UserDb.deleteUser_none]
        cases (db.users.read username).isSome with
        | false => exact .remove hvalid hmay hother
        | true => exact .remove hvalid hmay hother
  · exact .nothing

theorem acts_contentTypeJson {next : Outcome} (h : Acts cfg r sess db next.db next.session) :
    Acts cfg r sess db (contentTypeJson r db next).db (contentTypeJson r db next).session := by
  unfold contentTypeJson
  split
  · exact .nothing
  · exact h

theorem acts_needsAdmin {next : Outcome}
    (h : isAdmin cfg sess = true → Acts cfg r sess db next.db next.session) :
    Acts cfg r sess db (needsAdmin cfg sess db next).db
      (needsAdmin cfg sess db next).session := by
  unfold needsAdmin
  split
  · exact .nothing
  · next hadm => exact h (by simpa using hadm)

theorem acts_validSession {url : Option Str} {next : SessionValues → Outcome}
    (h : isValidSession cfg (sessionGet r.cookie r.now) db.dbUsersToCRC32 r.now r.token = true →
      Acts cfg r (sessionGet r.cookie r.now) db (next (sessionGet r.cookie r.now)).db
        (next (sessionGet r.cookie r.now)).session) :
    Acts cfg r (sessionGet r.cookie r.now) db (validSession cfg r url db next).db
      (validSession cfg r url db next).session := by
  unfold validSession
  dsimp only
  split
  · split <;> exact .nothing
  · next hvalid => exact h (by simpa using hvalid)

theorem acts_refreshSession {next : Outcome} (hdb : next.db = db)
    (hvalid : isValidSession cfg sess db.dbUsersToCRC32 r.now r.token = true) :
    Acts cfg r sess db (refreshSession cfg r sess next).db
      (refreshSession cfg r sess next).session := by
  simp only [refreshSession, hdb]
  cases hnew : doRefreshSession cfg sess r.now r.token with
  | none => exact .nothing
  | some values =>
    have hvalues : values = { sess with updatedAt := some r.now } := by
      unfold doRefreshSession at hnew
      dsimp only at hnew
      split at hnew
      · cases hnew
      · split at hnew
        · cases hnew
        · split at hnew
          · cases hnew
          · split at hnew
            · cases hnew
            · exact (Option.some.inj hnew).symm
    rw [hvalues]
    exact .refresh hvalid

/-- Every request has one of the effects. -/
theorem acts_serve (hfaults : r.faults = .none) :
    Acts cfg r (sessionGet r.cookie r.now) db (serve cfg bcrypt r db).db
      (serve cfg bcrypt r db).session := by
  unfold serve
  split
  · exact .nothing
  · cases r.call with
    | login body => exact acts_contentTypeJson (acts_login body)
    | logout url => exact acts_validSession fun hvalid => .logout hvalid
    | page url admin =>
      refine acts_validSession fun hvalid => acts_refreshSession ?_ hvalid
      split
      · unfold needsAdmin
        split <;> rfl
      · rfl
    | updateUser body =>
      exact acts_validSession fun hvalid =>
        acts_contentTypeJson (acts_updateUser body hfaults hvalid)
    | createUser body =>
      exact acts_validSession fun hvalid =>
        acts_contentTypeJson (acts_needsAdmin (acts_createUser body hfaults hvalid))
    | removeUser body =>
      exact acts_validSession fun hvalid =>
        acts_contentTypeJson (acts_needsAdmin (acts_removeUser body hfaults hvalid))

end

/-! ## Runs -/

/-- The store with what has happened so far: the session cookies set and the records that the
user files have held. -/
structure Site where
  db : UserDb
  issued : List SessionCookie
  stored : List User

/-- The site when a request has left `db` and saved `session`. -/
def Site.after (s : Site) (now : Int) (db : UserDb) (session : Option SessionValues) : Site where
  db := db
  issued := s.issued ++ (session.map fun values => ⟨values, now⟩).toList
  stored := s.stored ++ db.users.readAll

/-- A request is served. -/
def Site.serve (cfg : Config) (bcrypt : Bcrypt) (s : Site) (r : Request) : Site :=
  s.after r.now (WebUi.serve cfg bcrypt r s.db).db (WebUi.serve cfg bcrypt r s.db).session

/-- A request comes in with a session cookie that was set before, if with any. -/
def Site.Step (cfg : Config) (bcrypt : Bcrypt) (s : Site) (r : Request) (t : Site) : Prop :=
  (∀ cookie, r.cookie = some cookie → cookie ∈ s.issued) ∧ t = s.serve cfg bcrypt r

/-- A site at start-up: `Init` has run over user files that stand under their users' names. -/
def Site.Start (s : Site) : Prop :=
  ∃ users username passwordHash,
    (∀ name user, users.read name = some user → user.username = name) ∧
      s = ⟨initUsers users username passwordHash, [], (initUsers users username passwordHash).users.readAll⟩

/-- A site that starts without user files. -/
def Site.Fresh (s : Site) : Prop :=
  ∃ username passwordHash, s = ⟨initUsers .empty username passwordHash, [],
    (initUsers .empty username passwordHash).users.readAll⟩

/-- The sites reached by requests whose store operations succeed. -/
abbrev SiteReach (cfg : Config) (bcrypt : Bcrypt) (start : Site → Prop) : Site → Prop :=
  Reach start (Site.Step cfg bcrypt) fun _ r => r.faults = .none

/-- The session values the server has given out: those of a user whose record was stored, and
those of a logout. -/
def Granted (stored : List User) (values : SessionValues) : Prop :=
  (∃ user ∈ stored, values.username = some user.username ∧
    values.userHash = some (getDBUserCRC32 user) ∧ values.admin = some user.admin) ∨
  values.maxAge = some (-1)

/-- How cookies, checksums and files agree. -/
structure Site.Sound (s : Site) : Prop where
  named : ∀ name user, s.db.users.read name = some user → user.username = name
  crcs : ∀ name, s.db.dbUsersToCRC32 name = (s.db.users.read name).map getDBUserCRC32
  stored : ∀ name user, s.db.users.read name = some user → user ∈ s.stored
  granted : ∀ cookie ∈ s.issued, Granted s.stored cookie.values

theorem Granted.mono {stored stored' : List User} {values : SessionValues}
    (h : Granted stored values) (hsub : ∀ user ∈ stored, user ∈ stored') :
    Granted stored' values := by
  rcases h with ⟨user, hmem, hvalues⟩ | hcleared
  · exact .inl ⟨user, hsub user hmem, hvalues⟩
  · exact .inr hcleared

/-- A checksum is in memory for exactly the users in the files. -/
theorem foldl_keepCRC32 {l : List (Str × User)} (hsorted : l.Pairwise (fun a b => a.1 < b.1))
    (hnamed : ∀ e ∈ l, e.2.username = e.1) (crcs : Str → Option UInt32) (name : Str) :
    (l.map (·.2)).foldl keepCRC32 crcs name =
      match Dir.lookup name l with
      | some user => some (getDBUserCRC32 user)
      | none => crcs name := by
  induction l generalizing crcs with
  | nil => rfl
  | cons entry rest ih =>
    rcases entry with ⟨key, user⟩
    have hkey : user.username = key := hnamed (key, user) List.mem_cons_self
    have hrest := List.pairwise_cons.mp hsorted
    rw [List.map_cons, List.foldl_cons,
      ih hrest.2 (fun e he => hnamed e (List.mem_cons_of_mem _ he)), keepCRC32, hkey, Dir.lookup]
    by_cases hname : name = key
    · have hnone : Dir.lookup name rest = none := by
        cases hlookup : Dir.lookup name rest with
        | none => rfl
        | some other =>
          have hmem := (Dir.lookup_eq_some_iff hrest.2).mp hlookup
          rw [hname] at hmem
          exact absurd (hrest.1 _ hmem) (lt_irrefl key)
      rw [hnone, if_pos hname, hname]
      exact Function.update_self ..
    · rw [if_neg hname]
      cases Dir.lookup name rest with
      | some other => rfl
      | none => exact Function.update_of_ne hname ..

theorem initUsers_named {users : Dir Str User} {username passwordHash : Str}
    (hnamed : ∀ name user, users.read name = some user → user.username = name) (name : Str)
    (user : User) (h : (initUsers users username passwordHash).users.read name = some user) :
    user.username = name := by
  unfold initUsers at h
  dsimp only at h
  split at h
  · rw [Dir.read_write] at h
    split at h
    · next heq => rw [← Option.some.inj h, heq]
    · exact hnamed name user h
  · exact hnamed name user h

theorem Site.Start.sound {s : Site} (h : s.Start) : s.Sound := by
  obtain ⟨users, username, passwordHash, hnamed, rfl⟩ := h
  have hnamed' := @initUsers_named users username passwordHash hnamed
  refine ⟨hnamed', fun name => ?_, fun name user hread => Dir.mem_readAll.mpr ⟨name, hread⟩,
    fun cookie hmem => absurd hmem List.not_mem_nil⟩
  have hentries : ∀ e ∈ (initUsers users username passwordHash).users.entries,
      e.2.username = e.1 := fun e he =>
    hnamed' e.1 e.2 ((Dir.lookup_eq_some_iff (Dir.sorted _)).mpr he)
  refine (foldl_keepCRC32 (Dir.sorted _) hentries (fun _ => none) name).trans ?_
  unfold Dir.read
  cases Dir.lookup name (initUsers users username passwordHash).users.entries <;> rfl

theorem Site.Fresh.start {s : Site} (h : s.Fresh) : s.Start := by
  obtain ⟨username, passwordHash, rfl⟩ := h
  exact ⟨.empty, username, passwordHash, fun name user hread => by simp at hread, rfl⟩

/-! ## The invariant -/

/-- The files and the checksums of a store agree. -/
structure UserDb.Agrees (db : UserDb) : Prop where
  named : ∀ name user, db.users.read name = some user → user.username = name
  crcs : ∀ name, db.dbUsersToCRC32 name = (db.users.read name).map getDBUserCRC32

theorem UserDb.read_put (db : UserDb) (user : User) (name : Str) :
    (db.put user).users.read name = if name = user.username then some user else db.users.read name :=
  Dir.read_write ..

theorem UserDb.read_drop (db : UserDb) (username name : Str) :
    (db.drop username).users.read name = if name = username then none else db.users.read name :=
  Dir.read_delete ..

theorem UserDb.Agrees.put {db : UserDb} (h : db.Agrees) (user : User) : (db.put user).Agrees := by
  constructor
  · intro name other hread
    rw [UserDb.read_put] at hread
    by_cases hname : name = user.username
    · rw [if_pos hname] at hread
      rw [← Option.some.inj hread, hname]
    · rw [if_neg hname] at hread
      exact h.named name other hread
  · intro name
    rw [UserDb.read_put]
    by_cases hname : name = user.username
    · rw [if_pos hname, hname]
      exact Function.update_self ..
    · rw [if_neg hname, ← h.crcs name]
      exact Function.update_of_ne hname ..

theorem UserDb.Agrees.drop {db : UserDb} (h : db.Agrees) (username : Str) :
    (db.drop username).Agrees := by
  constructor
  · intro name other hread
    rw [UserDb.read_drop] at hread
    by_cases hname : name = username
    · rw [if_pos hname] at hread
      cases hread
    · rw [if_neg hname] at hread
      exact h.named name other hread
  · intro name
    rw [UserDb.read_drop]
    by_cases hname : name = username
    · rw [if_pos hname, hname]
      exact Function.update_self ..
    · rw [if_neg hname, ← h.crcs name]
      exact Function.update_of_ne hname ..

section
variable {cfg : Config} {bcrypt : Bcrypt} {s t : Site} {r : Request}

/-- A session that is accepted comes from a cookie that was set. -/
theorem cookie_of_valid (hlogin : cfg.disableLogin = false)
    (hvalid : isValidSession cfg (sessionGet r.cookie r.now) s.db.dbUsersToCRC32 r.now r.token = true) :
    ∃ cookie, r.cookie = some cookie ∧ sessionGet r.cookie r.now = cookie.values := by
  have hnew : sessionGet r.cookie r.now ≠ .new := by
    intro hnew
    have htoken := ((isValidSession_iff hlogin).mp hvalid).token
    rw [hnew] at htoken
    exact htoken.1 htoken.2.symm
  cases hcookie : r.cookie with
  | none => exact absurd (by rw [hcookie]; rfl) hnew
  | some cookie =>
    refine ⟨cookie, rfl, ?_⟩
    by_cases hold : cookie.timestamp < r.now - cookieStoreMaxAge
    · exact absurd (by rw [hcookie, sessionGet, if_pos hold]) hnew
    · rw [sessionGet, if_neg hold]

/-- With the login disabled the user routes do not exist. -/
theorem serve_disabled (hlogin : cfg.disableLogin = true) (db : UserDb) :
    serve cfg bcrypt r db = db.answer .notFound := by
  rw [serve, if_pos hlogin]

theorem Site.Sound.agrees (h : s.Sound) : s.db.Agrees := ⟨h.named, h.crcs⟩

theorem Site.Sound.after {db : UserDb} {session : Option SessionValues} (hs : s.Sound)
    (now : Int) (hagrees : db.Agrees)
    (hnew : ∀ values, session = some values → Granted (s.stored ++ db.users.readAll) values) :
    (s.after now db session).Sound := by
  refine ⟨hagrees.named, hagrees.crcs, fun name user hread => ?_, fun cookie hmem => ?_⟩
  · exact List.mem_append_right _ (Dir.mem_readAll.mpr ⟨name, hread⟩)
  · rcases List.mem_append.mp hmem with hold | hset
    · exact (hs.granted cookie hold).mono fun user => List.mem_append_left _
    · obtain ⟨values, hvalues, rfl⟩ : ∃ values, session = some values ∧ ⟨values, now⟩ = cookie := by
        simpa [Site.after] using hset
      exact hnew values hvalues

theorem Site.Sound.step (hs : s.Sound) (hfaults : r.faults = .none)
    (hstep : Site.Step cfg bcrypt s r t) : t.Sound := by
  obtain ⟨hcookie, rfl⟩ := hstep
  unfold Site.serve
  by_cases hlogin : cfg.disableLogin = true
  · rw [serve_disabled hlogin]
    exact hs.after r.now hs.agrees (by simp [UserDb.answer])
  have hlogin : cfg.disableLogin = false := by simpa using hlogin
  have hgranted : isValidSession cfg (sessionGet r.cookie r.now) s.db.dbUsersToCRC32 r.now r.token =
      true → Granted s.stored (sessionGet r.cookie r.now) := by
    intro hvalid
    obtain ⟨cookie, hsome, hvalues⟩ := cookie_of_valid hlogin hvalid
    rw [hvalues]
    exact hs.granted cookie (hcookie cookie hsome)
  have hacts : Acts cfg r (sessionGet r.cookie r.now) s.db (WebUi.serve cfg bcrypt r s.db).db
      (WebUi.serve cfg bcrypt r s.db).session := acts_serve hfaults
  generalize (WebUi.serve cfg bcrypt r s.db).db = db,
    (WebUi.serve cfg bcrypt r s.db).session = session at hacts ⊢
  cases hacts with
  | nothing => exact hs.after r.now hs.agrees (by simp)
  | @login dbuser ageMax huser =>
    refine hs.after r.now hs.agrees fun values hvalues => ?_
    obtain rfl := Option.some.inj hvalues
    exact .inl ⟨dbuser, List.mem_append_left _ (hs.stored _ _ huser), rfl, rfl, rfl⟩
  | logout hvalid =>
    refine hs.after r.now hs.agrees fun values hvalues => ?_
    obtain rfl := Option.some.inj hvalues
    exact .inr rfl
  | refresh hvalid =>
    refine hs.after r.now hs.agrees fun values hvalues => ?_
    obtain rfl := Option.some.inj hvalues
    have hold := (hgranted hvalid).mono fun user => List.mem_append_left s.db.users.readAll
    exact hold
  | @update previous user user' hvalid hmay huser hfree hadmin =>
    refine hs.after r.now ((hs.agrees.drop previous).put user') fun values hvalues => ?_
    split at hvalues
    · obtain rfl := Option.some.inj hvalues
      refine .inl ⟨user', List.mem_append_right _ (Dir.mem_readAll.mpr ⟨user'.username, ?_⟩),
        rfl, rfl, rfl⟩
      rw [UserDb.read_put, if_pos rfl]
    · cases hvalues
  | create hvalid hmay hfree => exact hs.after r.now (hs.agrees.put _) (by simp)
  | remove hvalid hmay hother => exact hs.after r.now (hs.agrees.drop _) (by simp)

theorem SiteReach.sound (h : SiteReach cfg bcrypt Site.Start s) : s.Sound :=
  h.invariant (fun _ hstart => hstart.sound) fun _ _ _ hs hfaults hstep => hs.step hfaults hstep

/-! ## What an accepted session may rely on -/

/-- Two records of one user that differ in the `Admin` flag differ in the checksum. -/
def ChecksumsTell (stored : List User) : Prop :=
  ∀ user ∈ stored, ∀ other ∈ stored, user.username = other.username →
    getDBUserCRC32 user = getDBUserCRC32 other → user.admin = other.admin

theorem ChecksumsTell.mono {stored stored' : List User} (h : ChecksumsTell stored')
    (hsub : ∀ user ∈ stored, user ∈ stored') : ChecksumsTell stored :=
  fun user hmem other hmem' => h user (hsub user hmem) other (hsub other hmem')

/-- A logout's cookie is expired at any time. -/
theorem ValidSession.maxAge_ne {sess : SessionValues} {crcs : Str → Option UInt32} {now : Int}
    {token : Option Str} (hlogin : cfg.disableLogin = false)
    (h : ValidSession cfg sess crcs now token) : sess.maxAge ≠ some (-1) := by
  intro hcleared
  have hage : getMaxAge cfg sess = -1 := by
    simp [getMaxAge, hlogin, hcleared]
  have hearly := h.notEarly
  have hexpired := h.notExpired
  rw [hage, validFor, if_neg (by decide)] at hexpired
  omega

theorem Site.Sound.rights {cookie : SessionCookie} {now : Int} {token : Option Str}
    (hs : s.Sound) (htell : ChecksumsTell s.stored) (hlogin : cfg.disableLogin = false)
    (hmem : cookie ∈ s.issued)
    (hvalid : isValidSession cfg cookie.values s.db.dbUsersToCRC32 now token = true) :
    ∃ username user, cookie.values.username = some username ∧
      s.db.users.read username = some user ∧ cookie.values.admin = some user.admin := by
  have hv := (isValidSession_iff hlogin).mp hvalid
  rcases hs.granted cookie hmem with ⟨old, hold, husername, hhash, hadmin⟩ | hcleared
  · have hcrc := hv.userHash
    have hname : sessionUsername cookie.values = old.username := by
      simp [sessionUsername, husername]
    have hsum : getUserHash cfg cookie.values = getDBUserCRC32 old := by
      simp [getUserHash, hlogin, hhash]
    rw [hname, hsum, hs.crcs, Option.map_eq_some_iff] at hcrc
    obtain ⟨user, hread, hsame⟩ := hcrc
    refine ⟨old.username, user, husername, hread, ?_⟩
    have hnamed := hs.named _ _ hread
    rw [hadmin, htell user (hs.stored _ _ hread) old hold hnamed hsame]
  · exact absurd hcleared (hv.maxAge_ne hlogin)

theorem issued_disabled {start : Site → Prop} (hstart : ∀ s, start s → s.issued = [])
    (hlogin : cfg.disableLogin = true) (h : SiteReach cfg bcrypt start s) : s.issued = [] := by
  refine Reach.invariant (I := fun w => w.issued = []) hstart (fun w r t hw hfaults hstep => ?_) h
  obtain ⟨-, rfl⟩ := hstep
  rw [Site.serve, serve_disabled hlogin]
  simp [Site.after, UserDb.answer, hw]

theorem Site.Start.issued (h : s.Start) : s.issued = [] := by
  obtain ⟨users, username, passwordHash, -, rfl⟩ := h
  rfl

end

/-! ## Runs of a list of requests -/

/-- Requests served one after the other. -/
def Site.run (cfg : Config) (bcrypt : Bcrypt) (s : Site) (rs : List Request) : Site :=
  rs.foldl (Site.serve cfg bcrypt) s

/-- Every session cookie of the requests was set before. -/
def Site.authentic (cfg : Config) (bcrypt : Bcrypt) (s : Site) : List Request → Bool
  | [] => true
  | r :: rs => r.cookie.all (fun cookie => decide (cookie ∈ s.issued)) &&
      (s.serve cfg bcrypt r).authentic cfg bcrypt rs

theorem reach_run {cfg : Config} {bcrypt : Bcrypt} {start : Site → Prop} {s : Site}
    {rs : List Request} (h : SiteReach cfg bcrypt start s)
    (hauth : s.authentic cfg bcrypt rs = true) (hfaults : ∀ r ∈ rs, r.faults = .none) :
    SiteReach cfg bcrypt start (s.run cfg bcrypt rs) := by
  induction rs generalizing s with
  | nil => exact h
  | cons r rs ih =>
    rw [Site.authentic, Bool.and_eq_true] at hauth
    refine ih (.step h (hfaults r List.mem_cons_self) ⟨fun cookie hcookie => ?_, rfl⟩) hauth.2
      fun r' hr' => hfaults r' (List.mem_cons_of_mem _ hr')
    simpa [hcookie] using hauth.1

end QrWireguard.WebUi
