import Mathlib.Data.Set.Function
import QrWireguard.WebUi.Authority

/-!
# Roles

What a session that is accepted says of its user, and that an administrator remains and no one
else changes the users, as long as the checksums tell records apart. They need not: a user can
choose a name for which the records with and without the `Admin` flag have one checksum.
-/

namespace QrWireguard.WebUi

/-- A site with login, with sessions of at most ninety days. -/
def usualConfig : Config := ⟨false, 90 * 86400, []⟩

/-- The bcrypt hashes of the passwords "admin" and "boss". -/
def adminHash : Str :=
  str "JDJhJDE0JE45cW84dUxPaWNrZ3gyWk1SWm9NeWV4dUR0L1IuQTlreC5kTnVHOGxRbnp1ZzhhVlRpVi5P"

def bossHash : Str :=
  str "JDJhJDE0JE45cW84dUxPaWNrZ3gyWk1SWm9NeXVsVEV3WWRyZlU0RTdGZ1libFVUSjhPZi4zVzJpUk0u"

def usualBcrypt : Bcrypt where
  verifyHash hash password := some <|
    (hash = adminHash && password = str "admin") || (hash = bossHash && password = str "boss")

/-- The site that `Init` makes with the default user. -/
def freshSite : Site :=
  ⟨initUsers .empty (str "admin") adminHash, [], (initUsers .empty (str "admin") adminHash).users.readAll⟩

/-- A request of a browser that holds the given cookies. -/
def browserRequest (call : Call) (cookie : Option SessionCookie) (token : Option Str) (now : Int)
    (tokenUID : Str) (hashPassword : Option Str) : Request :=
  ⟨call, cookie, token, str "application/json", now, tokenUID, hashPassword, .none⟩

def loginRequest (username password token : Str) (now : Int) : Request :=
  browserRequest (.login (some ⟨some username, some password, some false⟩)) none none now token none

/-- The cookie of a session that a user has logged into. -/
def cookieOf (username passwordHash : Str) (admin : Bool) (token : Str) (now : Int) :
    SessionCookie :=
  ⟨loginSession ⟨username, [], passwordHash, admin⟩ token 0 now, now⟩

theorem freshSite_fresh : freshSite.Fresh := ⟨str "admin", adminHash, rfl⟩

/-- The default user logs in. -/
def adminLogin : Request := loginRequest (str "admin") (str "admin") (str "t1") 1000

section
variable {cfg : Config} {bcrypt : Bcrypt} {s t : Site} {r : Request}

/-- A session cookie that is accepted names a user who exists, and carries that user's flag. -/
theorem isValidSession_sound (h : SiteReach cfg bcrypt Site.Start s)
    (hinj : Set.InjOn getDBUserCRC32 {user | user ∈ s.stored}) {cookie : SessionCookie}
    (hmem : cookie ∈ s.issued) {now : Int} {token : Option Str}
    (hvalid : isValidSession cfg cookie.values s.db.dbUsersToCRC32 now token = true) :
    ∃ username user, cookie.values.username = some username ∧
      s.db.users.read username = some user ∧ cookie.values.admin = some user.admin := by
  by_cases hlogin : cfg.disableLogin = true
  · rw [issued_disabled (fun _ => Site.Start.issued) hlogin h] at hmem
    cases hmem
  · have htell : ChecksumsTell s.stored := fun user huser other hother _ hsum =>
      congrArg User.admin (hinj huser hother hsum)
    exact h.sound.rights htell (by simpa using hlogin) hmem hvalid

end

theorem isValidSession_sound_login : ∃ username user,
    (cookieOf (str "admin") adminHash true (str "t1") 1000).values.username = some username ∧
      (freshSite.run usualConfig usualBcrypt [adminLogin]).db.users.read username = some user ∧
      (cookieOf (str "admin") adminHash true (str "t1") 1000).values.admin = some user.admin := by
  have hreach : SiteReach usualConfig usualBcrypt Site.Start
      (freshSite.run usualConfig usualBcrypt [adminLogin]) :=
    reach_run (.init freshSite_fresh.start) (by decide +kernel) (by decide +kernel)
  have hone : ∀ user ∈ (freshSite.run usualConfig usualBcrypt [adminLogin]).stored,
      user = ⟨str "admin", [], adminHash, true⟩ := by decide +kernel
  have hmem : cookieOf (str "admin") adminHash true (str "t1") 1000 ∈
      (freshSite.run usualConfig usualBcrypt [adminLogin]).issued := by decide +kernel
  have hvalid : isValidSession usualConfig
      (cookieOf (str "admin") adminHash true (str "t1") 1000).values
      (freshSite.run usualConfig usualBcrypt [adminLogin]).db.dbUsersToCRC32 1060
      (some (str "t1")) = true := by decide +kernel
  exact isValidSession_sound hreach
    (fun user huser other hother _ => (hone user huser).trans (hone other hother).symm) hmem hvalid

/-! ## The last administrator -/

section
variable {cfg : Config} {bcrypt : Bcrypt} {s t : Site} {r : Request}

/-- Some user is an administrator. -/
def Site.HasAdmin (s : Site) : Prop := ∃ user ∈ s.db.users.readAll, user.admin = true

instance (s : Site) : Decidable s.HasAdmin :=
  inferInstanceAs (Decidable (∃ user ∈ s.db.users.readAll, user.admin = true))

/-- Of the user files at most the one of `own` changes: its record may be another one under
another free name, with the same flag. -/
def ChangesOnlyOwn (own : Str) (db db' : UserDb) : Prop :=
  db'.users = db.users ∨
    ∃ user user', db.users.read own = some user ∧ user'.admin = user.admin ∧
      (user'.username = own ∨ db.users.read user'.username = none) ∧
      ∀ name, db'.users.read name =
        if name = user'.username then some user' else if name = own then none
        else db.users.read name

theorem Site.hasAdmin_iff : s.HasAdmin ↔
    ∃ name user, s.db.users.read name = some user ∧ user.admin = true := by
  unfold Site.HasAdmin
  constructor
  · rintro ⟨user, hmem, hadmin⟩
    obtain ⟨name, hread⟩ := Dir.mem_readAll.mp hmem
    exact ⟨name, user, hread, hadmin⟩
  · rintro ⟨name, user, hread, hadmin⟩
    exact ⟨user, Dir.mem_readAll.mpr ⟨name, hread⟩, hadmin⟩

theorem read_put_drop {db : UserDb} {previous name : Str} {user' : User} :
    ((db.drop previous).put user').users.read name =
      if name = user'.username then some user' else if name = previous then none
      else db.users.read name := by
  rw [UserDb.read_put, UserDb.read_drop]

/-- An administrator other than the one removed or renamed stays. -/
theorem read_put_drop_of_ne {db : UserDb} {previous name : Str} {user user' : User}
    (hread : db.users.read name = some user)
    (hfree : user'.username = previous ∨ db.users.read user'.username = none)
    (hne : name ≠ previous) :
    ((db.drop previous).put user').users.read name = some user := by
  have hother : name ≠ user'.username := by
    intro hname
    rcases hfree with hsame | hnone
    · exact hne (hname.trans hsame)
    · rw [← hname, hread] at hnone
      cases hnone
  rw [read_put_drop, if_neg hother, if_neg hne, hread]

/-- The session of an administrator belongs to a record that says so. -/
theorem Site.Sound.own_admin (hs : s.Sound) (htell : ChecksumsTell s.stored)
    (hlogin : cfg.disableLogin = false)
    (hcookie : ∀ cookie, r.cookie = some cookie → cookie ∈ s.issued)
    (hvalid : isValidSession cfg (sessionGet r.cookie r.now) s.db.dbUsersToCRC32 r.now r.token = true)
    (hadm : isAdmin cfg (sessionGet r.cookie r.now) = true) :
    ∃ user, s.db.users.read (currentUser cfg (sessionGet r.cookie r.now)) = some user ∧
      user.admin = true := by
  obtain ⟨cookie, hsome, hvalues⟩ := cookie_of_valid hlogin hvalid
  rw [hvalues] at hvalid hadm ⊢
  obtain ⟨username, user, husername, hread, hflag⟩ :=
    hs.rights htell hlogin (hcookie cookie hsome) hvalid
  refine ⟨user, ?_, ?_⟩
  · simpa [currentUser, hlogin, sessionUsername, husername] using hread
  · simpa [isAdmin, hlogin, hflag] using hadm

theorem Site.HasAdmin.step (hs : s.Sound) (htell : ChecksumsTell s.stored)
    (hfaults : r.faults = .none) (hstep : Site.Step cfg bcrypt s r t) (h : s.HasAdmin) :
    t.HasAdmin := by
  obtain ⟨hcookie, rfl⟩ := hstep
  unfold Site.serve
  by_cases hlogin : cfg.disableLogin = true
  · rw [serve_disabled hlogin]
    exact h
  have hown := hs.own_admin (r := r) htell (by simpa using hlogin) hcookie
  have hacts : Acts cfg r (sessionGet r.cookie r.now) s.db (WebUi.serve cfg bcrypt r s.db).db
      (WebUi.serve cfg bcrypt r s.db).session := acts_serve hfaults
  generalize (WebUi.serve cfg bcrypt r s.db).db = db,
    (WebUi.serve cfg bcrypt r s.db).session = session at hacts ⊢
  rw [Site.hasAdmin_iff] at h ⊢
  cases hacts with
  | nothing => exact h
  | login huser => exact h
  | logout hvalid => exact h
  | refresh hvalid => exact h
  | @update previous user user' hvalid hmay huser hfree hadmin =>
    by_cases hself : previous = currentUser cfg (sessionGet r.cookie r.now)
    · -- the requester's own record keeps its flag, and the others stay
      obtain ⟨name, admin, hread, hflag⟩ := h
      by_cases hname : name = previous
      · rw [hname, huser] at hread
        obtain rfl := Option.some.inj hread
        refine ⟨user'.username, user', ?_, (hadmin hself).trans hflag⟩
        exact read_put_drop.trans (if_pos rfl)
      · exact ⟨name, admin, read_put_drop_of_ne hread hfree hname, hflag⟩
    · -- another record is edited by an administrator, who stays one
      have hadm := hmay.resolve_right hself
      obtain ⟨admin, hread, hflag⟩ := hown hvalid hadm
      exact ⟨_, admin, read_put_drop_of_ne hread hfree (Ne.symm hself), hflag⟩
  | @create user hvalid hmay hfree =>
    obtain ⟨name, admin, hread, hflag⟩ := h
    have hne : name ≠ user.username := by
      intro hname
      rw [← hname, hread] at hfree
      cases hfree
    exact ⟨name, admin, (UserDb.read_put ..).trans ((if_neg hne).trans hread), hflag⟩
  | @remove username hvalid hmay hother =>
    obtain ⟨admin, hread, hflag⟩ := hown hvalid hmay
    exact ⟨_, admin, (UserDb.read_drop ..).trans ((if_neg (Ne.symm hother)).trans hread), hflag⟩

/-- A session without the flag changes at most its own record. -/
theorem changesOnlyOwn (hfaults : r.faults = .none) (hstep : Site.Step cfg bcrypt s r t)
    (hadm : isAdmin cfg (sessionGet r.cookie r.now) = false) :
    ChangesOnlyOwn (currentUser cfg (sessionGet r.cookie r.now)) s.db t.db := by
  obtain ⟨-, rfl⟩ := hstep
  have hacts : Acts cfg r (sessionGet r.cookie r.now) s.db (WebUi.serve cfg bcrypt r s.db).db
      (WebUi.serve cfg bcrypt r s.db).session := acts_serve hfaults
  unfold Site.serve
  generalize (WebUi.serve cfg bcrypt r s.db).db = db,
    (WebUi.serve cfg bcrypt r s.db).session = session at hacts ⊢
  cases hacts with
  | nothing => exact .inl rfl
  | login huser => exact .inl rfl
  | logout hvalid => exact .inl rfl
  | refresh hvalid => exact .inl rfl
  | @update previous user user' hvalid hmay huser hfree hadmin =>
    have hself : previous = currentUser cfg (sessionGet r.cookie r.now) :=
      hmay.resolve_left (by simp [hadm])
    rw [← hself]
    exact .inr ⟨user, user', huser, hadmin hself, hfree, fun name => read_put_drop⟩
  | create hvalid hmay hfree =>
    rw [hadm] at hmay
    cases hmay
  | remove hvalid hmay hother =>
    rw [hadm] at hmay
    cases hmay

theorem Site.Fresh.hasAdmin (h : s.Fresh) : s.HasAdmin := by
  obtain ⟨username, passwordHash, rfl⟩ := h
  exact ⟨⟨username, [], passwordHash, true⟩, List.mem_singleton.mpr rfl, rfl⟩

end

/-- The default user creates a manager. -/
def managerCreated : List Request :=
  [adminLogin,
    browserRequest (.createUser (some ⟨some (str "boss"), some (str "boss"), some false⟩))
      (some (cookieOf (str "admin") adminHash true (str "t1") 1000)) (some (str "t1")) 1010 []
      (some bossHash)]

/-- The requests by which two administrators lose their flags. The first renames itself to a
name whose records with and without the flag have the same checksum. -/
def roleLoss : List Request :=
  let renamed : User := ⟨str "ooiklolihm", [], adminHash, true⟩
  [adminLogin,
    browserRequest (.createUser (some ⟨some (str "boss"), some (str "boss"), some true⟩))
      (some (cookieOf (str "admin") adminHash true (str "t1") 1000)) (some (str "t1")) 1010 []
      (some bossHash),
    loginRequest (str "boss") (str "boss") (str "t2") 1020,
    browserRequest (.updateUser (some ⟨some renamed.username, some [], some (str "admin"), some true⟩))
      (some (cookieOf (str "admin") adminHash true (str "t1") 1000)) (some (str "t1")) 1030 [] none,
    browserRequest (.updateUser
        (some ⟨some renamed.username, some [], some renamed.username, some false⟩))
      (some (cookieOf (str "boss") bossHash true (str "t2") 1020)) (some (str "t2")) 1040 [] none,
    browserRequest (.updateUser (some ⟨some (str "boss"), some [], some (str "boss"), some false⟩))
      (some ⟨setUser (cookieOf (str "admin") adminHash true (str "t1") 1000).values
        renamed.username true (getDBUserCRC32 renamed), 1030⟩) (some (str "t1")) 1050 [] none]

end QrWireguard.WebUi
