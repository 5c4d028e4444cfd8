import QrWireguard.WebUi.Roles

/-!
# Logout

The server keeps nothing of a session, so a logout leaves nothing on it: it sets a cookie that
is never accepted, and a browser that kept the old cookies is served as before.
-/

namespace QrWireguard.WebUi

/-- A request with these cookies passes `isValidSession`. -/
def accepts (cfg : Config) (db : UserDb) (cookie : SessionCookie) (token : Str) (now : Int) : Bool :=
  isValidSession cfg (sessionGet (some cookie) now) db.dbUsersToCRC32 now (some token)

/-- The request executes `clearSession`. -/
def LogsOut (cfg : Config) (s : Site) (r : Request) : Prop :=
  cfg.disableLogin = false ∧ (∃ url, r.call = .logout url) ∧
    isValidSession cfg (sessionGet r.cookie r.now) s.db.dbUsersToCRC32 r.now r.token = true

/-- What an accepted pair of cookies has to meet: the token is the session's, the cookie is at
most a week old, the session is neither from the future nor at its end, and the checksum in
memory is the one of the login or of the user's own last change. -/
structure Live (cfg : Config) (crcs : Str → Option UInt32) (cookie : SessionCookie) (token : Str)
    (now : Int) : Prop where
  token : cookie.values.sessionToken = some token
  fresh : now - cookieStoreMaxAge ≤ cookie.timestamp
  notEarly : cookie.values.updatedAt.getD 0 ≤ now
  notExpired : now ≤ cookie.values.updatedAt.getD 0 + validFor (cookie.values.maxAge.getD 0)
  notOver : now ≤ cookie.values.createdAt.getD 0 + cfg.sessionMaxDuration
  userHash : crcs (sessionUsername cookie.values) = some (cookie.values.userHash.getD 0)

section
variable {cfg : Config} {bcrypt : Bcrypt} {s : Site} {r : Request} {cookie : SessionCookie}
  {token : Str} {now : Int}

theorem accepts_iff (hlogin : cfg.disableLogin = false) (db : UserDb) :
    accepts cfg db cookie token now = true ↔ Live cfg db.dbUsersToCRC32 cookie token now := by
  unfold accepts
  rw [isValidSession_iff hlogin]
  by_cases hold : cookie.timestamp < now - cookieStoreMaxAge
  · rw [sessionGet, if_pos hold]
    constructor
    · intro h
      exact absurd h.token.2 (by simp [SessionValues.new])
    · intro h
      exact absurd h.fresh (not_le.mpr hold)
  · rw [sessionGet, if_neg hold]
    constructor
    · rintro ⟨htoken, hearly, hexpired, hover, hhash⟩
      simp only [getUpdatedAt, getMaxAge, getCreatedAt, getUserHash, hlogin, Bool.false_eq_true,
        if_false] at hearly hexpired hover hhash
      exact ⟨htoken.2, not_lt.mp hold, hearly, hexpired, hover, hhash⟩
    · rintro ⟨htoken, hfresh, hearly, hexpired, hover, hhash⟩
      refine ⟨⟨Option.some_ne_none _, htoken⟩, ?_, ?_, ?_, ?_⟩ <;>
        simpa only [getUpdatedAt, getMaxAge, getCreatedAt, getUserHash, hlogin,
          Bool.false_eq_true, if_false]

/-- The answer and the store depend on the store and the request alone. -/
theorem db_run_congr {s s' : Site} (rs : List Request) (h : s.db = s'.db) :
    (s.run cfg bcrypt rs).db = (s'.run cfg bcrypt rs).db := by
  induction rs generalizing s s' with
  | nil => exact h
  | cons r rs ih =>
    refine ih ?_
    simp only [Site.serve, Site.after, h]

theorem LogsOut.serve (h : LogsOut cfg s r) :
    s.serve cfg bcrypt r =
      s.after r.now s.db (some (clearSession (sessionGet r.cookie r.now))) := by
  obtain ⟨hlogin, ⟨url, hcall⟩, hvalid⟩ := h
  simp [Site.serve, WebUi.serve, hlogin, hcall, validSession, hvalid, logout]

/-- A later request is accepted as if no logout had come before it, and the cookie that the
logout sets is never accepted. -/
theorem accepts_after_logout (h : LogsOut cfg s r) (rs : List Request) :
    (∀ cookie token now,
      accepts cfg ((s.serve cfg bcrypt r).run cfg bcrypt rs).db cookie token now = true ↔
        Live cfg (s.run cfg bcrypt rs).db.dbUsersToCRC32 cookie token now) ∧
      ∀ cookie ∈ (s.serve cfg bcrypt r).issued, cookie ∉ s.issued →
        ∀ db token now, accepts cfg db cookie token now = false := by
  have hserve := @LogsOut.serve cfg bcrypt s r h
  constructor
  · intro cookie token now
    have hdb : ((s.serve cfg bcrypt r).run cfg bcrypt rs).db = (s.run cfg bcrypt rs).db :=
      db_run_congr rs (by rw [hserve]; rfl)
    rw [accepts_iff h.1, hdb]
  · intro cookie hmem hnew db token now
    rw [hserve, Site.after, List.mem_append] at hmem
    have hcleared := hmem.resolve_left hnew
    simp only [Option.map_some, Option.toList_some, List.mem_singleton] at hcleared
    rw [Bool.eq_false_iff]
    intro haccepts
    have hlive := (accepts_iff h.1 db).mp haccepts
    have hearly := hlive.notEarly
    have hexpired := hlive.notExpired
    rw [hcleared] at hearly hexpired
    simp only [clearSession, Option.getD_some] at hearly hexpired
    rw [validFor, if_neg (by decide)] at hexpired
    omega

end

/-- The default user logs out. -/
def adminLogout : Request :=
  browserRequest (.logout (str "/logout"))
    (some (cookieOf (str "admin") adminHash true (str "t1") 1000)) (some (str "t1")) 1010 [] none

theorem logsOut_adminLogout :
    LogsOut usualConfig (freshSite.run usualConfig usualBcrypt [adminLogin]) adminLogout :=
  ⟨rfl, ⟨str "/logout", rfl⟩, by decide +kernel⟩

theorem accepts_after_logout_admin :
    (∀ cookie token now,
      accepts usualConfig (((freshSite.run usualConfig usualBcrypt [adminLogin]).serve usualConfig
          usualBcrypt adminLogout).run usualConfig usualBcrypt []).db cookie token now = true ↔
        Live usualConfig ((freshSite.run usualConfig usualBcrypt [adminLogin]).run usualConfig
          usualBcrypt []).db.dbUsersToCRC32 cookie token now) ∧
      ∀ cookie ∈ ((freshSite.run usualConfig usualBcrypt [adminLogin]).serve usualConfig
          usualBcrypt adminLogout).issued,
        cookie ∉ (freshSite.run usualConfig usualBcrypt [adminLogin]).issued →
        ∀ db token now, accepts usualConfig db cookie token now = false :=
  accepts_after_logout logsOut_adminLogout []

/-- After a logout no pair of cookies set for the session before is accepted again. -/
def LogoutFinal (cfg : Config) (bcrypt : Bcrypt) : Prop :=
  ∀ (s t : Site) (r : Request), Reach Site.Start (Site.Step cfg bcrypt) (fun _ _ => True) s →
    LogsOut cfg s r → Site.Step cfg bcrypt s r t →
    ∀ u, Reach (· = t) (Site.Step cfg bcrypt) (fun _ _ => True) u →
    ∀ cookie ∈ s.issued, ∀ token,
      cookie.values.sessionToken = (sessionGet r.cookie r.now).sessionToken →
      cookie.values.sessionToken = some token →
      ∀ now, r.now ≤ now → accepts cfg u.db cookie token now = false

/-- The old cookies are accepted a minute after the logout. -/
theorem not_logoutFinal : ¬ ∀ (cfg : Config) (bcrypt : Bcrypt), LogoutFinal cfg bcrypt := by
  intro h
  have hreach : SiteReach usualConfig usualBcrypt Site.Start
      (freshSite.run usualConfig usualBcrypt [adminLogin]) :=
    reach_run (.init freshSite_fresh.start) (by decide +kernel) (by decide +kernel)
  have hstep : Site.Step usualConfig usualBcrypt
      (freshSite.run usualConfig usualBcrypt [adminLogin]) adminLogout
      ((freshSite.run usualConfig usualBcrypt [adminLogin]).serve usualConfig usualBcrypt
        adminLogout) := by
    refine ⟨fun cookie hcookie => ?_, rfl⟩
    obtain rfl := Option.some.inj hcookie
    decide +kernel
  have hrejected := h usualConfig usualBcrypt _ _ adminLogout
    (hreach.mono fun _ _ _ => trivial) logsOut_adminLogout hstep _ (.init rfl)
    (cookieOf (str "admin") adminHash true (str "t1") 1000) (by decide +kernel) (str "t1")
    (by decide +kernel) (by decide +kernel) 1070 (by decide)
  refine absurd hrejected ?_
  decide +kernel

end QrWireguard.WebUi
