import QrWireguard.WebUi.User

/-!
# Sessions

The session of a request is what its "session" cookie holds: the router installs gorilla's
cookie store, so the server keeps nothing of a session, and it decodes exactly the cookies it
has encoded less than a week ago. The "session_token" cookie is not protected.
-/

namespace QrWireguard.WebUi

/-- The runtime configuration the session code reads. -/
structure Config where
  disableLogin : Bool
  sessionMaxDuration : Int
  basePath : Str
  deriving DecidableEq, Repr

/-- `sess.Values`. An entry is missing when the session is new, or when it holds a value of
another type than the one it is read at. -/
structure SessionValues where
  username : Option Str
  userHash : Option UInt32
  admin : Option Bool
  sessionToken : Option Str
  maxAge : Option Int
  createdAt : Option Int
  updatedAt : Option Int
  deriving DecidableEq, Repr

/-- The values of a new session. -/
def SessionValues.new : SessionValues := ⟨none, none, none, none, none, none, none⟩

/-- A "session" cookie: the values and the time they were encoded. -/
structure SessionCookie where
  values : SessionValues
  timestamp : Int
  deriving DecidableEq, Repr

/-- The age in seconds from which the cookie store refuses a cookie. -/
def cookieStoreMaxAge : Int := 86400 * 7

/-- `session.Get`: a cookie that is missing or too old gives a new session. -/
def sessionGet (cookie : Option SessionCookie) (now : Int) : SessionValues :=
  match cookie with
  | none => .new
  | some cookie => if cookie.timestamp < now - cookieStoreMaxAge then .new else cookie.values

section
variable (cfg : Config) (sess : SessionValues)

/-- `getMaxAge`. -/
def getMaxAge : Int := if cfg.disableLogin then 0 else sess.maxAge.getD 0

/-- `getCreatedAt`. -/
def getCreatedAt : Int := if cfg.disableLogin then 0 else sess.createdAt.getD 0

/-- `getUpdatedAt`. -/
def getUpdatedAt : Int := if cfg.disableLogin then 0 else sess.updatedAt.getD 0

/-- `getUserHash`. -/
def getUserHash : UInt32 := if cfg.disableLogin then 0 else sess.userHash.getD 0

/-- The username of the session as `fmt.Sprintf("%s", ...)` prints it. -/
def sessionUsername : Str := sess.username.getD (str "%!s(<nil>)")

/-- `currentUser`. -/
def currentUser : Str := if cfg.disableLogin then [] else sessionUsername sess

/-- `isAdmin`. -/
def isAdmin : Bool := if cfg.disableLogin then true else sess.admin == some true

/-- How long `isValidSession` takes a session to be valid without an update: a temporary session
has a virtual expiration. -/
def validFor (maxAge : Int) : Int := if maxAge = 0 then 86400 else maxAge

/-- `isValidSession`. -/
def isValidSession (dbUsersToCRC32 : Str → Option UInt32) (now : Int) (token : Option Str) : Bool :=
  if cfg.disableLogin then true
  else if token = none ∨ sess.sessionToken ≠ token then false
  else
    let expiration := getUpdatedAt cfg sess + validFor (getMaxAge cfg sess)
    if getUpdatedAt cfg sess > now ∨ expiration < now ∨
        getCreatedAt cfg sess + cfg.sessionMaxDuration < now then false
    else dbUsersToCRC32 (sessionUsername sess) = some (getUserHash cfg sess)

/-- `doRefreshSession`: the values that are saved, if the session is refreshed. -/
def doRefreshSession (now : Int) (token : Option Str) : Option SessionValues :=
  if cfg.disableLogin then none
  else if getMaxAge cfg sess ≤ 0 then none
  else if token = none ∨ sess.sessionToken ≠ token then none
  else
    let expiration := getUpdatedAt cfg sess + getMaxAge cfg sess
    if getUpdatedAt cfg sess > now ∨ expiration < now ∨ now - getUpdatedAt cfg sess < 86400 ∨
        getCreatedAt cfg sess + cfg.sessionMaxDuration < now then none
    else some { sess with updatedAt := some now }

/-- `setUser`. -/
def setUser (username : Str) (admin : Bool) (userCRC32 : UInt32) : SessionValues :=
  { sess with username := some username, userHash := some userCRC32, admin := some admin }

/-- `clearSession`. The zero it stores as the user hash is no `uint32`. -/
def clearSession : SessionValues :=
  { sess with
    username := some []
    userHash := none
    admin := some false
    sessionToken := some []
    maxAge := some (-1) }

end

/-- The values a login puts into the session. -/
def loginSession (dbuser : User) (tokenUID : Str) (ageMax now : Int) : SessionValues where
  username := some dbuser.username
  userHash := some (getDBUserCRC32 dbuser)
  admin := some dbuser.admin
  sessionToken := some tokenUID
  maxAge := some ageMax
  createdAt := some now
  updatedAt := some now

/-- A session that `isValidSession` accepts, with login enabled. -/
structure ValidSession (cfg : Config) (sess : SessionValues)
    (dbUsersToCRC32 : Str → Option UInt32) (now : Int) (token : Option Str) : Prop where
  token : token ≠ none ∧ sess.sessionToken = token
  notEarly : getUpdatedAt cfg sess ≤ now
  notExpired : now ≤ getUpdatedAt cfg sess + validFor (getMaxAge cfg sess)
  notOver : now ≤ getCreatedAt cfg sess + cfg.sessionMaxDuration
  userHash : dbUsersToCRC32 (sessionUsername sess) = some (getUserHash cfg sess)

theorem isValidSession_iff {cfg : Config} {sess : SessionValues}
    {dbUsersToCRC32 : Str → Option UInt32} {now : Int} {token : Option Str}
    (hlogin : cfg.disableLogin = false) :
    isValidSession cfg sess dbUsersToCRC32 now token = true ↔
      ValidSession cfg sess dbUsersToCRC32 now token := by
  unfold isValidSession
  rw [hlogin, if_neg Bool.false_ne_true]
  by_cases htoken : token = none ∨ sess.sessionToken ≠ token
  · rw [if_pos htoken]
    refine ⟨fun h => (Bool.false_ne_true h).elim, fun h => ?_⟩
    rcases htoken with hnone | hne
    · exact absurd hnone h.token.1
    · exact absurd h.token.2 hne
  · rw [if_neg htoken]
    rw [not_or, not_not] at htoken
    dsimp only
    by_cases htime : getUpdatedAt cfg sess > now ∨
        getUpdatedAt cfg sess + validFor (getMaxAge cfg sess) < now ∨
        getCreatedAt cfg sess + cfg.sessionMaxDuration < now
    · rw [if_pos htime]
      refine ⟨fun h => (Bool.false_ne_true h).elim, fun h => ?_⟩
      rcases htime with hearly | hexpired | hover
      · exact absurd h.notEarly (not_le.mpr hearly)
      · exact absurd h.notExpired (not_le.mpr hexpired)
      · exact absurd h.notOver (not_le.mpr hover)
    · rw [if_neg htime, decide_eq_true_iff]
      simp only [not_or, not_lt] at htime
      exact ⟨fun h => ⟨htoken, htime.1, htime.2.1, htime.2.2, h⟩, fun h => h.userHash⟩

end QrWireguard.WebUi
