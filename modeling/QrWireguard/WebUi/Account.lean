import QrWireguard.WebUi.Session

/-!
# The user routes

The handlers of the login and of the user management, behind the middleware they are
registered with.
-/

namespace QrWireguard.WebUi

/-- What is not computed here: whether bcrypt accepts a password for a hash. `none` is an
error, such as a hash that is no base64 text. -/
structure Bcrypt where
  verifyHash : Str → Str → Option Bool

/-- The bodies of the requests. A field is missing when the key is absent or holds a value of
another type; the handlers' type assertions panic on it. -/
structure LoginBody where
  username : Option Str
  password : Option Str
  rememberMe : Option Bool
  deriving DecidableEq, Repr

structure UpdateUserBody where
  username : Option Str
  password : Option Str
  previousUsername : Option Str
  admin : Option Bool
  deriving DecidableEq, Repr

structure CreateUserBody where
  username : Option Str
  password : Option Str
  admin : Option Bool
  deriving DecidableEq, Repr

structure RemoveUserBody where
  username : Option Str
  deriving DecidableEq, Repr

/-- The requests to the routes that need a login. A body is missing when it is no JSON
object. `page` stands for the pages that refresh the session. -/
inductive Call where
  | login (body : Option LoginBody)
  | logout (url : Str)
  | page (url : Str) (needsAdmin : Bool)
  | updateUser (body : Option UpdateUserBody)
  | createUser (body : Option CreateUserBody)
  | removeUser (body : Option RemoveUserBody)
  deriving DecidableEq, Repr

/-- A request with its cookies, the time it is served at, and what the libraries give it: the
xid of a new session, the bcrypt hash of a new password, and the store operations' ends. -/
structure Request where
  call : Call
  cookie : Option SessionCookie
  token : Option Str
  contentType : Str
  now : Int
  tokenUID : Str
  hashPassword : Option Str
  faults : StoreFaults
  deriving DecidableEq, Repr

/-- The answers. The message of an `error` is the text of the error that occurred. -/
inductive Response where
  | json (code : Nat) (status : Bool) (message : String)
  | error (code : Nat)
  | redirect (location : Str)
  | render
  | notFound
  | panic
  deriving DecidableEq, Repr

/-- What a request leaves behind: the store, the answer and the cookies it sets. The
"session_token" cookie comes with its `MaxAge`. -/
structure Outcome where
  db : UserDb
  response : Response
  session : Option SessionValues
  sessionToken : Option (Str × Int)

/-- An answer that leaves everything as it is. -/
def UserDb.answer (db : UserDb) (response : Response) : Outcome := ⟨db, response, none, none⟩

/-- A character of the class `\w`. -/
def isWordChar (c : Char) : Bool := isdigit c || isalpha c || c == '_'

/-- `usernameRegexp`: `^\w[\w\-.]*$`. -/
def usernameRegexp (username : Str) : Bool :=
  match username with
  | [] => false
  | c :: cs => isWordChar c && cs.all fun c => isWordChar c || c == '-' || c == '.'

/-- The password check of `Login`. -/
def passwordCorrect (bcrypt : Bcrypt) (dbuser : User) (password : Str) : Option Bool :=
  if dbuser.passwordHash ≠ [] then bcrypt.verifyHash dbuser.passwordHash password
  else some (password = dbuser.password)

/-- `Login`. -/
def login (bcrypt : Bcrypt) (r : Request) (body : Option LoginBody) (db : UserDb) : Outcome :=
  match body with
  | none => db.answer (.json 400 false "Bad post data")
  | some ⟨some username, some password, some rememberMe⟩ =>
    if !usernameRegexp username then
      db.answer (.json 400 false "Please provide a valid username")
    else match db.getUserByName username with
      | none => db.answer (.json 500 false "Invalid credentials")
      | some dbuser =>
        match passwordCorrect bcrypt dbuser password with
        | none => db.answer (.json 500 false "Cannot verify password")
        | some correct =>
          if username = dbuser.username && correct then
            let ageMax := if rememberMe then 86400 * 7 else 0
            { db := db
              response := .json 200 true "Logged in successfully"
              session := some (loginSession dbuser r.tokenUID ageMax r.now)
              sessionToken := some (r.tokenUID, ageMax) }
          else db.answer (.json 401 false "Invalid credentials")
  | some _ => db.answer .panic

/-- `Logout`. -/
def logout (cfg : Config) (r : Request) (sess : SessionValues) (db : UserDb) : Outcome where
  db := db
  response := .redirect (cfg.basePath ++ str "/login")
  session := some (clearSession sess)
  sessionToken := some (r.token.getD [], -1)

/-- `RefreshSession`, for the pages, which set no cookies of their own. -/
def refreshSession (cfg : Config) (r : Request) (sess : SessionValues) (next : Outcome) :
    Outcome :=
  { next with
    session := doRefreshSession cfg sess r.now r.token
    sessionToken := (doRefreshSession cfg sess r.now r.token).map fun _ =>
      (r.token.getD [], getMaxAge cfg sess) }

/-- The checks of `UpdateUser` and the record it goes on to save, with the name it deletes. -/
def updatedUser (cfg : Config) (r : Request) (sess : SessionValues) (username password
    previousUsername : Str) (admin : Bool) (db : UserDb) : Except Response User :=
  if !isAdmin cfg sess && previousUsername ≠ currentUser cfg sess then
    .error (.json 403 false "Manager cannot access other user data")
  else
    let admin := if !isAdmin cfg sess then false else admin
    if !usernameRegexp previousUsername then
      .error (.json 400 false "Please provide a valid username")
    else match db.getUserByName previousUsername with
      | none => .error (.error 404)
      | some user =>
        if username = [] || !usernameRegexp username then
          .error (.json 400 false "Please provide a valid username")
        else if username ≠ previousUsername && (db.getUserByName username).isSome then
          .error (.json 400 false "This username is taken")
        else
          let hash := if password ≠ [] then r.hashPassword else some user.passwordHash
          match hash with
          | none => .error (.error 500)
          | some hash =>
            .ok { user with
              username := username
              passwordHash := hash
              admin := if previousUsername ≠ currentUser cfg sess then admin else user.admin }

/-- `UpdateUser`. -/
def updateUser (cfg : Config) (r : Request) (sess : SessionValues)
    (body : Option UpdateUserBody) (db : UserDb) : Outcome :=
  match body with
  | none => db.answer (.json 400 false "Bad post data")
  | some ⟨some username, some password, some previousUsername, some admin⟩ =>
    match updatedUser cfg r sess username password previousUsername admin db with
    | .error response => db.answer response
    | .ok user =>
      match db.deleteUser r.faults previousUsername with
      | (db, false) => db.answer (.error 500)
      | (db, true) =>
        match db.saveUser r.faults user with
        | (db, false) => db.answer (.error 500)
        | (db, true) =>
          { db := db
            response := .json 200 true "Updated user information successfully"
            session :=
              if previousUsername = currentUser cfg sess then
                some (setUser sess user.username user.admin (getDBUserCRC32 user))
              else none
            sessionToken := none }
  | some _ => db.answer .panic

/-- `CreateUser`. -/
def createUser (r : Request) (body : Option CreateUserBody) (db : UserDb) : Outcome :=
  match body with
  | none => db.answer (.json 400 false "Bad post data")
  | some ⟨some username, some _, some admin⟩ =>
    if username = [] || !usernameRegexp username then
      db.answer (.json 400 false "Please provide a valid username")
    else if (db.getUserByName username).isSome then
      db.answer (.json 400 false "This username is taken")
    else match r.hashPassword with
      | none => db.answer (.error 500)
      | some hash =>
        match db.saveUser r.faults ⟨username, [], hash, admin⟩ with
        | (db, false) => db.answer (.error 500)
        | (db, true) => db.answer (.json 200 true "Created user successfully")
  | some _ => db.answer .panic

/-- `RemoveUser`. -/
def removeUser (cfg : Config) (r : Request) (sess : SessionValues) (body : Option RemoveUserBody)
    (db : UserDb) : Outcome :=
  match body with
  | none => db.answer (.json 400 false "Bad post data")
  | some ⟨some username⟩ =>
    if !usernameRegexp username then
      db.answer (.json 400 false "Please provide a valid username")
    else if username = currentUser cfg sess then
      db.answer (.json 403 false "User cannot delete itself")
    else match db.deleteUser r.faults username with
      | (db, false) => db.answer (.json 500 false "Cannot delete user from database")
      | (db, true) => db.answer (.json 200 true "User removed")
  | some _ => db.answer .panic

/-- `ValidSession`: where an invalid session is sent. `url` is the URL of a GET request. -/
def validSession (cfg : Config) (r : Request) (url : Option Str) (db : UserDb)
    (next : SessionValues → Outcome) : Outcome :=
  let sess := sessionGet r.cookie r.now
  if !isValidSession cfg sess db.dbUsersToCRC32 r.now r.token then
    match url with
    | some url => db.answer (.redirect (cfg.basePath ++ str "/login?next=" ++ url))
    | none => db.answer (.redirect (cfg.basePath ++ str "/login"))
  else next sess

/-- `ContentTypeJson`. -/
def contentTypeJson (r : Request) (db : UserDb) (next : Outcome) : Outcome :=
  if r.contentType ≠ str "application/json" then
    db.answer (.json 400 false "Only JSON allowed")
  else next

/-- `NeedsAdmin`. -/
def needsAdmin (cfg : Config) (sess : SessionValues) (db : UserDb) (next : Outcome) : Outcome :=
  if !isAdmin cfg sess then db.answer (.redirect (cfg.basePath ++ str "/")) else next

/-- The user routes as `main` registers them, which it does only with login enabled. -/
def serve (cfg : Config) (bcrypt : Bcrypt) (r : Request) (db : UserDb) : Outcome :=
  if cfg.disableLogin then db.answer .notFound
  else match r.call with
    | .login body => contentTypeJson r db (login bcrypt r body db)
    | .logout url => validSession cfg r (some url) db fun sess => logout cfg r sess db
    | .page url admin => validSession cfg r (some url) db fun sess =>
      refreshSession cfg r sess
        (if admin then needsAdmin cfg sess db (db.answer .render) else db.answer .render)
    | .updateUser body => validSession cfg r none db fun sess =>
      contentTypeJson r db (updateUser cfg r sess body db)
    | .createUser body => validSession cfg r none db fun sess =>
      contentTypeJson r db (needsAdmin cfg sess db (createUser r body db))
    | .removeUser body => validSession cfg r none db fun sess =>
      contentTypeJson r db (needsAdmin cfg sess db (removeUser cfg r sess body db))

end QrWireguard.WebUi
