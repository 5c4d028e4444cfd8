import Mathlib.Logic.Function.Basic
import Mathlib.Data.Char
import Mathlib.Data.List.Lex
import QrWireguard.Misc.Dir
import QrWireguard.Misc.Gob

/-!
# Users of the web UI

The user records of `db/users`, one file for each user, and the checksums of the records that
the process keeps in `DBUsersToCRC32`.
-/

namespace QrWireguard.WebUi

/-- A record of `model.User`. -/
structure User where
  username : Str
  password : Str
  passwordHash : Str
  admin : Bool
  deriving DecidableEq, Repr

/-- `GetDBUserCRC32`. -/
def getDBUserCRC32 (dbuser : User) : UInt32 :=
  checksumIEEE <| gobEncode (str "User")
    [(str "Username", tString), (str "Password", tString), (str "PasswordHash", tString),
      (str "Admin", tBool)]
    [gobStringField dbuser.username, gobStringField dbuser.password,
      gobStringField dbuser.passwordHash, gobBoolField dbuser.admin]

/-- `DBUsersToCRC32[user.Username] = GetDBUserCRC32(user)`. -/
def keepCRC32 (crcs : Str → Option UInt32) (user : User) : Str → Option UInt32 :=
  Function.update crcs user.username (some (getDBUserCRC32 user))

/-- The user files and the checksums in memory. -/
structure UserDb where
  users : Dir Str User
  dbUsersToCRC32 : Str → Option UInt32

/-- How the store operations of one request end. -/
structure StoreFaults where
  deleteOk : Bool
  writeOk : Bool
  permsOk : Bool
  deriving DecidableEq, Repr

/-- Every operation succeeds. -/
def StoreFaults.none : StoreFaults := ⟨true, true, true⟩

namespace UserDb

/-- `GetUserByName`. -/
def getUserByName (db : UserDb) (username : Str) : Option User := db.users.read username

/-- `SaveUser`: the file is written, its permissions are set, and only then is the checksum
kept, which happens also when the write has failed. The flag says whether it reports success. -/
def saveUser (db : UserDb) (faults : StoreFaults) (user : User) : UserDb × Bool :=
  let users := if faults.writeOk then db.users.write user.username user else db.users
  -- the permissions of a missing file cannot be set
  if faults.permsOk && (users.read user.username).isSome then
    ({ users := users, dbUsersToCRC32 := keepCRC32 db.dbUsersToCRC32 user }, faults.writeOk)
  else ({ db with users := users }, false)

/-- `DeleteUser`: the checksum is dropped first, and deleting a missing file is an error. -/
def deleteUser (db : UserDb) (faults : StoreFaults) (username : Str) : UserDb × Bool :=
  let crcs := Function.update db.dbUsersToCRC32 username none
  if faults.deleteOk && (db.users.read username).isSome then
    ({ users := db.users.delete username, dbUsersToCRC32 := crcs }, true)
  else ({ db with dbUsersToCRC32 := crcs }, false)

end UserDb

/-- The user part of `Init`: without user files the default user is created, and the
checksums of all users are taken. -/
def initUsers (users : Dir Str User) (username passwordHash : Str) : UserDb :=
  let users :=
    if users.readAll = [] then users.write username ⟨username, [], passwordHash, true⟩ else users
  { users := users
    dbUsersToCRC32 := users.readAll.foldl keepCRC32 fun _ => none }

end QrWireguard.WebUi
