import QrWireguard.BePlugin.Message
import QrWireguard.Misc.GoNet
import QrWireguard.Misc.Prog
import QrWireguard.WebUi.Model
import QrWireguard.WebUi.User

/-!
# The store of clients and settings

The files of `db/clients` and `db/server`, the map from Telegram users to clients that the
process keeps, and the files the server configuration is written to. A file is read or written
in one step.
-/

namespace QrWireguard.WebUi

/-- The store. The configuration files lie outside of its directories. -/
structure Db where
  clients : Dir Str Client
  interfaces : Option ServerInterface
  keypair : Option ServerKeypair
  globalSettings : Option GlobalSetting
  hashes : Option ClientServerHashes
  users : Dir Str User
  tgUseridToClientID : Int → List Str
  files : Str → Option Str

/-- A generated xid. -/
structure Xid where
  text : Str
  valid : validXid text = true
  deriving DecidableEq

/-- What the libraries give a request: the time, a new xid, new keys, which are missing when
the random source fails, and the store operations' ends. -/
structure Env where
  now : Time
  guid : Xid
  privateKey : Option Key
  presharedKey : Option Key
  faults : StoreFaults

/-- The answers. The message of an `error` is the text of the error that occurred. -/
inductive Answer where
  | json (code : Nat) (status : Bool) (message : Str)
  | error (code : Nat)
  | client (client : Client)
  | serverKeyPair (keypair : ServerKeypair)
  | panic
  deriving DecidableEq

/-- The answer of a handler and the message it has sent to the agent. -/
structure Reply where
  answer : Answer
  message : Option BePlugin.RequestMessage
  deriving DecidableEq

/-- An answer without a message to the agent. -/
def Answer.only (answer : Answer) : Reply := ⟨answer, none⟩

/-- Whether an answer reports success. -/
def Answer.success : Answer → Bool
  | .json _ status _ => status
  | .client _ => true
  | .serverKeyPair _ => true
  | .error _ => false
  | .panic => false

/-- A reply that reports a failure and comes without a message. -/
def Rejected (reply : Reply) : Prop := reply.answer.success = false ∧ reply.message = none

/-- `RemoveTgToClientID`. -/
def removeTgToClientID (tg : Int → List Str) (clientID : Str) : Int → List Str :=
  fun userid => (tg userid).filter (· ≠ clientID)

/-- `UpdateTgToClientID`. -/
def updateTgToClientID (tg : Int → List Str) (userid : Int) (clientID : Str) : Int → List Str :=
  Function.update (removeTgToClientID tg clientID) userid
    (removeTgToClientID tg clientID userid ++ [clientID])

namespace Db

/-- What `SaveClient` makes of the Telegram map after a write that succeeded. -/
def tgAfterSave (db : Db) (client : Client) : Int → List Str :=
  if client.enabled && client.tgUserid != [] then
    match parseInt client.tgUserid with
    | some userid => updateTgToClientID db.tgUseridToClientID userid client.id
    | none => db.tgUseridToClientID
  else removeTgToClientID db.tgUseridToClientID client.id

/-- `SaveClient`. The flag says whether it reports success: the permissions of a file that is
missing cannot be set. -/
def saveClient (faults : StoreFaults) (client : Client) (db : Db) : Bool × Db :=
  if faults.writeOk then
    (faults.permsOk, { db with
      clients := db.clients.write client.id client
      tgUseridToClientID := db.tgAfterSave client })
  else
    (false, { db with tgUseridToClientID := removeTgToClientID db.tgUseridToClientID client.id })

/-- `DeleteClient`. -/
def deleteClient (faults : StoreFaults) (clientID : Str) (db : Db) : Bool × Db :=
  let db := { db with tgUseridToClientID := removeTgToClientID db.tgUseridToClientID clientID }
  if faults.deleteOk && (db.clients.read clientID).isSome then
    (true, { db with clients := db.clients.delete clientID })
  else (false, db)

/-- `SaveServerInterface`. -/
def saveServerInterface (faults : StoreFaults) (serverInterface : ServerInterface) (db : Db) :
    Bool × Db :=
  if faults.writeOk then (faults.permsOk, { db with interfaces := some serverInterface })
  else (false, db)

/-- `SaveServerKeyPair`. -/
def saveServerKeyPair (faults : StoreFaults) (serverKeyPair : ServerKeypair) (db : Db) :
    Bool × Db :=
  if faults.writeOk then (faults.permsOk, { db with keypair := some serverKeyPair })
  else (false, db)

/-- `SaveGlobalSettings`. -/
def saveGlobalSettings (faults : StoreFaults) (globalSettings : GlobalSetting) (db : Db) :
    Bool × Db :=
  if faults.writeOk then (faults.permsOk, { db with globalSettings := some globalSettings })
  else (false, db)

/-- `SaveHashes`. -/
def saveHashes (faults : StoreFaults) (hashes : ClientServerHashes) (db : Db) : Bool × Db :=
  if faults.writeOk then (faults.permsOk, { db with hashes := some hashes })
  else (false, db)

end Db

/-- `GetClientByID`. -/
def getClientByID (clientID : Str) : Prog Db (Option Client) :=
  Prog.read fun db => db.clients.read clientID

/-- `GetClients`. -/
def getClients : Prog Db (List Client) := Prog.read fun db => db.clients.readAll

/-- `GetUsers`. -/
def getUsers : Prog Db (List User) := Prog.read fun db => db.users.readAll

/-- `GetGlobalSettings`. -/
def getGlobalSettings : Prog Db (Option GlobalSetting) := Prog.read fun db => db.globalSettings

/-- `GetServer`: the interface is read first, then the key pair. -/
def getServer : Prog Db (Option Server) := do
  match ← Prog.read fun db : Db => db.interfaces with
  | none => pure none
  | some interface =>
    match ← Prog.read fun db : Db => db.keypair with
    | none => pure none
    | some keyPair => pure (some ⟨keyPair, interface⟩)

/-- A list is read when each of its elements can be read. -/
theorem mapM_eq_some_iff {α β : Type} {f : α → Option β} {l : List α} {bs : List β} :
    l.mapM f = some bs ↔ (∀ a ∈ l, (f a).isSome = true) ∧ l.filterMap f = bs := by
  induction l generalizing bs with
  | nil => simp [pure]
  | cons a l ih =>
    rw [List.mapM_cons, List.forall_mem_cons]
    cases hfa : f a with
    | none =>
      apply iff_of_false
      · exact fun h => by cases h
      · exact fun h => by cases h.1.1
    | some b =>
      change (l.mapM f).bind (fun bs' => some (b :: bs')) = some bs ↔ _
      rw [List.filterMap_cons_some hfa, Option.bind_eq_some_iff]
      constructor
      · rintro ⟨bs', hbs, hcons⟩
        obtain ⟨hall, rfl⟩ := ih.mp hbs
        exact ⟨⟨rfl, hall⟩, Option.some.inj hcons⟩
      · rintro ⟨⟨-, hall⟩, rfl⟩
        exact ⟨_, ih.mpr ⟨hall, rfl⟩, rfl⟩

/-- `GetIPFromCIDR`. -/
def getIPFromCIDR (cidr : Str) : Option Str := (parseCIDR cidr).map fun r => ipString r.1

/-- The addresses of the clients other than the ignored one. -/
def clientIPs (ignoreClientID : Str) (clients : List Client) : Option (List Str) :=
  ((clients.filter (·.id ≠ ignoreClientID)).flatMap (·.allocatedIPs)).mapM getIPFromCIDR

/-- `GetAllocatedIPs`. -/
def getAllocatedIPs (ignoreClientID : Str) : Prog Db (Option (List Str)) := do
  match ← Prog.read fun db : Db => db.interfaces with
  | none => pure none
  | some interface =>
    match interface.addresses.mapM getIPFromCIDR with
    | none => pure none
    | some serverIPs =>
      let clients ← getClients
      pure ((clientIPs ignoreClientID clients).map (serverIPs ++ ·))

/-- `ValidateCIDR`. -/
def validateCIDR (cidr : Str) : Bool := (parseCIDR cidr).isSome

/-- `ValidateCIDRList`. -/
def validateCIDRList (cidrs : List Str) (allowEmpty : Bool) : Bool :=
  cidrs.all fun cidr => if allowEmpty then cidr == [] || validateCIDR cidr else validateCIDR cidr

/-- `ValidateAllowedIPs`. -/
def validateAllowedIPs (cidrs : List Str) : Bool := validateCIDRList cidrs false

/-- `ValidateExtraAllowedIPs`. -/
def validateExtraAllowedIPs (cidrs : List Str) : Bool := validateCIDRList cidrs true

/-- `ValidateServerAddresses`. -/
def validateServerAddresses (cidrs : List Str) : Bool := validateCIDRList cidrs false

/-- `ValidateIPAddressList`. -/
def validateIPAddressList (ips : List Str) : Bool := ips.all fun ip => (parseIP ip).isSome

/-- The search for a server network with the address. An address of the server that is no CIDR
text makes it panic. -/
def inServerNetwork (ip : IP) : List Str → Option Bool
  | [] => some false
  | serverCIDR :: rest =>
    match parseCIDR serverCIDR with
    | none => none
    | some (_, serverNet) => if contains serverNet ip then some true else inServerNetwork ip rest

/-- `ValidateIPAllocation`: the answer of a list that is rejected. -/
def validateIPAllocation (serverAddresses ipAllocatedList : List Str) : List Str → Option Answer
  | [] => none
  | clientCIDR :: rest =>
    match parseCIDR clientCIDR with
    | none => some (.json 400 false (str "invalid ip allocation input " ++ clientCIDR ++
        str ". Must be in CIDR format"))
    | some (ip, _) =>
      if ipString ip ∈ ipAllocatedList then
        some (.json 400 false (str "IP " ++ ipString ip ++ str " already allocated"))
      else match inServerNetwork ip serverAddresses with
        | none => some .panic
        | some true => validateIPAllocation serverAddresses ipAllocatedList rest
        | some false => some (.json 400 false (str "IP " ++ ipString ip ++
            str " does not belong to any network addresses of WireGuard server"))

/-- What `Init` finds in the environment, with the defaults of `util/config.go`. The public
address of the host stands for a missing endpoint address. -/
structure InitEnv where
  endpointAddress : Str
  serverAddresses : List Str := [str "10.252.1.0/24"]
  listenPort : Int := 51820
  postUp : Str := []
  postDown : Str := []
  dnsServers : List Str := [str "1.1.1.1"]
  mtu : Int := 1450
  persistentKeepalive : Int := 15
  firewallMark : Str := str "0xca6c"
  table : Str := str "auto"
  configFilePath : Str := str "/etc/wireguard/wg0.conf"

/-- The store that `Init` makes in empty directories, with a new key pair. -/
def initDb (derive : Key → Key) (env : InitEnv) (key : Key) (now : Time) (users : Dir Str User)
    (files : Str → Option Str) : Db where
  clients := .empty
  interfaces := some ⟨env.serverAddresses, env.listenPort, now, env.postUp, [], env.postDown⟩
  keypair := some ⟨key.toText, (derive key).toText, now⟩
  globalSettings := some ⟨env.endpointAddress, env.dnsServers, env.mtu, env.persistentKeepalive,
    env.firewallMark, env.table, env.configFilePath, now⟩
  hashes := some ⟨str "none", str "none"⟩
  users := users
  tgUseridToClientID := fun _ => []
  files := files

end QrWireguard.WebUi
