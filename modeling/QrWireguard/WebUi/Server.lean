import QrWireguard.WebUi.Clients

/-!
# The server routes

The handlers of the interface, of the key pair and of the global settings, and the one that
writes the server configuration and records the hashes of what it was written from.
-/

namespace QrWireguard.WebUi

open BePlugin

/-- The message with the new interface. -/
def setWireguardInterface (address : Str) (serverInterface : ServerInterface) : RequestMessage :=
  helloMessage (str "SET_WIREGUARD_INTERFACE")
    [(str "Addresses", address), (str "ListenPort", itoa serverInterface.listenPort)]

/-- `WireGuardServerInterfaces`. The first address goes to the agent, and an empty list of
addresses makes the handler panic after it has saved it. -/
def wireGuardServerInterfaces (env : Env) (body : ServerInterface) : Prog Db Reply :=
  if !validateServerAddresses body.addresses then
    pure (Answer.json 400 false (str "Interface IP address must be in CIDR format")).only
  else do
    let serverInterface := { body with updatedAt := env.now }
    if ← Prog.modifyGet (Db.saveServerInterface env.faults serverInterface) then
      match serverInterface.addresses with
      | [] => pure Answer.panic.only
      | address :: _ =>
        pure ⟨.json 200 true (str "Updated interface addresses successfully"),
          some (setWireguardInterface address serverInterface)⟩
    else pure (Answer.json 500 false (str "Interface IP address must be in CIDR format")).only

/-- `WireGuardServerKeyPair`. -/
def wireGuardServerKeyPair (derive : Key → Key) (env : Env) : Prog Db Reply :=
  match env.privateKey with
  | none => pure (Answer.json 500 false (str "Cannot generate Wireguard key pair")).only
  | some key => do
    let serverKeyPair := ⟨key.toText, (derive key).toText, env.now⟩
    if ← Prog.modifyGet (Db.saveServerKeyPair env.faults serverKeyPair) then
      pure (Answer.serverKeyPair serverKeyPair).only
    else pure (Answer.json 500 false (str "Cannot generate Wireguard key pair")).only

/-- The message with the new global settings. -/
def setWireguardGlobalConfig (globalSettings : GlobalSetting) : RequestMessage :=
  helloMessage (str "SET_WIREGUARD_GLOBAL_CONFIG")
    [(str "EndpointAddress", globalSettings.endpointAddress), (str "MTU", itoa globalSettings.mtu),
      (str "PersistentKeepalive", itoa globalSettings.persistentKeepalive)]

/-- `GlobalSettingSubmit`. -/
def globalSettingSubmit (env : Env) (body : GlobalSetting) : Prog Db Reply :=
  if !validateIPAddressList body.dnsServers then
    pure (Answer.json 400 false (str "Invalid DNS server address")).only
  else do
    let globalSettings := { body with updatedAt := env.now }
    if ← Prog.modifyGet (Db.saveGlobalSettings env.faults globalSettings) then
      pure ⟨.json 200 true (str "Updated global settings successfully"),
        some (setWireguardGlobalConfig globalSettings)⟩
    else pure (Answer.json 500 false (str "Cannot generate Wireguard key pair")).only

/-- The hashes of `dirhash`: of the directory of clients, and of the three server files. -/
structure DirHash where
  hashDir : Dir Str Client → Str
  hash1 : GlobalSetting → ServerInterface → ServerKeypair → Str

/-- The hash of the server files. The files are opened in the order of their names, and the
error of one that is missing is dropped, which leaves an empty hash. -/
def hashServer (hash : DirHash) : Prog Db Str := do
  match ← getGlobalSettings with
  | none => pure []
  | some settings =>
    match ← Prog.read fun db : Db => db.interfaces with
    | none => pure []
    | some interface =>
      match ← Prog.read fun db : Db => db.keypair with
      | none => pure []
      | some keyPair => pure (hash.hash1 settings interface keyPair)

/-- `GetCurrentHash`. -/
def getCurrentHash (hash : DirHash) : Prog Db ClientServerHashes := do
  let client ← Prog.read fun db : Db => hash.hashDir db.clients
  let server ← hashServer hash
  pure ⟨client, server⟩

/-- `HashesChanged`. Hashes that cannot be read count as empty ones. -/
def hashesChanged (hash : DirHash) : Prog Db Bool := do
  let old ← Prog.read fun db : Db => db.hashes.getD ⟨[], []⟩
  let current ← getCurrentHash hash
  pure (old.client != current.client || old.server != current.server)

/-- `UpdateHashes`. -/
def updateHashes (hash : DirHash) (faults : StoreFaults) : Prog Db Bool := do
  let hashes ← getCurrentHash hash
  Prog.modifyGet (Db.saveHashes faults hashes)

/-- The text of the server configuration for what it is made of. -/
abbrev Template := Server → List Client → GlobalSetting → Str

/-- The notes of a client as a comment of several lines. -/
def escapeNotes (client : Client) : Client :=
  { client with additionalNotes := replaceAll ['\n'] (str "\n# ") client.additionalNotes }

/-- The text that `WriteWireGuardServerConfig` writes. -/
def serverConfigText (tmpl : Template) (server : Server) (clients : List Client)
    (settings : GlobalSetting) : Str :=
  tmpl server (clients.map escapeNotes) settings

/-- How the writing of the configuration ends: not begun at all, broken off after some text, or
done. -/
inductive ConfigWrite where
  | notCreated
  | brokenOff (text : Str)
  | done
  deriving DecidableEq

/-- `WriteWireGuardServerConfig`, with the text it writes. -/
def Db.writeServerConfig (written : ConfigWrite) (path text : Str) (db : Db) : Bool × Db :=
  match written with
  | .notCreated => (false, db)
  | .brokenOff partialText =>
    (false, { db with files := Function.update db.files path (some partialText) })
  | .done => (true, { db with files := Function.update db.files path (some text) })

/-- The end of `ApplyServerConfig`: the hashes are taken and recorded. -/
def applyHashes (hash : DirHash) (faults : StoreFaults) : Prog Db Reply := do
  if ← updateHashes hash faults then
    pure (Answer.json 200 true (str "Applied server config successfully")).only
  else pure (Answer.error 500).only

/-- `ApplyServerConfig` from the clients it has read. The users are read for templates that list
them. -/
def applyClients (hash : DirHash) (tmpl : Template) (written : ConfigWrite) (faults : StoreFaults)
    (server : Server) (clients : List Client) : Prog Db Reply := do
  let _ ← getUsers
  match ← getGlobalSettings with
  | none => pure (Answer.json 500 false (str "Cannot get global settings")).only
  | some settings =>
    let text := serverConfigText tmpl server clients settings
    if ← Prog.modifyGet (Db.writeServerConfig written settings.configFilePath text) then
      applyHashes hash faults
    else pure (Answer.error 500).only

/-- `ApplyServerConfig`. -/
def applyServerConfig (hash : DirHash) (tmpl : Template) (written : ConfigWrite)
    (faults : StoreFaults) : Prog Db Reply := do
  match ← getServer with
  | none => pure (Answer.json 500 false (str "Cannot get server config")).only
  | some server =>
    let clients ← getClients
    applyClients hash tmpl written faults server clients

end QrWireguard.WebUi
