import QrWireguard.WebUi.Db

/-!
# The client routes

The handlers that create, update, enable, disable and remove clients, as programs on the store.
The keys are derived with a function the handlers get from outside.
-/

namespace QrWireguard.WebUi

open BePlugin

/-- The check of a Telegram userid. -/
def validTgUserid (tgUserid : Str) : Bool :=
  tgUserid == [] || match parseInt tgUserid with
    | some idNum => idNum != 0
    | none => false

/-- The checks of the address lists of a body, whose first failure is answered. The text about
the extra addresses differs between the handlers. -/
def checkAddresses (server : Server) (allocatedIPs : Option (List Str)) (body : Client)
    (extraText : Str) : Option Answer :=
  match validateIPAllocation server.interface.addresses (allocatedIPs.getD []) body.allocatedIPs with
  | some answer => some answer
  | none =>
    if !validateAllowedIPs body.allowedIPs then
      some (.json 400 false (str "Allowed IPs must be in CIDR format"))
    else if !validateExtraAllowedIPs body.extraAllowedIPs then
      some (.json 400 false extraText)
    else none

/-- The message that adds a peer. -/
def addWireguardPeer (client : Client) : RequestMessage :=
  helloMessage (str "ADD_WIREGUARD_PEER")
    [(str "PublicKey", client.publicKey),
      (str "AllowedIPs",
        if client.allowedIPs = [] then str "0.0.0.0/0" else unsplit [','] client.allowedIPs),
      (str "Endpoint", client.endpoint)]

/-- The message that removes a peer. -/
def removeWireguardPeer (client : Client) : RequestMessage :=
  helloMessage (str "REMOVE_WIREGUARD_PEER") [(str "PublicKey", client.publicKey)]

/-- The public key of a new client and its check, or a new key pair. -/
def newClientKeyPair (publicKey : Key → Key) (env : Env) (client : Client) :
    Prog Db (Except Answer Client) :=
  if client.publicKey = [] then
    match env.privateKey with
    | none => pure (.error (.json 500 false (str "Cannot generate Wireguard key pair")))
    | some key => pure (.ok
        { client with privateKey := key.toText, publicKey := (publicKey key).toText })
  else if (parseKey client.publicKey).isNone then
    pure (.error (.json 500 false (str "Cannot verify Wireguard public key")))
  else do
    let clients ← getClients
    if clients.any (·.publicKey == client.publicKey) then
      pure (.error (.json 500 false (str "Duplicate Public Key")))
    else pure (.ok client)

/-- The preshared key of a new client: a new one, none for the text `-`, or the given one. -/
def newClientPresharedKey (env : Env) (client : Client) : Except Answer Client :=
  if client.presharedKey = [] then
    match env.presharedKey with
    | none => .error (.json 500 false (str "Cannot generate Wireguard preshared key"))
    | some key => .ok { client with presharedKey := key.toText }
  else if client.presharedKey = ['-'] then .ok { client with presharedKey := [] }
  else if (parseKey client.presharedKey).isNone then
    .error (.json 500 false (str "Cannot verify Wireguard preshared key"))
  else .ok client

/-- The end of `NewClient`: the client is saved, and the agent gets a message. -/
def saveNewClient (env : Env) (client : Client) : Prog Db Reply := do
  let client := { client with createdAt := env.now, updatedAt := env.now }
  if ← Prog.modifyGet (Db.saveClient env.faults client) then
    pure ⟨.client client, some (addWireguardPeer client)⟩
  else pure (Answer.error 500).only

/-- `NewClient`. The error of `GetAllocatedIPs` is dropped, and its list is empty then. -/
def newClient (publicKey : Key → Key) (env : Env) (body : Client) : Prog Db Reply :=
  if !validTgUserid body.tgUserid then
    pure (Answer.json 400 false (str "Telegram userid must be a non-zero number")).only
  else do
    match ← getServer with
    | none => pure (Answer.error 500).only
    | some server =>
      let allocatedIPs ← getAllocatedIPs []
      match checkAddresses server allocatedIPs body
          (str "Extra AllowedIPs must be in CIDR format") with
      | some answer => pure answer.only
      | none =>
        match ← newClientKeyPair publicKey env { body with id := env.guid.text } with
        | .error answer => pure answer.only
        | .ok client =>
          match newClientPresharedKey env client with
          | .error answer => pure answer.only
          | .ok client => saveNewClient env client

/-- The check of the public key of an update and what it makes of the stored private key. The
check is made for a key that is new and not empty. -/
def updateClientKeyPair (client body : Client) : Prog Db (Except Answer Client) :=
  if client.publicKey ≠ body.publicKey ∧ body.publicKey ≠ [] then
    if (parseKey body.publicKey).isNone then
      pure (.error (.json 500 false (str "Cannot verify provided Wireguard public key")))
    else do
      let clients ← getClients
      if clients.any (·.publicKey == body.publicKey) then
        pure (.error (.json 500 false (str "Duplicate Public Key")))
      else pure (.ok { client with privateKey := [] })
  else pure (.ok client)

/-- The check of the preshared key of an update. -/
def badPresharedKey (client body : Client) : Bool :=
  client.presharedKey != body.presharedKey && body.presharedKey != [] &&
    (parseKey body.presharedKey).isNone

/-- The notes as they are stored: without line breaks at the ends, and with single ones. -/
def storedNotes (notes : Str) : Str := replaceAll (str "\r\n") (str "\n") (trim isLineBreak notes)

/-- The stored record with the fields of the body of an update. -/
def mapNewData (now : Time) (client body : Client) : Client :=
  { client with
    name := body.name
    email := body.email
    tgUserid := body.tgUserid
    enabled := body.enabled
    useServerDNS := body.useServerDNS
    allocatedIPs := body.allocatedIPs
    allowedIPs := body.allowedIPs
    extraAllowedIPs := body.extraAllowedIPs
    endpoint := body.endpoint
    publicKey := body.publicKey
    presharedKey := body.presharedKey
    updatedAt := now
    additionalNotes := storedNotes body.additionalNotes }

/-- The end of `UpdateClient`: the client is saved, and the agent gets a message. -/
def saveUpdatedClient (env : Env) (client : Client) : Prog Db Reply := do
  if ← Prog.modifyGet (Db.saveClient env.faults client) then
    pure ⟨.json 200 true (str "Updated client successfully"), some (addWireguardPeer client)⟩
  else pure (Answer.error 500).only

/-- `UpdateClient` from the record it has read. -/
def updateStoredClient (env : Env) (body client : Client) : Prog Db Reply :=
  if !validTgUserid body.tgUserid then
    pure (Answer.json 400 false (str "Telegram userid must be a non-zero number")).only
  else do
    match ← getServer with
    | none => pure (Answer.error 400).only
    | some server =>
      let allocatedIPs ← getAllocatedIPs client.id
      match checkAddresses server allocatedIPs body
          (str "Extra Allowed IPs must be in CIDR format") with
      | some answer => pure answer.only
      | none =>
        match ← updateClientKeyPair client body with
        | .error answer => pure answer.only
        | .ok kept =>
          if badPresharedKey client body then
            pure (Answer.json 500 false
              (str "Cannot verify provided Wireguard preshared key")).only
          else saveUpdatedClient env (mapNewData env.now kept body)

/-- `UpdateClient`. -/
def updateClient (env : Env) (body : Client) : Prog Db Reply :=
  if !validXid body.id then
    pure (Answer.json 400 false (str "Please provide a valid client ID")).only
  else do
    match ← getClientByID body.id with
    | none => pure (Answer.json 404 false (str "Client not found")).only
    | some client => updateStoredClient env body client

/-- The body of `SetClientStatus`. A field is missing when the key is absent or holds a value of
another type; the handler's type assertions panic on it. -/
structure StatusBody where
  id : Option Str
  status : Option Bool
  deriving DecidableEq, Repr

/-- The end of `SetClientStatus`. -/
def saveClientStatus (env : Env) (status : Bool) (client : Client) : Prog Db Reply := do
  if ← Prog.modifyGet (Db.saveClient env.faults { client with enabled := status }) then
    pure (Answer.json 200 true (str "Changed client status successfully")).only
  else pure (Answer.error 500).only

/-- `SetClientStatus`. -/
def setClientStatus (env : Env) (body : Option StatusBody) : Prog Db Reply :=
  match body with
  | none => pure (Answer.json 400 false (str "Bad post data")).only
  | some ⟨some clientID, some status⟩ =>
    if !validXid clientID then
      pure (Answer.json 400 false (str "Please provide a valid client ID")).only
    else do
      match ← getClientByID clientID with
      | none => pure (Answer.error 404).only
      | some client => saveClientStatus env status client
  | some _ => pure Answer.panic.only

/-- `RemoveClient`. The agent gets its message before the client is deleted. -/
def removeClient (env : Env) (clientID : Str) : Prog Db Reply :=
  if !validXid clientID then
    pure (Answer.json 400 false (str "Please provide a valid client ID")).only
  else do
    let clients ← getClients
    let message := (clients.find? (·.id == clientID)).map removeWireguardPeer
    if ← Prog.modifyGet (Db.deleteClient env.faults clientID) then
      pure ⟨.json 200 true (str "Client removed"), message⟩
    else pure ⟨.json 500 false (str "Cannot delete client from database"), message⟩

end QrWireguard.WebUi
