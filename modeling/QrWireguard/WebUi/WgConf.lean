import QrWireguard.WebUi.Server

/-!
# The server configuration

The text that the default template `wg.conf` makes of the server, the clients and the settings.
-/

namespace QrWireguard.WebUi

/-- An `if` of the template without an `else`. -/
def templateIf (b : Bool) (text : Str) : Str := if b then text else []

/-- The template up to the clients. -/
def wgConfInterface (server : Server) (settings : GlobalSetting) : List Str :=
  [str "# This file was generated using wireguard-ui (https://github.com/ngoduykhanh/wireguard-ui)",
    str "# Please don't modify it manually, otherwise your change might get replaced.",
    [],
    str "# Address updated at:     " ++ server.interface.updatedAt.toText,
    str "# Private Key updated at: " ++ server.keyPair.updatedAt.toText,
    str "[Interface]",
    str "Address = " ++ unsplit [','] server.interface.addresses,
    str "ListenPort = " ++ itoa server.interface.listenPort,
    str "PrivateKey = " ++ server.keyPair.privateKey,
    templateIf (settings.mtu != 0) (str "MTU = " ++ itoa settings.mtu),
    str "PostUp = " ++ server.interface.postUp,
    str "PreDown = " ++ server.interface.preDown,
    str "PostDown = " ++ server.interface.postDown,
    str "Table = " ++ settings.table,
    []]

/-- The list of addresses of a peer: a comma stands before each extra address, also where there
are no other ones. -/
def wgConfAllowedIPs (client : Client) : Str :=
  unsplit [','] client.allocatedIPs ++ client.extraAllowedIPs.flatMap (',' :: ·)

/-- The template for one client. -/
def wgConfClient (settings : GlobalSetting) (client : Client) : List Str :=
  if client.enabled then
    [[],
      str "# ID:           " ++ client.id,
      str "# Name:         " ++ client.name,
      str "# Email:        " ++ client.email,
      str "# Telegram:     " ++ client.tgUserid,
      str "# Created at:   " ++ client.createdAt.toText,
      str "# Update at:    " ++ client.updatedAt.toText ++
        templateIf (client.additionalNotes != [])
          (str "\n\n# Notes:\n# " ++ client.additionalNotes),
      str "[Peer]",
      str "PublicKey = " ++ client.publicKey,
      templateIf (client.presharedKey != []) (str "PresharedKey = " ++ client.presharedKey),
      str "AllowedIPs = " ++ wgConfAllowedIPs client,
      templateIf (settings.persistentKeepalive != 0)
        (str "PersistentKeepalive = " ++ itoa settings.persistentKeepalive),
      templateIf (client.endpoint != []) (str "Endpoint = " ++ client.endpoint)]
  else []

/-- The template `wg.conf`. -/
def wgConf : Template := fun server clients settings =>
  unlines (wgConfInterface server settings) ++
    clients.flatMap (fun client => unlines (wgConfClient settings client)) ++ ['\n']

end QrWireguard.WebUi
