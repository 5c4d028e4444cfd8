import QrWireguard.Vtysh.Describe
import QrWireguard.Vtysh.ConfigList
import QrWireguard.Vtysh.FilterApply
import QrWireguard.Vtysh.Quoted
import QrWireguard.Vtysh.Template
import QrWireguard.Vtysh.Vector
import QrWireguard.WebAgent.Connections
import QrWireguard.WebAgent.Interchange
import QrWireguard.WebAgent.Netmask
import QrWireguard.WebAgent.ServerRest
import QrWireguard.WebAgent.Socket
import QrWireguard.WebUi.AddressRaces
import QrWireguard.WebUi.BotConfigs
import QrWireguard.WebUi.ClientConfig
import QrWireguard.WebUi.ClientKeys
import QrWireguard.WebUi.Deployed
import QrWireguard.WebUi.FloodWait
import QrWireguard.WebUi.Interfaces
import QrWireguard.WebUi.Logout
import QrWireguard.WebUi.PeerServer
import QrWireguard.WebUi.Suggest
import QrWireguard.WebUi.Telegram
import QrWireguard.WebUi.UserUpdates
import QrWireguard.WebUi.WakeOnLan
import QrWireguard.WebUi.WgConfReads
