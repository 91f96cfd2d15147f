import NodeAgent.Common.Maps
import NodeAgent.Common.Base64
import NodeAgent.Common.Sha256
/-!
# Users and the accounts made from them

The user a panel sends (`common/service.proto`), the account Xray is given
for each protocol (`backend/xray/api/account.go`), and the key derivation
of Shadowsocks 2022 (`common/helper.go`). Parsing a UUID is
`google/uuid`'s, so it is a parameter, `uuidParse`, of everything that
needs it.
-/

namespace NodeAgent

open GoStrings

/-! ## What a panel sends -/

/-- VMess settings. -/
structure Vmess where
  id : String
  deriving DecidableEq

/-- VLESS settings. -/
structure Vless where
  id : String
  flow : String
  deriving DecidableEq

/-- Trojan settings. -/
structure Trojan where
  password : String
  deriving DecidableEq

/-- Shadowsocks settings. -/
structure Shadowsocks where
  password : String
  method : String
  deriving DecidableEq

/-- Hysteria settings. -/
structure Hysteria where
  auth : String
  deriving DecidableEq

/-- The proxies of a user. WireGuard's are read by another backend. -/
structure Proxy where
  vmess : Option Vmess
  vless : Option Vless
  trojan : Option Trojan
  shadowsocks : Option Shadowsocks
  hysteria : Option Hysteria
  deriving DecidableEq

/-- A user, with the tags of the inbounds it is for. -/
structure User where
  email : String
  proxies : Option Proxy
  inbounds : List String
  deriving DecidableEq

namespace User

def getVmess (u : User) : Option Vmess := u.proxies.bind Proxy.vmess

def getVless (u : User) : Option Vless := u.proxies.bind Proxy.vless

def getTrojan (u : User) : Option Trojan := u.proxies.bind Proxy.trojan

def getShadowsocks (u : User) : Option Shadowsocks := u.proxies.bind Proxy.shadowsocks

def getHysteria (u : User) : Option Hysteria := u.proxies.bind Proxy.hysteria

end User

/-! ## What Xray is given -/

/-- The sixteen bytes of a UUID. -/
abbrev UUID := BitVec 128

/-- What every account carries. -/
structure BaseAccount where
  email : String
  level : UInt32
  deriving DecidableEq

/-- **An account**, one kind for each protocol. `shadowsocksTcp` is the
account of the older Shadowsocks methods, `shadowsocks` the one of the
2022 methods. -/
inductive Account
  | vmess (base : BaseAccount) (id : UUID)
  | vless (base : BaseAccount) (id : UUID) (flow : String)
  | trojan (base : BaseAccount) (password : String)
  | shadowsocksTcp (base : BaseAccount) (password method : String)
  | shadowsocks (base : BaseAccount) (password : String)
  | hysteria (base : BaseAccount) (auth : String)
  deriving DecidableEq

namespace Account

/-- The part every account has. -/
def base : Account → BaseAccount
  | vmess b _ => b
  | vless b _ _ => b
  | trojan b _ => b
  | shadowsocksTcp b _ _ => b
  | shadowsocks b _ => b
  | hysteria b _ => b

def getEmail (a : Account) : String := a.base.email

def getLevel (a : Account) : UInt32 := a.base.level

end Account

/-- The methods `api.CipherType_value` knows. -/
def cipherMethods : List String :=
  ["aes-128-gcm", "aes-256-gcm", "chacha20-poly1305", "chacha20-ietf-poly1305",
   "xchacha20-poly1305", "xchacha20-ietf-poly1305", "none"]

/-- The base of every account made from a user. -/
def baseAccount (user : User) : BaseAccount :=
  ⟨user.email, 0⟩

def newVmessAccount (uuidParse : String → Option UUID) (user : User) : Option Account :=
  (uuidParse ((user.getVmess.map Vmess.id).getD "")).map fun id => .vmess (baseAccount user) id

def newVlessAccount (uuidParse : String → Option UUID) (user : User) : Option Account :=
  (uuidParse ((user.getVless.map Vless.id).getD "")).map fun id =>
    .vless (baseAccount user) id ((user.getVless.map Vless.flow).getD "")

def newTrojanAccount (user : User) : Account :=
  .trojan (baseAccount user) ((user.getTrojan.map Trojan.password).getD "")

def newShadowsocksAccount (user : User) : Account :=
  .shadowsocks (baseAccount user) ((user.getShadowsocks.map Shadowsocks.password).getD "")

/-- A method Xray does not know is replaced by `none`. -/
def newShadowsocksTcpAccount (user : User) : Account :=
  let method := (user.getShadowsocks.map Shadowsocks.method).getD ""
  let method := if method ∈ cipherMethods then method else "none"
  .shadowsocksTcp (baseAccount user) ((user.getShadowsocks.map Shadowsocks.password).getD "") method

def newHysteriaAccount (user : User) : Account :=
  .hysteria (baseAccount user) ((user.getHysteria.map Hysteria.auth).getD "")

/-- The accounts of one user, by protocol. -/
structure ProxySettings where
  vmess : Option Account
  vless : Option Account
  trojan : Option Account
  shadowsocks : Option Account
  shadowsocks2022 : Option Account
  hysteria : Option Account

/-- An account for every protocol the user has settings for; a UUID that
does not parse leaves the protocol without one. -/
def setupUserAccount (uuidParse : String → Option UUID) (user : User) : ProxySettings where
  vmess := user.getVmess.bind fun _ => newVmessAccount uuidParse user
  vless := user.getVless.bind fun _ => newVlessAccount uuidParse user
  trojan := user.getTrojan.map fun _ => newTrojanAccount user
  shadowsocks := user.getShadowsocks.map fun _ => newShadowsocksTcpAccount user
  shadowsocks2022 := user.getShadowsocks.map fun _ => newShadowsocksAccount user
  hysteria := user.getHysteria.map fun _ => newHysteriaAccount user

/-- A password that already is the base64 of a key of the method's length
is kept; any other is hashed to one. -/
def ensureBase64Password (password method : String) : String :=
  let fits (decodedBytes : List UInt8) : Bool :=
    (contains method "aes-128-gcm" && decodedBytes.length == 16) ||
      ((contains method "aes-256-gcm" || contains method "chacha20-poly1305") &&
        decodedBytes.length == 32)
  if (Base64.decodeString password).any fits then password
  else
    let hashBytes := Sha256.sum256 password.toUTF8.toList
    let keyBytes :=
      if contains method "aes-128-gcm" then hashBytes.take 16 else hashBytes.take 32
    Base64.encodeToString keyBytes

/-- The same over the bytes of a password, which a Go string may hold any
of. -/
def Raw.ensureBase64Password (password : List UInt8) (method : String) : List UInt8 :=
  let fits (decodedBytes : List UInt8) : Bool :=
    (contains method "aes-128-gcm" && decodedBytes.length == 16) ||
      ((contains method "aes-256-gcm" || contains method "chacha20-poly1305") &&
        decodedBytes.length == 32)
  if (Base64.decodeBytes password).any fits then password
  else
    let hashBytes := Sha256.sum256 password
    let keyBytes :=
      if contains method "aes-128-gcm" then hashBytes.take 16 else hashBytes.take 32
    Base64.encodeBytes keyBytes

/-- The account with its password made a key of the method. -/
def checkShadowsocks2022 (method : String) : Account → Account
  | .shadowsocks base password => .shadowsocks base (ensureBase64Password password method)
  | account => account

end NodeAgent
