import NodeAgent.Common.Ranging
import NodeAgent.Xray.Model.Account
/-!
# The core's configuration

The inbounds of `backend/xray/config.go`, each with the clients the node
keeps for it, and the functions that change them: the incremental ones a
user sync uses, and the ones that rebuild every inbound. What decoding the
JSON of a configuration gives is `encoding/json`'s business; here a
configuration is already decoded, and holds the fields the user operations
read.
-/

namespace NodeAgent

open GoStrings

/-- The protocols with users, and any other by its name. -/
inductive Protocol
  | vmess
  | vless
  | trojan
  | shadowsocks
  | hysteria
  | other (name : String)
  deriving DecidableEq

/-- An inbound. `method` and `flow` are the values of those keys of
`Settings` that are strings. -/
structure Inbound where
  tag : String
  protocol : Protocol
  method : Option String
  flow : Option String
  exclude : Bool
  /-- Email to account; never serialized. -/
  clients : GoMap String Account

/-- A configuration. -/
structure Config where
  inboundConfigs : List Inbound

/-- The inbound the node reaches its core through. -/
def apiInbound : Inbound where
  tag := "API_INBOUND"
  protocol := .other "dokodemo-door"
  method := none
  flow := none
  exclude := false
  clients := ∅

namespace Inbound

/-- `method, ok := Settings["method"].(string)` with a 2022 method. -/
def method2022 (i : Inbound) : Option String :=
  i.method.filter fun method => hasPrefix method "2022-blake3"

/-- The kind of account the inbound's protocol takes. -/
def accepts (i : Inbound) : Account → Bool
  | .vmess _ _ => i.protocol = .vmess
  | .vless _ _ _ => i.protocol = .vless
  | .trojan _ _ => i.protocol = .trojan
  | .shadowsocksTcp _ _ _ => i.protocol = .shadowsocks ∧ i.method2022 = none
  | .shadowsocks _ _ => i.protocol = .shadowsocks ∧ i.method2022 ≠ none
  | .hysteria _ _ => i.protocol = .hysteria

/-- The account an inbound serves a user with, if it is one of the user's
inbounds and the user has settings for its protocol. -/
def isActiveInbound (i : Inbound) (inbounds : List String) (settings : ProxySettings) :
    Option Account :=
  if i.tag ∈ inbounds then
    match i.protocol with
    | .vless => settings.vless
    | .vmess => settings.vmess
    | .trojan => settings.trojan
    | .shadowsocks =>
      match i.method2022 with
      | some method => settings.shadowsocks2022.map (checkShadowsocks2022 method)
      | none => settings.shadowsocks
    | .hysteria => settings.hysteria
    | .other _ => none
  else none

/-- The flow the inbound imposes on its VLESS users over the API. -/
def inboundFlow (i : Inbound) : String :=
  i.flow.getD ""

/-- The account as it is sent over the API. -/
def accountForAPI (i : Inbound) : Account → Account
  | .vless base id flow => .vless base id (if i.inboundFlow = "" then flow else i.inboundFlow)
  | account => account

/-- Record a client. A 2022 account is keyed once more when the inbound
names a method, whichever it is. -/
def updateUser (i : Inbound) (account : Account) : Inbound :=
  let account :=
    match account, i.method with
    | .shadowsocks base password, some method =>
      checkShadowsocks2022 method (.shadowsocks base password)
    | account, _ => account
  { i with clients := i.clients.insert account.getEmail account }

/-- Forget a client. -/
def removeUser (i : Inbound) (email : String) : Inbound :=
  { i with clients := i.clients.erase email }

/-- Record the accounts of the inbound's kind, then forget the emails. -/
def updateUsers (i : Inbound) (accounts : List Account) (removeEmails : List String) : Inbound :=
  let record (clients : GoMap String Account) (account : Account) : GoMap String Account :=
    if i.accepts account then
      clients.insert account.getEmail
        (match i.method2022 with
        | some method => checkShadowsocks2022 method account
        | none => account)
    else clients
  { i with clients := GoMap.eraseKeys (accounts.foldl record i.clients) removeEmails }

/-- Rebuild the clients from a list of users. -/
def syncUsers (uuidParse : String → Option UUID) (i : Inbound) (users : List User) : Inbound :=
  let account (user : User) : Option Account :=
    match i.protocol with
    | .vmess => user.getVmess.bind fun _ => newVmessAccount uuidParse user
    | .vless => user.getVless.bind fun _ => newVlessAccount uuidParse user
    | .trojan => user.getTrojan.map fun _ => newTrojanAccount user
    | .shadowsocks =>
      user.getShadowsocks.map fun _ =>
        match i.method2022 with
        | some method => checkShadowsocks2022 method (newShadowsocksAccount user)
        | none => newShadowsocksTcpAccount user
    | .hysteria => user.getHysteria.map fun _ => newHysteriaAccount user
    | .other _ => none
  let record (clients : GoMap String Account) (user : User) : GoMap String Account :=
    if i.tag ∈ user.inbounds then
      match account user with
      | some a => clients.insert user.email a
      | none => clients
    else clients
  { i with clients := users.foldl record ∅ }

/-- The client `ToBytes` writes out for an email: the accounts of the
inbound's kind and no others. -/
def served (i : Inbound) (email : String) : Option Account :=
  (i.clients.lookup email).filter i.accepts

end Inbound

/-- What one batch of users changes on one inbound. -/
structure InboundUpdate where
  accounts : List Account
  removeEmailSet : GoMap String Unit

namespace Config

/-- The tags of the inbounds that take users. -/
def tags (c : Config) : List String :=
  (c.inboundConfigs.filter fun i => !i.exclude).map Inbound.tag

/-- The inbounds that take users, by tag; of two with one tag, the
last. -/
def inboundByTag (c : Config) : GoMap String Inbound :=
  c.inboundConfigs.foldl (fun m i => if i.exclude then m else m.insert i.tag i) ∅

/-- What a batch changes on one inbound. The source runs over the users
outside and the inbounds inside; an update belongs to one inbound, so the
loops commute. -/
def inboundUpdate (uuidParse : String → Option UUID) (inbound : Inbound) (users : List User) :
    InboundUpdate :=
  users.foldl
    (fun update user =>
      match inbound.isActiveInbound user.inbounds (setupUserAccount uuidParse user) with
      | some account => { update with accounts := update.accounts ++ [account] }
      | none => { update with removeEmailSet := update.removeEmailSet.insert user.email () })
    ⟨[], ∅⟩

/-- Change the inbound `inboundByTag` has under a tag, in its place. -/
def modifyTag (tag : String) (f : Inbound → Inbound) : List Inbound → List Inbound
  | [] => []
  | i :: rest =>
    if i.tag = tag ∧ i.exclude = false ∧ ∀ j ∈ rest, j.tag = tag → j.exclude = true then
      f i :: rest
    else i :: modifyTag tag f rest

/-- Rebuild every inbound from a list of users. -/
def syncUsers (uuidParse : String → Option UUID) (c : Config) (users : List User) : Config where
  inboundConfigs :=
    c.inboundConfigs.map fun i => if i.exclude then i else i.syncUsers uuidParse users

/-- The loop of `ApplyAPI` that removes the old API inbound. It runs over
the length the slice had at the start while the removals shift the backing
array under it; `none` is an index out of range. -/
def removeAPI (inbounds : List Inbound) : Option (List Inbound) :=
  Ranging.removeAll (fun inbound => inbound.tag = "API_INBOUND") inbounds

/-- The inbounds after `ApplyAPI`: the API inbound first. -/
def applyAPI (c : Config) : Option Config :=
  (removeAPI c.inboundConfigs).map fun inbounds => ⟨apiInbound :: inbounds⟩

/-- What `NewConfig` makes of a decoded configuration: no clients yet, and
the inbounds to leave alone marked. -/
def newConfig (decoded : Config) (exclude : List String) : Config where
  inboundConfigs :=
    decoded.inboundConfigs.map fun i =>
      { i with clients := ∅, exclude := decide (i.tag ∈ exclude) }

/-- The users a core started from this configuration serves. -/
def servedClients (c : Config) (tag email : String) : Option Account :=
  (c.inboundConfigs.find? fun i => i.tag = tag ∧ i.exclude = false).bind fun i => i.served email

end Config

end NodeAgent
