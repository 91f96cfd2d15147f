import NodeAgent.Common.GoJson
import NodeAgent.Xray.Model.Core
/-!
# The configuration as it is written out

`ToBytes` of `backend/xray/config.go` makes the clients kept for each
inbound into the `clients` of its settings, and marshals the configuration
the core is started with. Of the settings `Inbound` has the two strings
the user operations read; here an inbound has them all, and a backend also
has the log section, which is blanked while it is marshalled.
-/

namespace NodeAgent

open GoJson

/-- A value of `Settings`: a decoded one, or the slice `ToBytes` puts
there. -/
inductive SettingValue
  | json (v : Value)
  | clients (accounts : List Account)

/-- An inbound with its settings; `none` is a nil map. -/
structure FullInbound where
  tag : String
  protocol : Protocol
  settings : Option (List (String × SettingValue))
  exclude : Bool
  clients : GoMap String Account

/-- `conf.LogConfig`. -/
structure LogConfig where
  accessLog : String
  errorLog : String
  logLevel : String
  dnsLog : Bool
  maskAddress : String
  deriving DecidableEq

/-- An inbound as it is marshalled: `exclude` and the client map are
not. -/
structure WrittenInbound where
  tag : String
  protocol : Protocol
  settings : Option (List (String × SettingValue))

/-- The sections of a marshalled configuration that `ToBytes` sets. -/
structure Written where
  log : LogConfig
  inbounds : List WrittenInbound

namespace FullInbound

/-- `Settings[key].(string)`. -/
def settingString (i : FullInbound) (key : String) : Option String :=
  match i.settings.bind fun m => m.lookup key with
  | some (.json v) => v.string
  | _ => none

/-- What the user operations read of it. -/
def inbound (i : FullInbound) : Inbound where
  tag := i.tag
  protocol := i.protocol
  method := i.settingString "method"
  flow := i.settingString "flow"
  exclude := i.exclude
  clients := i.clients

/-- The loop of `ToBytes` that makes the clients into settings: those of
the kind the protocol, and for Shadowsocks the method, calls for. -/
def toBytes (o : Order String) (i : FullInbound) : FullInbound :=
  if i.exclude then i
  else
    let settings := i.settings.getD []
    if i.clients.keys.length = 0 then
      { i with settings := some (put "clients" (.clients []) settings) }
    else
      match i.protocol with
      | .other _ => { i with settings := some settings }
      | _ =>
        let clients := ((GoMap.range o i.clients).map Prod.snd).filter i.inbound.accepts
        { i with settings := some (put "clients" (.clients clients) settings) }

def written (i : FullInbound) : WrittenInbound :=
  ⟨i.tag, i.protocol, i.settings⟩

/-- The account the settings have for an email. -/
def listed (i : FullInbound) (email : String) : Option Account :=
  match i.settings.bind fun m => m.lookup "clients" with
  | some (.clients accounts) => accounts.find? fun a => a.getEmail = email
  | _ => none

end FullInbound

/-- A backend: the configuration the node keeps, and the process. -/
structure XrayBackend where
  logConfig : Option LogConfig
  inbounds : List FullInbound
  process : Process

namespace XrayBackend

/-- As the user operations see it. -/
def xray (b : XrayBackend) : Xray :=
  ⟨⟨b.inbounds.map FullInbound.inbound⟩, b.process⟩

/-- After a user operation: the client maps and the process are what it
made them. -/
def replace (b : XrayBackend) (x : Xray) : XrayBackend where
  logConfig := b.logConfig
  inbounds :=
    List.zipWith (fun i j => { i with clients := j.clients }) b.inbounds x.config.inboundConfigs
  process := x.process

/-- `GetLogFiles` gives a configuration without a log section a default
one. -/
def getLogFiles (b : XrayBackend) : XrayBackend :=
  match b.logConfig with
  | some _ => b
  | none => { b with logConfig := some ⟨"", "", "info", false, ""⟩ }

/-- The backend afterwards and the configuration written; `none` is the
nil pointer of a missing log section. `orders` is the order of the range
loop over each inbound's clients. -/
def toBytes (orders : String → Order String) (b : XrayBackend) : Option (XrayBackend × Written) :=
  b.logConfig.map fun log =>
    let inbounds := b.inbounds.map fun i => i.toBytes (orders i.tag)
    let blank := { log with accessLog := "", errorLog := "" }
    let written := ⟨blank, inbounds.map FullInbound.written⟩
    let restored := { blank with accessLog := log.accessLog, errorLog := log.errorLog }
    ({ b with logConfig := some restored, inbounds := inbounds }, written)

/-- Start a process from the configuration: it serves the clients listed
for the inbounds that take users. -/
def start (orders : String → Order String) (b : XrayBackend) : XrayBackend :=
  match b.getLogFiles.toBytes orders with
  | some (b, _) =>
    let live (tag email : String) : Option Account :=
      (b.inbounds.find? fun i => i.tag = tag ∧ i.exclude = false).bind fun i => i.listed email
    { b with process := ⟨live, ∅, 0⟩ }
  | none => b

end XrayBackend

/-- The calls that change who is served, and the restart of the health
check. -/
inductive XrayCall
  | syncUser (user : User)
  | syncUsers (users : List User)
  | updateUsers (users : List User)
  | restart

/-- The users it names. -/
def XrayCall.users : XrayCall → List User
  | .syncUser user => [user]
  | .syncUsers users | .updateUsers users => users
  | .restart => []

/-- A call, with what happens around it. -/
structure XrayStep where
  env : Env
  orders : String → Order String
  call : XrayCall

namespace XrayBackend

variable (X : Externals)

/-- A backend just started: `New`, with the inbounds as `NewConfig` and
`ApplyAPI` leave them. -/
def new (orders : String → Order String) (logConfig : Option LogConfig)
    (inbounds : List FullInbound) (users : List User) : XrayBackend :=
  let b : XrayBackend := ⟨logConfig, inbounds, .start ⟨[]⟩⟩
  let b :=
    if 0 < users.length then b.replace ⟨b.xray.config.syncUsers X.uuidParse users, b.process⟩
    else b
  b.start orders

/-- One call. -/
def step (b : XrayBackend) (s : XrayStep) : XrayBackend :=
  match s.call with
  | .syncUser user => b.replace (b.xray.syncUser X s.env user).1
  | .syncUsers users =>
    (b.replace ⟨b.xray.config.syncUsers X.uuidParse users, b.process⟩).start s.orders
  | .updateUsers users => b.replace (b.xray.updateUsers X s.env users).1
  | .restart => b.start s.orders

end XrayBackend

end NodeAgent
