import NodeAgent.Xray.Model.Routing
/-!
# A configuration, from its document to the bytes the core is started with

`NewConfig`, `ApplyAPI`, `GetLogFiles` and `ToBytes` one after the other, as
a backend is started on a document. Of the document the model decodes the
sections those functions read; whether the rest of it decodes is
`DocExternals.sections`.
-/

namespace NodeAgent

open GoJson

/-! ## Sections -/

namespace LogConfig

def zero : LogConfig :=
  ⟨"", "", "", false, ""⟩

def field (log : LogConfig) (k : String) (v : Value) : Option LogConfig :=
  if isField "access" k then (intoString log.accessLog v).map fun x => { log with accessLog := x }
  else if isField "error" k then
    (intoString log.errorLog v).map fun x => { log with errorLog := x }
  else if isField "loglevel" k then
    (intoString log.logLevel v).map fun x => { log with logLevel := x }
  else if isField "dnsLog" k then (intoBool log.dnsLog v).map fun x => { log with dnsLog := x }
  else if isField "maskAddress" k then
    (intoString log.maskAddress v).map fun x => { log with maskAddress := x }
  else some log

end LogConfig

/-- A `[]json.RawMessage`: an element takes the bytes of its value, `null`
too, whatever it had before. -/
def intoRaws : Value → Option (List Value)
  | .null => some []
  | .arr elems => some elems
  | _ => none

def RouterConfig.field (router : RouterConfig) (k : String) (v : Value) : Option RouterConfig :=
  if isField "rules" k then (intoRaws v).map fun x => { router with ruleList := x } else some router

def Policy.field (policy : Policy) (k : String) (v : Value) : Option Policy :=
  if isField "statsUserUplink" k then
    (intoBool policy.statsUserUplink v).map fun x => { policy with statsUserUplink := x }
  else if isField "statsUserDownlink" k then
    (intoBool policy.statsUserDownlink v).map fun x => { policy with statsUserDownlink := x }
  else if isField "statsUserOnline" k then
    (intoBool policy.statsUserOnline v).map fun x => { policy with statsUserOnline := x }
  else some policy

def SystemPolicy.field (system : SystemPolicy) (k : String) (v : Value) : Option SystemPolicy :=
  if isField "statsInboundUplink" k then
    (intoBool system.statsInboundUplink v).map fun x => { system with statsInboundUplink := x }
  else if isField "statsInboundDownlink" k then
    (intoBool system.statsInboundDownlink v).map fun x => { system with statsInboundDownlink := x }
  else if isField "statsOutboundUplink" k then
    (intoBool system.statsOutboundUplink v).map fun x => { system with statsOutboundUplink := x }
  else if isField "statsOutboundDownlink" k then
    (intoBool system.statsOutboundDownlink v).map fun x =>
      { system with statsOutboundDownlink := x }
  else some system

/-- `strconv.ParseUint` of a map's key, for a `uint32`. -/
def parseLevel (key : String) : Option UInt32 :=
  let digits := key.toList
  if digits = [] ∨ ¬ digits.all Char.isDigit then none
  else
    let n := digits.foldl (fun n d => 10 * n + (d.toNat - '0'.toNat)) 0
    if n < 2 ^ 32 then some (UInt32.ofNat n) else none

/-- A member of the levels; each is decoded anew, on top of no other. -/
def intoLevel (levels : UInt32 → Option (Option Policy)) (key : String) (v : Value) :
    Option (UInt32 → Option (Option Policy)) :=
  match intoPointer ⟨false, false, false⟩ (intoStruct Policy.field) none v, parseLevel key with
  | some policy, some level => some (Function.update levels level (some policy))
  | _, _ => none

/-- `map[uint32]*conf.Policy`. -/
def intoLevels (levels : UInt32 → Option (Option Policy)) :
    Value → Option (UInt32 → Option (Option Policy))
  | .null => some fun _ => none
  | .obj ms => ms.foldlM (fun levels p => intoLevel levels p.1 p.2) levels
  | _ => none

def PolicyConfig.field (policy : PolicyConfig) (k : String) (v : Value) : Option PolicyConfig :=
  if isField "levels" k then (intoLevels policy.levels v).map fun x => { policy with levels := x }
  else if isField "system" k then
    (intoPointer ⟨false, false, false, false⟩ (intoStruct SystemPolicy.field) policy.system v).map
      fun x => { policy with system := x }
  else some policy

def APIConfig.field (api : APIConfig) (k : String) (v : Value) : Option APIConfig :=
  if isField "tag" k then (intoString api.tag v).map fun x => { api with tag := x }
  else if isField "listen" k then (intoString api.listen v).map fun x => { api with listen := x }
  else if isField "services" k then
    (intoSlice "" intoString api.services v).map fun x => { api with services := x }
  else some api

/-! ## The document -/

/-- What a document is decoded into. -/
structure ConfigDoc where
  log : Option LogConfig
  routing : Option RouterConfig
  inbounds : Slice (Option InboundDoc)
  outbounds : Value
  policy : Option PolicyConfig
  api : Option APIConfig
  metrics : Option (List (String × Value))
  observatory : Option (List (String × Value))
  burstObservatory : Option (List (String × Value))

namespace ConfigDoc

def zero : ConfigDoc :=
  ⟨none, none, ⟨[], 0⟩, .null, none, none, none, none, none⟩

def field (float : String → Option String) (d : ConfigDoc) (k : String) (v : Value) :
    Option ConfigDoc :=
  if isField "log" k then
    (intoPointer LogConfig.zero (intoStruct LogConfig.field) d.log v).map fun x =>
      { d with log := x }
  else if isField "routing" k then
    (intoPointer ⟨[]⟩ (intoStruct RouterConfig.field) d.routing v).map fun x =>
      { d with routing := x }
  else if isField "inbounds" k then
    (configField float d.inbounds k v).map fun x => { d with inbounds := x }
  else if isField "outbounds" k then (generic float v).map fun x => { d with outbounds := x }
  else if isField "policy" k then
    (intoPointer ⟨fun _ => none, none⟩ (intoStruct PolicyConfig.field) d.policy v).map fun x =>
      { d with policy := x }
  else if isField "api" k then
    (intoPointer ⟨"", "", ⟨[], 0⟩⟩ (intoStruct APIConfig.field) d.api v).map fun x =>
      { d with api := x }
  else if isField "metrics" k then
    (intoMap float d.metrics v).map fun x => { d with metrics := x }
  else if isField "observatory" k then
    (intoMap float d.observatory v).map fun x => { d with observatory := x }
  else if isField "burstObservatory" k then
    (intoMap float d.burstObservatory v).map fun x => { d with burstObservatory := x }
  else some d

/-- `json.Unmarshal` of a configuration. -/
def unmarshal (K : DocExternals) (config : String) : Option ConfigDoc :=
  match K.parse config with
  | none => none
  | some v => if K.sections (otherSections v) then intoStruct (field K.float) zero v else none

/-- What `NewConfig` makes of it: no clients yet, and the inbounds to leave
alone marked. -/
def load (d : ConfigDoc) (inbounds : List InboundDoc) (exclude : List String) : FullConfig where
  logConfig := d.log
  routerConfig := d.routing
  inboundConfigs := inbounds.map fun i => ⟨i, decide (i.tag ∈ exclude), ∅⟩
  outboundConfigs := d.outbounds
  policy := d.policy
  api := d.api
  metrics := d.metrics
  observatory := d.observatory
  burstObservatory := d.burstObservatory

end ConfigDoc

/-! ## The calls -/

/-- The protocols of `config.go`. -/
def Protocol.named (name : String) : Protocol :=
  match name with
  | "vmess" => .vmess
  | "vless" => .vless
  | "trojan" => .trojan
  | "shadowsocks" => .shadowsocks
  | "hysteria" => .hysteria
  | name => .other name

/-- As `ToBytes` sees it. -/
def ConfigInbound.full (i : ConfigInbound) : FullInbound where
  tag := i.doc.tag
  protocol := Protocol.named i.doc.protocol
  settings := i.doc.settings.map fun m => m.map fun p => (p.1, .json p.2)
  exclude := i.exclude
  clients := i.clients

namespace FullConfig

def newConfig (K : DocExternals) (config : String) (exclude : List String) :
    Except Stop FullConfig :=
  match ConfigDoc.unmarshal K config with
  | none => .error (.returns .unmarshal)
  | some d =>
    match d.inbounds.elems.mapM id with
    | none => .error (.panics .nilInbound)
    | some inbounds => .ok (d.load inbounds exclude)

/-- The backend it is the configuration of, before a process is started. -/
def backend (c : FullConfig) : XrayBackend :=
  ⟨c.logConfig, c.inboundConfigs.map ConfigInbound.full, .start ⟨[]⟩⟩

end FullConfig

/-- A document taken in: the configuration `NewConfig` returns, what
`ApplyAPI` makes of it, and what `ToBytes` writes. -/
structure Intake where
  loaded : FullConfig
  applied : FullConfig
  written : Written

/-- The calls one after the other, up to the first that does not complete. -/
def intake (K : DocExternals) (sources : List String) (orders : String → Order String)
    (config : String) (exclude : List String) (apiPort metricPort : ℤ) : Except Stop Intake :=
  match FullConfig.newConfig K config exclude with
  | .error stop => .error stop
  | .ok loaded =>
    match loaded.applyAPI K.float sources apiPort metricPort with
    | .error stop => .error stop
    | .ok applied =>
      match applied.backend.getLogFiles.toBytes orders with
      | none => .error (.panics .nilLog)
      | some (_, written) => .ok ⟨loaded, applied, written⟩

end NodeAgent
