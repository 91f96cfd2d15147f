import NodeAgent.Xray.Model.Document
import NodeAgent.Xray.Model.Serialize
import Mathlib.Data.List.Sort
import Mathlib.Data.String.Basic
import Mathlib.Logic.Function.Basic
/-!
# What the node makes of a configuration

`ApplyAPI` of `backend/xray/config.go`, on a configuration with all the
sections it reads or sets: it puts the API inbound in the place of an old
one, has the API and metrics sections, takes unsuitable outbounds off the
observatories' selectors, rewrites the routing rules and turns user
statistics on. The sections it does not touch are left out, and so are the
fields of `conf.RouterConfig` and `conf.Policy` it does not.

A rule is a `json.RawMessage`, and here the document that is. Numbers in a
rule go through `float64` when it is rewritten; `float` says what of.
-/

namespace NodeAgent

open GoJson GoStrings

/-- `Inbound`. -/
structure ConfigInbound where
  doc : InboundDoc
  exclude : Bool
  clients : GoMap String Account

/-- `conf.RouterConfig`. -/
structure RouterConfig where
  ruleList : List Value

/-- `conf.Policy`. -/
structure Policy where
  statsUserUplink : Bool
  statsUserDownlink : Bool
  statsUserOnline : Bool

/-- `conf.SystemPolicy`. -/
structure SystemPolicy where
  statsInboundUplink : Bool
  statsInboundDownlink : Bool
  statsOutboundUplink : Bool
  statsOutboundDownlink : Bool

/-- `conf.PolicyConfig`. Of a level, `none` is that the map does not have it
and `some none` that it has a nil pointer under it. -/
structure PolicyConfig where
  levels : UInt32 → Option (Option Policy)
  system : Option SystemPolicy

/-- `conf.APIConfig`. -/
structure APIConfig where
  tag : String
  listen : String
  services : Slice String

/-- `Config`. -/
@[ext]
structure FullConfig where
  logConfig : Option LogConfig
  routerConfig : Option RouterConfig
  inboundConfigs : List ConfigInbound
  outboundConfigs : Value
  policy : Option PolicyConfig
  api : Option APIConfig
  metrics : Option (List (String × Value))
  observatory : Option (List (String × Value))
  burstObservatory : Option (List (String × Value))

/-- What a call panics with. -/
inductive Panic
  /-- An inbound is a nil pointer. -/
  | nilInbound
  /-- A slice expression is out of range. -/
  | outOfRange
  /-- The policy of level 0 is a nil pointer. -/
  | nilLevel
  /-- The log section is a nil pointer. -/
  | nilLog

/-- The errors returned. -/
inductive ConfigErr
  /-- `json.Unmarshal` fails on the configuration. -/
  | unmarshal
  /-- `invalid JSON in rule`: it fails on a rule. -/
  | invalidRule

/-- How a call ends that does not complete. -/
inductive Stop
  | returns (err : ConfigErr)
  | panics (p : Panic)

/-- `strings.EqualFold`, for a `t` of ASCII letters. -/
def equalFold (s t : String) : Bool :=
  foldName s = foldName t

/-! ## Rules -/

section Rules

variable (float : String → Option String)

/-- `json.Unmarshal(raw, &obj)` into a nil map. -/
def ruleObject (raw : Value) : Option (Option (List (String × Value))) :=
  intoMap float none raw

/-- `obj[k].(string)`. -/
def ruleString (k : String) (obj : Option (List (String × Value))) : Option String :=
  (obj.bind fun m => m.lookup k).bind Value.string

def malformedDomainGuardRuleTag : String := "PG_NODE_MALFORMED_DOMAIN_GUARD"

/-- `none` is an error. -/
def filterRules (apiTag : String) : List Value → Option (List Value)
  | [] => some []
  | raw :: rules =>
    match ruleObject float raw with
    | none => none
    | some obj =>
      if ruleString "outboundTag" obj = some apiTag then filterRules apiTag rules
      else if ruleString "ruleTag" obj = some malformedDomainGuardRuleTag then
        filterRules apiTag rules
      else (filterRules apiTag rules).map fun filtered => raw :: filtered

def privateCIDRs : List String :=
  ["0.0.0.0/8", "10.0.0.0/8", "100.64.0.0/10", "127.0.0.0/8", "169.254.0.0/16", "172.16.0.0/12",
    "192.0.0.0/24", "192.168.0.0/16", "198.18.0.0/15", "224.0.0.0/4", "240.0.0.0/4", "::/128",
    "::1/128", "fc00::/7", "fe80::/10"]

/-- An entry that is a string, and `geoip:private` but for case. -/
def isGeoIPPrivate : Value → Bool
  | .str s => equalFold s "geoip:private"
  | _ => false

/-- The list with such entries replaced, and whether there were any. -/
def replaceGeoIPPrivate : Value → Value × Bool
  | .arr list =>
    if list.any isGeoIPPrivate then
      (.arr (list.flatMap fun entry =>
        if isGeoIPPrivate entry then privateCIDRs.map .str else [entry]), true)
    else (.arr list, false)
  | values => (values, false)

/-- The value of one key of a rule's map, replaced. -/
def replaceKey (k : String) (obj : List (String × Value)) : List (String × Value) × Bool :=
  match obj.lookup k with
  | none => (obj, false)
  | some values =>
    let (newValues, changed) := replaceGeoIPPrivate values
    if changed then (put k newValues obj, true) else (obj, false)

/-- One rule of `normalizeGeoIPPrivateRules`: its bytes are kept unless
something is replaced. -/
def normalizeRule (raw : Value) : Option Value :=
  match ruleObject float raw with
  | none => none
  | some none => some raw
  | some (some obj) =>
    let (obj, ipChanged) := replaceKey "ip" obj
    let (obj, sourceChanged) := replaceKey "source" obj
    if ipChanged || sourceChanged then some (.obj obj) else some raw

/-- `none` is an error. -/
def normalizeGeoIPPrivateRules (rules : List Value) : Option (List Value) :=
  rules.mapM (normalizeRule float)

end Rules

/-- The rule that brings the API's traffic to it, from the addresses
`apiRuleSources` finds. -/
def apiRule (sources : List String) : Value :=
  .obj [("inboundTag", .arr [.str "API_INBOUND"]), ("outboundTag", .str "API"),
    ("source", .arr (sources.map .str)), ("type", .str "field")]

def malformedDomainGuardRule (outboundTag : String) : Value :=
  .obj [("domain", .arr [.str "regexp:^.\x7b254,\x7d$",
      .str "regexp:(^|\\.)[^.]\x7b64,\x7d(\\.|$)"]),
    ("outboundTag", .str outboundTag), ("ruleTag", .str malformedDomainGuardRuleTag),
    ("type", .str "field")]

/-! ## Outbounds -/

/-- The tag and protocol of an outbound, if it has both. -/
def outboundEntry (outbound : Value) : Option (String × String) :=
  match outbound with
  | .obj obj =>
    let tag := trimSpace (((obj.lookup "tag").bind Value.string).getD "")
    let protocol := trimSpace (((obj.lookup "protocol").bind Value.string).getD "")
    if tag = "" ∨ protocol = "" then none else some (tag, protocol)
  | _ => none

def outboundProtocolByTag (outboundConfigs : Value) : GoMap String String :=
  match outboundConfigs with
  | .arr rawOutbounds =>
    rawOutbounds.foldl
      (fun out outbound =>
        match outboundEntry outbound with
        | none => out
        | some (tag, protocol) => out.insert tag protocol)
      ∅
  | _ => ∅

/-- The empty string if there is none. -/
def blackholeOutboundTag (outboundConfigs : Value) : String :=
  let protocolByTag := outboundProtocolByTag outboundConfigs
  let tags := protocolByTag.keys.insertionSort (· ≤ ·)
  (tags.find? fun tag => equalFold ((protocolByTag.lookup tag).getD "") "blackhole").getD ""

def observatoryExcludedProtocols : List String := ["blackhole", "dns", "loopback"]

/-- Whether an observatory keeps an entry of its selector. -/
def selects (protocolByTag : GoMap String String) : Value → Bool
  | .str tag =>
    match protocolByTag.lookup (trimSpace tag) with
    | some protocol => protocol ∉ observatoryExcludedProtocols
    | none => true
  | _ => false

def sanitize (protocolByTag : GoMap String String) (obs : List (String × Value)) :
    List (String × Value) :=
  match obs.lookup "subjectSelector" with
  | some (.arr values) =>
    put "subjectSelector" (.arr (values.filter (selects protocolByTag))) obs
  | _ => obs

/-- A section of `sanitizeObservatorySelectors`; without outbounds it is left
as it is. -/
def sanitizeSection (outboundConfigs : Value) (obs : Option (List (String × Value))) :
    Option (List (String × Value)) :=
  let protocolByTag := outboundProtocolByTag outboundConfigs
  if protocolByTag.keys.length = 0 then obs else obs.map (sanitize protocolByTag)

/-! ## The policy -/

/-- `none` is the nil pointer of a level 0 that is `null`. -/
def checkPolicy (policy : Option PolicyConfig) : Option PolicyConfig :=
  let policy := policy.getD ⟨fun _ => none, none⟩
  let level : Option Policy :=
    match policy.levels 0 with
    | none => some ⟨true, true, false⟩
    | some none => none
    | some (some zero) => some { zero with statsUserDownlink := true, statsUserUplink := true }
  level.map fun zero =>
    { levels := Function.update policy.levels 0 (some (some zero))
      system :=
        match policy.system with
        | none => some ⟨false, false, true, true⟩
        | some system =>
          some { system with statsOutboundDownlink := true, statsOutboundUplink := true } }

/-! ## The configuration -/

/-- `uint16(port)` on the loopback address. -/
def loopbackListenAddress (port : ℤ) : String :=
  "127.0.0.1:" ++ toString (port % 65536)

/-- The API inbound as `ApplyAPI` makes it. -/
def apiConfigInbound (apiPort : ℤ) : ConfigInbound where
  doc :=
    { tag := "API_INBOUND"
      listen := "127.0.0.1"
      port := .num (toString apiPort)
      protocol := "dokodemo-door"
      settings := some [("address", .str "127.0.0.1")]
      streamSettings := none
      sniffing := .null
      allocation := none }
  exclude := false
  clients := ∅

namespace ConfigInbound

/-- `inbound.Tag == "API_INBOUND"`. -/
def isAPI (i : ConfigInbound) : Bool :=
  i.doc.tag = "API_INBOUND"

end ConfigInbound

namespace FullConfig

variable (float : String → Option String) (sources : List String)

/-- The rules that are put in front. -/
def prependRules (c : FullConfig) : List Value :=
  let blockTag := blackholeOutboundTag c.outboundConfigs
  if blockTag ≠ "" then [apiRule sources, malformedDomainGuardRule blockTag]
  else [apiRule sources]

/-- What `ApplyAPI` sets once the inbounds left, the rules left and the
policy are there. -/
def applied (c : FullConfig) (apiPort metricPort : ℤ) (inbounds : List ConfigInbound)
    (rules : List Value) (policy : PolicyConfig) : FullConfig :=
  { c with
    routerConfig := some ⟨c.prependRules sources ++ rules⟩
    inboundConfigs := apiConfigInbound apiPort :: inbounds
    policy := some policy
    api := some ⟨"API", "", ⟨["HandlerService", "LoggerService", "StatsService"], 3⟩⟩
    metrics := some [("listen", .str (loopbackListenAddress metricPort)), ("tag", .str "metric")]
    observatory := sanitizeSection c.outboundConfigs c.observatory
    burstObservatory := sanitizeSection c.outboundConfigs c.burstObservatory }

def ruleList (c : FullConfig) : List Value :=
  (c.routerConfig.getD ⟨[]⟩).ruleList

def applyAPI (c : FullConfig) (apiPort metricPort : ℤ) : Except Stop FullConfig :=
  match Ranging.removeAll ConfigInbound.isAPI c.inboundConfigs with
  | none => .error (.panics .outOfRange)
  | some inbounds =>
    match normalizeGeoIPPrivateRules float c.ruleList with
    | none => .error (.returns .invalidRule)
    | some rules =>
      match filterRules float "API" rules with
      | none => .error (.returns .invalidRule)
      | some rules =>
        match checkPolicy c.policy with
        | none => .error (.panics .nilLevel)
        | some policy => .ok (c.applied sources apiPort metricPort inbounds rules policy)

end FullConfig

end NodeAgent
