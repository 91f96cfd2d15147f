import NodeAgent.Controller.Model.Views
import NodeAgent.Shared.Model.Run
import NodeAgent.Shared.Model.Sharable
/-!
# The agent's control surface

`controller/agent`: every route of `Router`, behind the middleware of its
group. Which route a method and a path lead to is the router's business,
and what decoding a body gives is `encoding/json`'s: a route comes with
its parameter and its decoded body, `none` if that fails. The state is the
node's: the manager, and the releases of the two binaries that can be
replaced over the API.
-/

namespace NodeAgent

/-- `tenantViewModel`. -/
structure TenantViewModel where
  id : String
  status : String
  reason : String
  periodID : UInt64
  quotaBytes : Int64
  usedBytes : Int64
  creditLimitBytes : Int64
  expireAt : Int64
  deriving DecidableEq

/-- The view of a tenant; of none, the zero value. -/
def tenantView : Option Tenant → TenantViewModel
  | none => ⟨"", "", "", 0, 0, 0, 0, 0⟩
  | some t =>
    { id := t.id
      status := t.status.text
      reason := t.reason.text
      periodID := t.periodID
      quotaBytes := t.quotaBytes
      usedBytes := t.usedBytes
      creditLimitBytes := t.creditLimitBytes
      expireAt := t.expireAt }

/-- `createTenantRequest` has the fields of `CreateParams`; this is
`setQuotaRequest`. -/
structure SetQuotaRequest where
  quotaBytes : Int64
  creditLimitBytes : Int64
  expireAt : Int64

/-- The routes, by their handlers. -/
inductive AgentRoute
  | handleHealth
  | applyConfig (body : Option String)
  | getConfig
  | getInbounds
  | coreStart
  | coreStop
  | coreRestart
  | setXrayVersion (body : Option String)
  /-- With the version its body leaves, also one that does not decode. -/
  | selfUpdate (version : String)
  | listTenants
  | createTenant (body : Option Registry.CreateParams)
  | deleteTenant (id : String)
  | setQuota (id : String) (body : Option SetQuotaRequest)
  | suspendTenant (id : String)
  | resumeTenant (id : String)
  | resetTenant (id : String)
  | tenantUsage (id : String)
  | syncUsers (body : Option (List UserInput))
  | myUsage

/-- The scope the group of a route requires. -/
def AgentRoute.group : AgentRoute → Option Scope
  | .handleHealth => none
  | .syncUsers _ | .myUsage => some .tenant
  | _ => some .master

/-- The bodies of the answers. -/
inductive AgentBody
  | http (body : HttpBody)
  /-- `{"error": text + err.Error()}` -/
  | failed (text : String) (err : ManagerErr)
  | sharable (err : SharableErr)
  /-- `{"status": "ok", ...}`, or without that field. -/
  | core (started : Bool) (version : String)
  | started (started : Bool)
  /-- A configuration as it was pushed. -/
  | config (text : String)
  | inbounds (doc : GoJson.Value)
  | tenant (view : TenantViewModel)
  | tenants (views : List TenantViewModel)
  | usage (view : UsageViewModel)
  | xray (version : String) (started : Bool) (coreVersion : String)
  | xrayWarning (version : String) (err : ManagerErr)
  | updated (version : String)
  | noContent

structure AgentResponse where
  status : ℕ
  body : AgentBody

def AgentResponse.error (status : ℕ) (msg : String) : AgentResponse :=
  ⟨status, .http (.error msg)⟩

/-- What happens around a request. -/
structure AgentEnv where
  env : Env
  now : Int64
  /-- The version a running core reports. -/
  coreVersion : String
  /-- Whether the first write of a reset goes through. -/
  resetSaved : Bool
  /-- What `latestRelease` gives for Xray and for the node. -/
  latestXray : Except String String
  latestNode : Except String String
  /-- The error of downloading a release and putting it in place. -/
  download : Option String
  /-- The error of `os.Executable`. -/
  executable : Option String

/-- **The node**: the manager, and the releases put in place so far. -/
structure AgentNode where
  mgr : Manager
  xrayBinary : Option String
  nodeBinary : Option String

/-- `versionRe`: an optional `v`, a digit, and up to thirty letters,
digits, dots and dashes. -/
def versionRe (version : String) : Bool :=
  let digits := match version.toList with
    | 'v' :: rest => rest
    | cs => cs
  match digits with
  | [] => false
  | c :: rest =>
    c.isDigit && decide (rest.length ≤ 30) &&
      rest.all fun c => c.isDigit || c.isAlpha || c = '.' || c = '-'

namespace AgentServer

variable (X : Externals) (K : DocExternals)

/-- `writeNotFoundOr500`. -/
def writeNotFoundOr500 (err : ManagerErr) : AgentResponse :=
  match err with
  | .registry .notFound => .error 404 "tenant not found"
  | err => ⟨500, .failed "" err⟩

/-- `Started` and `Version` of the manager. -/
def coreBody (e : AgentEnv) (m : Manager) : AgentBody :=
  .core m.live.core.isSome (if m.live.core.isSome then e.coreVersion else "")

/-- An operation of the manager, and the answer to each outcome. -/
def answered (n : AgentNode) (r : Manager × Option ManagerErr)
    (fail : ManagerErr → AgentResponse) (ok : Manager → AgentResponse) :
    AgentNode × AgentResponse :=
  ({ n with mgr := r.1 }, match r.2 with
    | some err => fail err
    | none => ok r.1)

/-- The release a request asks for; an empty name and `latest` are the
newest one. -/
def release (asked : String) (latest : Except String String) : Except String String :=
  if asked = "" ∨ asked = "latest" then latest else .ok asked

/-- `coreStart` and `coreRestart` are the same. -/
def restarted (e : AgentEnv) (n : AgentNode) : AgentNode × AgentResponse :=
  answered n (n.mgr.restartCore X e.env) (fun err => ⟨400, .failed "" err⟩)
    fun m => ⟨200, coreBody e m⟩

/-- `setXrayVersion`. -/
def setXrayVersion (e : AgentEnv) (n : AgentNode) (body : Option String) :
    AgentNode × AgentResponse :=
  match body with
  | none => (n, .error 400 "invalid json body")
  | some asked =>
    match release asked e.latestXray with
    | .error err => (n, .error 502 ("resolve latest xray: " ++ err))
    | .ok version =>
      if !versionRe version then (n, .error 400 "invalid version")
      else
        match e.download with
        | some err => (n, .error 502 ("download xray: " ++ err))
        | none =>
          let n := { n with xrayBinary := some version }
          -- the binary has been replaced, whatever comes of the restart
          answered n (n.mgr.restartCore X e.env)
            (fun err => ⟨200, .xrayWarning version err⟩)
            fun m => ⟨200, .xray version m.live.core.isSome e.coreVersion⟩

/-- `selfUpdate`. -/
def selfUpdate (e : AgentEnv) (n : AgentNode) (asked : String) : AgentNode × AgentResponse :=
  match release asked e.latestNode with
  | .error err => (n, .error 502 ("resolve latest release: " ++ err))
  | .ok version =>
    if !versionRe version then (n, .error 400 "invalid version")
    else
      match e.executable, e.download with
      | some err, _ => (n, .error 500 ("locate executable: " ++ err))
      | none, some err => (n, .error 502 ("download node binary: " ++ err))
      | none, none => ({ n with nodeBinary := some version }, ⟨200, .updated version⟩)

/-- `createTenant`. -/
def createTenant (e : AgentEnv) (n : AgentNode) (body : Option Registry.CreateParams) :
    AgentNode × AgentResponse :=
  match body with
  | none => (n, .error 400 "invalid json body")
  | some p =>
    if p.id = "" ∨ p.apiKey = "" then (n, .error 400 "id and api_key are required")
    else
      match n.mgr.reg.createTenant (e.env.save p.id) p with
      | (reg, .ok tn) => ({ n with mgr := { n.mgr with reg := reg } }, ⟨201, .tenant (tenantView tn)⟩)
      | (reg, .error err) =>
        ({ n with mgr := { n.mgr with reg := reg } },
          ⟨if err = .alreadyExists ∨ err = .keyConflict then 409 else 500,
            .failed "" (.registry err)⟩)

/-- `setQuota`. -/
def setQuota (e : AgentEnv) (n : AgentNode) (id : String) (body : Option SetQuotaRequest) :
    AgentNode × AgentResponse :=
  match body with
  | none => (n, .error 400 "invalid json body")
  | some q =>
    answered n
      (n.mgr.withReg (n.mgr.reg.setQuota (e.env.save id) id q.quotaBytes q.creditLimitBytes
        q.expireAt))
      writeNotFoundOr500 fun m => ⟨200, .tenant (tenantView (m.reg.get id))⟩

/-- `resetTenant`: a tenant that is not there is found out by the first of
the two calls. -/
def resetTenant (e : AgentEnv) (n : AgentNode) (id : String) : AgentNode × AgentResponse :=
  match n.mgr.withReg (n.mgr.reg.resetPeriod e.resetSaved id) with
  | (m, some err) => ({ n with mgr := m }, writeNotFoundOr500 err)
  | (m, none) =>
    answered n (m.resumeTenant X e.env id) (fun err => ⟨500, .failed "" err⟩)
      fun m => ⟨200, .tenant (tenantView (m.reg.get id))⟩

/-- The handler of a route, for the tenant the middleware has put in the
context. -/
def handler (e : AgentEnv) (n : AgentNode) (tenantID : String) :
    AgentRoute → AgentNode × AgentResponse
  | .handleHealth => (n, ⟨200, coreBody e n.mgr⟩)
  | .applyConfig none => (n, .error 400 "failed to read body")
  | .applyConfig (some body) =>
    if body = "" then (n, .error 400 "config body is empty")
    else
      answered n (n.mgr.applyConfig X e.env body) (fun err => ⟨500, .failed "apply config: " err⟩)
        fun m => ⟨200, coreBody e m⟩
  | .getConfig => (n, ⟨200, .config (if n.mgr.config = "" then "\x7b\x7d" else n.mgr.config)⟩)
  | .getInbounds =>
    (n, match n.mgr.sharableInbounds K with
      | .ok doc => ⟨200, .inbounds doc⟩
      | .error err => ⟨500, .sharable err⟩)
  | .coreStart => restarted X e n
  | .coreStop =>
    let m := n.mgr.stop
    ({ n with mgr := m }, ⟨200, .started m.live.core.isSome⟩)
  | .coreRestart => restarted X e n
  | .setXrayVersion body => setXrayVersion X e n body
  | .selfUpdate asked => selfUpdate e n asked
  | .listTenants =>
    (n, ⟨200, .tenants ((GoMap.range (e.env.order .byID) n.mgr.reg.byID).map fun p =>
      tenantView (some p.2))⟩)
  | .createTenant body => createTenant e n body
  | .deleteTenant id =>
    answered n (n.mgr.deleteTenant X e.env id) writeNotFoundOr500 fun _ => ⟨204, .noContent⟩
  | .setQuota id body => setQuota e n id body
  | .suspendTenant id =>
    answered n (n.mgr.suspendTenant X e.env id .manual) writeNotFoundOr500
      fun m => ⟨200, .tenant (tenantView (m.reg.get id))⟩
  | .resumeTenant id =>
    answered n (n.mgr.resumeTenant X e.env id) writeNotFoundOr500
      fun m => ⟨200, .tenant (tenantView (m.reg.get id))⟩
  | .resetTenant id => resetTenant X e n id
  | .tenantUsage id =>
    (n, match NodeAgent.tenantUsage n.mgr.reg id with
      | .ok view => ⟨200, .usage view⟩
      | .error r => ⟨r.status, .http r.body⟩)
  | .syncUsers body =>
    let r := syncUsers X e.env n.mgr tenantID body
    ({ n with mgr := r.1 }, ⟨r.2.status, .http r.2.body⟩)
  | .myUsage =>
    (n, match NodeAgent.tenantUsage n.mgr.reg tenantID with
      | .ok view => ⟨200, .usage view⟩
      | .error r => ⟨r.status, .http r.body⟩)

/-- **A request**: its route with the header it comes with. -/
def serve (s : AgentServer) (e : AgentEnv) (n : AgentNode) (header : String)
    (route : AgentRoute) : AgentNode × AgentResponse :=
  match route.group with
  | none => handler X K e n "" route
  | some scope =>
    match s.authMiddleware n.mgr.reg e.now header with
    | .error r => (n, ⟨r.status, .http r.body⟩)
    | .ok ctx =>
      match requireScope scope ctx with
      | .error r => (n, ⟨r.status, .http r.body⟩)
      | .ok () => handler X K e n ctx.ctxTenantID route

end AgentServer

end NodeAgent
