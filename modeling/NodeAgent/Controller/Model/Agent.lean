import NodeAgent.Tenant.Model.Auth
import NodeAgent.Shared.Model.Manager
/-!
# A customer's request over HTTP

`controller/agent`: the middleware that resolves the `X-API-Key` header to
a scope and asks for the tenant's, and the handler of `PUT /tenant/users`
behind it. What decoding a body as JSON gives is `encoding/json`'s
business: a body is the users it names, or `none` if it does not decode.
-/

namespace NodeAgent

/-- The credentials a customer may set for a user. -/
structure ProxyInput where
  vlessID : String
  vlessFlow : String
  vmessID : String
  trojanPass : String
  ssPassword : String
  ssMethod : String
  hysteriaAuth : String

structure UserInput where
  email : String
  inbounds : List String
  proxy : ProxyInput

/-- The user a customer names; a credential left empty is no settings at
all. -/
def toCommonUser (u : UserInput) : User where
  email := u.email
  proxies := some
    { vless := if u.proxy.vlessID ≠ "" then some ⟨u.proxy.vlessID, u.proxy.vlessFlow⟩ else none
      vmess := if u.proxy.vmessID ≠ "" then some ⟨u.proxy.vmessID⟩ else none
      trojan := if u.proxy.trojanPass ≠ "" then some ⟨u.proxy.trojanPass⟩ else none
      shadowsocks :=
        if u.proxy.ssPassword ≠ "" then some ⟨u.proxy.ssPassword, u.proxy.ssMethod⟩ else none
      hysteria := if u.proxy.hysteriaAuth ≠ "" then some ⟨u.proxy.hysteriaAuth⟩ else none }
  inbounds := u.inbounds

/-- The bodies of the answers. -/
inductive HttpBody
  /-- `{"error": msg}` -/
  | error (msg : String)
  /-- `{"error": msg, "reason": reason}` -/
  | denied (msg : String) (reason : Reason)
  /-- `{"error": err.Error()}` -/
  | failed (err : ManagerErr)
  /-- `{"synced": n}` -/
  | synced (n : ℕ)
  /-- What `Recoverer` writes. -/
  | empty
  deriving DecidableEq

structure HttpResponse where
  status : ℕ
  body : HttpBody
  deriving DecidableEq

/-- The answer to a refused key. -/
def writeDecision (d : Decision) : HttpResponse :=
  match d.code with
  | .unauthenticated => ⟨401, .error "invalid api key"⟩
  | .resourceExhausted => ⟨402, .denied "quota exhausted" d.reason⟩
  | .permissionDenied => ⟨403, .denied "access denied" d.reason⟩
  | .ok => ⟨403, .error "access denied"⟩

/-- What the middleware puts in a request's context. -/
structure HttpContext where
  ctxScope : Scope
  ctxTenantID : String

/-- The server's own data; the registry and the manager are the node's. -/
structure AgentServer where
  authn : Authenticator

namespace AgentServer

/-- Resolve the header to a scope and, for a tenant's, to the tenant. -/
def authMiddleware (s : AgentServer) (reg : Registry) (now : Int64) (key : String) :
    Except HttpResponse HttpContext :=
  if key = "" then .error ⟨401, .error "missing X-API-Key header"⟩
  else
    let (scope, decision) := s.authn.authenticate reg key now
    if scope = .tenant then
      if !decision.allowed then .error (writeDecision decision)
      else
        match decision.tenant with
        | some t => .ok ⟨scope, t.id⟩
        -- a nil tenant would be dereferenced here
        | none => .error ⟨500, .empty⟩
    else .ok ⟨scope, ""⟩

/-- Reject the other scopes. -/
def requireScope (want : Scope) (ctx : HttpContext) : Except HttpResponse Unit :=
  if ctx.ctxScope ≠ want then .error ⟨403, .error "insufficient scope"⟩ else .ok ()

/-- The loop of `syncUsers` over the users of a request; one without an
email ends it. -/
def commonUsers : List UserInput → Option (List User)
  | [] => some []
  | u :: rest => if u.email = "" then none else (commonUsers rest).map (toCommonUser u :: ·)

variable (X : Externals) (env : Env)

/-- Replace the user set of the tenant of the request. -/
def syncUsers (m : Manager) (tenantID : String) (body : Option (List UserInput)) :
    Manager × HttpResponse :=
  match body with
  | none => (m, ⟨400, .error "invalid json body"⟩)
  | some inputs =>
    match commonUsers inputs with
    | none => (m, ⟨400, .error "each user requires an email"⟩)
    | some users =>
      match m.setTenantUsers X env tenantID users with
      | (m, some err) => (m, ⟨500, .failed err⟩)
      | (m, none) => (m, ⟨200, .synced users.length⟩)

/-- `PUT /tenant/users`. -/
def putTenantUsers (s : AgentServer) (m : Manager) (now : Int64) (key : String)
    (body : Option (List UserInput)) : Manager × HttpResponse :=
  match s.authMiddleware m.reg now key with
  | .error response => (m, response)
  | .ok ctx =>
    match requireScope .tenant ctx with
    | .error response => (m, response)
    | .ok () => syncUsers X env m ctx.ctxTenantID body

end AgentServer

end NodeAgent
