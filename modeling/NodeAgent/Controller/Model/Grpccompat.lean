import NodeAgent.Tenant.Model.Auth
import NodeAgent.Shared.Model.Manager
/-!
# The gRPC service a panel drives

`controller/grpccompat`: a `NodeService` whose callers are told apart by
their key. Under the core key the node's configuration is pushed and users
are ignored; under a customer's key that tenant's users are set, and the
configuration is ignored. Every other method answers without touching the
manager.
-/

namespace NodeAgent

/-- The status codes the service gives. -/
inductive GrpcCode
  | unauthenticated
  | permissionDenied
  | resourceExhausted
  | invalidArgument
  | internal
  deriving DecidableEq

/-- The errors of the service. -/
inductive GrpcErr
  | status (code : GrpcCode) (message : String)
  /-- `Internal`, "apply users: %v" -/
  | applyUsers (err : ManagerErr)
  /-- `Internal`, "apply config: %v" -/
  | applyConfig (err : ManagerErr)
  /-- The error a stream ended with. -/
  | recv
  deriving DecidableEq

/-- Who calls. -/
inductive CallerInfo
  | core
  | tenant (tenantID : String)
  deriving DecidableEq

/-- The service's own data; the manager is the node's. -/
structure GrpcServer where
  authn : Option Authenticator
  coreKey : String

namespace GrpcServer

/-- Classify a caller by the values of `x-api-key` in the metadata, if
there is any. -/
def resolveCaller (s : GrpcServer) (reg : Registry) (now : Int64)
    (metadata : Option (List String)) : Except GrpcErr CallerInfo :=
  match metadata with
  | none => .error (.status .unauthenticated "missing metadata")
  | some [] => .error (.status .unauthenticated "missing x-api-key")
  | some (key :: _) =>
    if key = "" then .error (.status .unauthenticated "missing x-api-key")
    else if s.coreKey ≠ "" ∧ Authenticator.constantTimeEqual key s.coreKey then .ok .core
    else
      match s.authn with
      | none => .error (.status .permissionDenied "invalid key")
      | some authn =>
        let (scope, decision) := authn.authenticate reg key now
        match scope, decision.allowed, decision.tenant with
        | .tenant, true, some t => .ok (.tenant t.id)
        | _, _, _ =>
          match decision.code with
          | .resourceExhausted => .error (.status .resourceExhausted "quota exhausted")
          | .permissionDenied => .error (.status .permissionDenied "access denied")
          | _ => .error (.status .unauthenticated "invalid key")

end GrpcServer

/-- The backends a panel may ask for. -/
inductive BackendType
  | xray
  | wireguard
  deriving DecidableEq

/-- What a panel starts a node with. -/
structure Backend where
  type : BackendType
  config : String
  users : List User

/-- What a client streams: the messages received, and whether they ended
with `io.EOF` or with another error. -/
structure Stream (α : Type) where
  received : List α
  eof : Bool

/-- The methods of the service. -/
inductive NodeService.Call
  | start (b : Backend)
  | stop
  | getBaseInfo
  | getSystemStats
  | getBackendStats
  | getStats
  | getOutboundsLatency
  | getUserOnlineStats
  | getUserOnlineIpListStats
  | getLogs
  | syncUser (stream : Stream User)
  | syncUsers (users : List User)
  /-- Of a chunk only the users are read. -/
  | syncUsersChunked (stream : Stream (List User))

/-- What the node says of itself. -/
structure BaseInfo where
  started : Bool
  coreVersion : String
  nodeVersion : String

/-- The answers of the service. -/
inductive NodeService.Reply
  | baseInfo (info : BaseInfo)
  | stats (stats : List Stat)
  /-- The figures of the machine, or none. -/
  | systemStats
  | empty

/-- What surrounds a request: the time, what happens during the operation
it causes, and whether the core says it runs and in which version. -/
structure Arrival where
  now : Int64
  env : Env
  coreStarted : Bool
  coreVersion : String

namespace GrpcServer

variable (X : Externals) (arr : Arrival)

def nodeVersion : String := "0.5.2-mt"

def baseInfo (m : Manager) : BaseInfo where
  started := m.live.core.isSome && arr.coreStarted
  coreVersion := if m.live.core.isSome then arr.coreVersion else ""
  nodeVersion := nodeVersion

/-- What an operation on users comes to as an answer. -/
def applied (r : Manager × Option ManagerErr) (reply : Manager → NodeService.Reply) :
    Manager × Except GrpcErr NodeService.Reply :=
  match r with
  | (m, some err) => (m, .error (.applyUsers err))
  | (m, none) => (m, .ok (reply m))

/-- Start: a tenant's users are set, and for the core the configuration
is pushed if there is one. -/
def start (m : Manager) (ci : CallerInfo) (b : Backend) :
    Manager × Except GrpcErr NodeService.Reply :=
  match ci with
  | .tenant tenantID =>
    applied (m.setTenantUsers X arr.env tenantID b.users) fun m => .baseInfo (baseInfo arr m)
  | .core =>
    if b.type ≠ .xray then
      (m, .error (.status .invalidArgument "only xray backend is supported"))
    else if b.config = "" then (m, .ok (.baseInfo (baseInfo arr m)))
    else
      match m.applyConfig X arr.env b.config with
      | (m, some err) => (m, .error (.applyConfig err))
      | (m, none) => (m, .ok (.baseInfo (baseInfo arr m)))

/-- `SyncUsers`: a tenant's set is replaced. -/
def syncUsers (m : Manager) (ci : CallerInfo) (users : List User) :
    Manager × Except GrpcErr NodeService.Reply :=
  match ci with
  | .tenant tenantID => applied (m.setTenantUsers X arr.env tenantID users) fun _ => .empty
  | .core => (m, .ok .empty)

/-- The receiving loop: the users of the messages, one after the other. -/
def collect {α : Type} (usersOf : α → List User) : List α → List User → List User
  | [], users => users
  | message :: rest, users => collect usersOf rest (users ++ usersOf message)

/-- `SyncUser`: users streamed one by one are merged in, if there are
any. -/
def syncUser (m : Manager) (ci : CallerInfo) (stream : Stream User) :
    Manager × Except GrpcErr NodeService.Reply :=
  let users := collect (fun u => [u]) stream.received []
  if !stream.eof then (m, .error .recv)
  else
    match ci with
    | .tenant tenantID =>
      if 0 < users.length then
        applied (m.addTenantUsers X arr.env tenantID users) fun _ => .empty
      else (m, .ok .empty)
    | .core => (m, .ok .empty)

/-- `SyncUsersChunked`: the users of all chunks replace the set. -/
def syncUsersChunked (m : Manager) (ci : CallerInfo) (stream : Stream (List User)) :
    Manager × Except GrpcErr NodeService.Reply :=
  let users := collect id stream.received []
  if !stream.eof then (m, .error .recv)
  else
    match ci with
    | .tenant tenantID => applied (m.setTenantUsers X arr.env tenantID users) fun _ => .empty
    | .core => (m, .ok .empty)

/-- `GetStats`: a tenant's own rows, and none for the core. -/
def getStats (m : Manager) (ci : CallerInfo) : List Stat :=
  match ci with
  | .tenant tenantID => m.getTenantUserStats arr.env tenantID
  | .core => []

/-- A method, once its caller is known. -/
def serve (m : Manager) (ci : CallerInfo) :
    NodeService.Call → Manager × Except GrpcErr NodeService.Reply
  | .start b => start X arr m ci b
  -- a sold node is not stopped over this service
  | .stop => (m, .ok .empty)
  | .getBaseInfo => (m, .ok (.baseInfo (baseInfo arr m)))
  | .getSystemStats => (m, .ok .systemStats)
  | .getStats => (m, .ok (.stats (getStats arr m ci)))
  | .getBackendStats | .getOutboundsLatency | .getUserOnlineStats
  | .getUserOnlineIpListStats | .getLogs => (m, .ok .empty)
  | .syncUser stream => syncUser X arr m ci stream
  | .syncUsers users => syncUsers X arr m ci users
  | .syncUsersChunked stream => syncUsersChunked X arr m ci stream

/-- A request: the interceptor resolves the caller before the method. -/
def handle (s : GrpcServer) (m : Manager) (metadata : Option (List String))
    (call : NodeService.Call) : Manager × Except GrpcErr NodeService.Reply :=
  match s.resolveCaller m.reg arr.now metadata with
  | .error err => (m, .error err)
  | .ok ci => serve X arr m ci call

end GrpcServer

end NodeAgent
