import NodeAgent.Shared.Model.Manager
import NodeAgent.Common.Runs
/-!
# What happens on a node

One step of the agent is one operation run to its end under the manager's
lock, in some surroundings: a request of the panel or of a customer, a
turn of the enforcement loop, the health loop starting the core again from
its own configuration, or a user carrying traffic.
-/

namespace NodeAgent

/-- The operations of the agent. -/
inductive Op
  | createTenant (p : Registry.CreateParams)
  | setQuota (id : String) (quotaBytes creditLimitBytes expireAt : Int64)
  /-- `Registry.ResetPeriod` alone. -/
  | resetPeriod (id : String)
  | suspend (id : String) (reason : Reason)
  | resume (id : String)
  /-- The agent's reset: `ResetPeriod`, whose write is `saved`, then
  `ResumeTenant`. -/
  | reset (id : String) (saved : Bool)
  | delete (id : String)
  | setUsers (id : String) (users : List User)
  | addUsers (id : String) (users : List User)
  | applyConfig (configJSON : String)
  | restartCore
  | stop
  /-- `CollectAndEnforce`. -/
  | poll (now : Int64)
  /-- The health loop restarts the process. -/
  | coreRestart
  /-- A user carries traffic. -/
  | traffic (email : String) (up down : ℕ)

namespace Manager

variable (X : Externals)

/-- The registry after an operation of its own. -/
def withReg {α : Type} (m : Manager) (r : Registry × Except RegistryErr α) :
    Manager × Option ManagerErr :=
  ({ m with reg := r.1 }, match r.2 with
    | .ok _ => none
    | .error err => some (.registry err))

/-- The agent's reset handler. -/
def resetTenant (env : Env) (m : Manager) (id : String) (saved : Bool) :
    Manager × Option ManagerErr :=
  match m.withReg (m.reg.resetPeriod saved id) with
  | (m, some err) => (m, some err)
  | (m, none) => m.resumeTenant X env id

/-- Change the core, where there is one. -/
def mapCore (m : Manager) (f : Xray → Xray) : Manager :=
  { m with live := { m.live with core := m.live.core.map f } }

/-- The state an operation leaves, and its error. -/
def exec (m : Manager) (env : Env) : Op → Manager × Option ManagerErr
  | .createTenant p => m.withReg (m.reg.createTenant (env.save p.id) p)
  | .setQuota id q c e => m.withReg (m.reg.setQuota (env.save id) id q c e)
  | .resetPeriod id => m.withReg (m.reg.resetPeriod (env.save id) id)
  | .suspend id reason => m.suspendTenant X env id reason
  | .resume id => m.resumeTenant X env id
  | .reset id saved => m.resetTenant X env id saved
  | .delete id => m.deleteTenant X env id
  | .setUsers id users => m.setTenantUsers X env id users
  | .addUsers id users => m.addTenantUsers X env id users
  | .applyConfig configJSON => m.applyConfig X env configJSON
  | .restartCore => m.restartCore X env
  | .stop => (m.stop, none)
  | .poll now => m.collectAndEnforce X env now
  | .coreRestart => (m.mapCore Xray.restart, none)
  | .traffic email up down =>
    (m.mapCore fun x => { x with process := x.process.carry email up down }, none)

/-- One step. -/
def step (m : Manager) (l : Env × Op) : Manager :=
  (m.exec X l.1 l.2).1

end Manager

/-! ## A small node

The names worked runs are written in: a node whose configurations all
decode to one Trojan inbound, and tenants with a quota of a thousand
bytes. -/

namespace Demo

def inbound : Inbound where
  tag := "in"
  protocol := .trojan
  method := none
  flow := none
  exclude := false
  clients := ∅

/-- Every text is a configuration of that inbound; Xray takes
configurations with distinct tags and no Shadowsocks methods. -/
def externals : Externals where
  uuidParse := fun _ => none
  unmarshal := fun _ => some ⟨[inbound]⟩
  accepts := fun c =>
    decide ((c.inboundConfigs.map Inbound.tag).Nodup) &&
      c.inboundConfigs.all fun i => i.method.isNone
  table := .caseless

def tenant (id : String) : Tenant where
  id := id
  apiKeyHash := id
  status := .active
  reason := .none
  periodID := 1
  quotaBytes := 1000
  usedBytes := 0
  creditLimitBytes := 0
  expireAt := 0

def registry (ids : List String) : Registry :=
  ids.foldl (fun r id => r.put (tenant id)) (Registry.newRegistry .given ∅)

def user (email password : String) : User where
  email := email
  proxies := some ⟨none, none, some ⟨password⟩, none, none⟩
  inbounds := ["in"]

def node (ids : List String) : Manager :=
  ((Manager.new (registry ids) []).applyConfig externals .calm "config").1

def run (ops : List Op) (m : Manager) : Manager :=
  ops.foldl (fun m op => m.step externals (.calm, op)) m

theorem path_run {ok : Manager → Env × Op → Prop} {m₀ m : Manager} {ops : List Op}
    (h : Runs.Path (Manager.step externals) ok m₀ m)
    (hops : ∀ m, ∀ op ∈ ops, ok m (.calm, op)) :
    Runs.Path (Manager.step externals) ok m₀ (run ops m) :=
  List.foldlRecOn ops _ h fun m hm op hop => hm.snoc (.calm, op) (hops m op hop)

end Demo

end NodeAgent
