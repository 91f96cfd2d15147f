import NodeAgent.Common.Runs
import NodeAgent.Tenant.Model.Auth
import NodeAgent.Tenant.Model.Store
import NodeAgent.Tenant.Helpers.Registry
/-!
# Calls to the registry

One step of the registry is one of its operations, run to its end under
the registry's lock, together with what the surroundings decide: which
writes go through and the order `Enforce` scans the tenants in. `Logged`
is a registry with the history of its calls; `Backed` is a registry with a
store of its own kind behind it, which can also be stopped and started
again from that store.
-/

namespace NodeAgent

/-- A call to the registry. -/
inductive Call
  | createTenant (p : Registry.CreateParams)
  | get (id : String)
  | addUsage (id : String) (delta : Int64)
  | setQuota (id : String) (quotaBytes creditLimitBytes expireAt : Int64)
  | suspend (id : String) (reason : Reason)
  | resume (id : String)
  | resetPeriod (id : String)
  | delete (id : String)
  | enforce (now : Int64)

/-- The tenant an operation on one tenant is about, and what it makes of
it. -/
def Call.update : Call → Option (String × (Tenant → Tenant))
  | .addUsage id delta => some (id, Tenant.bill delta)
  | .setQuota id q c x => some (id, Tenant.requota q c x)
  | .suspend id reason => some (id, Tenant.suspendedFor reason)
  | .resume id => some (id, Tenant.resumed)
  | .resetPeriod id => some (id, Tenant.renewed)
  | _ => none

/-- What a call returns. -/
inductive Reply
  /-- A copy of the tenant, or an error. -/
  | tenant (res : Except RegistryErr Tenant)
  | found (t : Option Tenant)
  | deleted (err : Option RegistryErr)
  | changes (cs : List Change)

/-- A call in its surroundings. -/
structure RegistryEvent where
  call : Call
  /-- Whether a write of the tenant goes through. -/
  saved : String → Bool
  /-- The order of the scan of `Enforce`. -/
  order : Order String

/-- **Every write of the call goes through.** -/
def RegistryEvent.AllSaved (e : RegistryEvent) : Prop :=
  ∀ id, e.saved id = true

namespace Registry

/-- The result of an operation on one tenant, as a reply. -/
def answer (res : Registry × Except RegistryErr Tenant) : Registry × Reply :=
  (res.1, .tenant res.2)

/-- The registry a call leaves, and its reply. -/
def exec (r : Registry) (e : RegistryEvent) : Registry × Reply :=
  match e.call with
  | .createTenant p => answer (r.createTenant (e.saved p.id) p)
  | .get id => (r, .found (r.get id))
  | .addUsage id delta => answer (r.addUsage (e.saved id) id delta)
  | .setQuota id q c x => answer (r.setQuota (e.saved id) id q c x)
  | .suspend id reason => answer (r.suspend (e.saved id) id reason)
  | .resume id => answer (r.resume (e.saved id) id)
  | .resetPeriod id => answer (r.resetPeriod (e.saved id) id)
  | .delete id => ((r.delete (e.saved id) id).1, .deleted (r.delete (e.saved id) id).2)
  | .enforce now => ((r.enforce e.order e.saved now).1, .changes (r.enforce e.order e.saved now).2)

end Registry

/-! ## The history of a registry -/

/-- A registry and the calls made to it so far, each with its reply. -/
structure Logged where
  reg : Registry
  log : List (Call × Reply)

namespace Logged

/-- A registry on an empty store. -/
def start : Logged where
  reg := Registry.newRegistry .given ∅
  log := []

/-- One call more. -/
def step (s : Logged) (e : RegistryEvent) : Logged where
  reg := (s.reg.exec e).1
  log := s.log ++ [(e.call, (s.reg.exec e).2)]

/-- The state after a sequence of calls. -/
def run (es : List RegistryEvent) : Logged :=
  es.foldl step start

/-- The keys that tenants were created, or refused, with. -/
def keysUsed (s : Logged) : List String :=
  s.log.filterMap fun entry =>
    match entry.1 with
    | .createTenant p => some p.apiKey
    | _ => none

/-- A successful `CreateTenant{ID: id, APIKey: key}`. -/
def Creates (id key : String) : Call × Reply → Prop
  | (.createTenant p, .tenant (.ok _)) => p.id = id ∧ p.apiKey = key
  | _ => False

/-- A successful `Delete(id)`. -/
def Deletes (id : String) : Call × Reply → Prop
  | (.delete id', .deleted none) => id' = id
  | _ => False

/-- **The tenant was created with the key, and not deleted since.** -/
def Holds (log : List (Call × Reply)) (id key : String) : Prop :=
  History.Since (Creates id key) (Deletes id) log

end Logged

/-- The decision is about a tenant of that id, whose key is known. -/
def Decision.ResolvesTo (d : Decision) (id : String) : Prop :=
  d.code ≠ .unauthenticated ∧ d.tenant.map Tenant.id = some id

/-! ## The writes of a registry -/

namespace Registry

/-- The write of an operation on one tenant. -/
def modifyWrites (r : Registry) (saved : Bool) (id : String) (f : Tenant → Tenant) :
    List (Write String Tenant) :=
  match r.get id with
  | none => []
  | some t => if saved then [.save (f t)] else []

/-- The writes of a call that go through, in their order. -/
def writes (r : Registry) (e : RegistryEvent) : List (Write String Tenant) :=
  match e.call with
  | .createTenant p =>
    if (r.get p.id).isSome ∨ (r.byKey.lookup (hashKey p.apiKey)).isSome then []
    else if e.saved p.id then [.save p.tenant] else []
  | .get _ => []
  | .delete id =>
    if (r.get id).isSome then if e.saved id then [.delete id] else [] else []
  | .enforce now =>
    ((r.enforce e.order e.saved now).2.filter fun c => e.saved c.tenant.id).map
      fun c => .save c.tenant
  | call =>
    match call.update with
    | none => []
    | some (id, f) => r.modifyWrites (e.saved id) id f

end Registry

/-! ## A registry on a store -/

/-- A registry and what its store holds. -/
structure Backed (σ : Type) where
  reg : Registry
  disk : σ

namespace Backed

/-- A call, or the process stopped and started again. -/
inductive Life
  | call (e : RegistryEvent)
  /-- `NewRegistry` on what the store holds, loaded in some order. -/
  | restart (o : Order String)

/-- **Every write goes through.** -/
def Life.AllSaved : Life → Prop
  | .call e => e.AllSaved
  | .restart _ => True

variable {σ : Type} (S : RecordStore String Tenant σ)

/-- A new store, and the registry on it. -/
def start : Backed σ where
  reg := Registry.newRegistry .given ∅
  disk := S.empty

/-- One call, with its writes, or one restart; where loading fails there
is no new registry. -/
def step (s : Backed σ) : Life → Backed σ
  | .call e => ⟨(s.reg.exec e).1, (s.reg.writes e).foldl S.apply s.disk⟩
  | .restart o => { s with reg := (Registry.openStore S o s.disk).getD s.reg }

end Backed

end NodeAgent
