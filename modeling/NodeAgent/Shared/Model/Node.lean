import NodeAgent.Shared.Helpers.Cases
import NodeAgent.Tenant.Counters
/-!
# A node on a store

`cmd/agent`: a manager on a registry, and the registry on a store. What an
operation of the manager does to tenants it does by calls to the registry
(`Manager.calls`), and the store sees those calls only. A node that is
stopped and started again has the registry its store gives it, and a new
manager without users or a core.
-/

namespace NodeAgent

namespace Manager

variable (env : Env)

/-- The calls of the loop of a poll over the tenants with usage. -/
def usageCalls (save : String → Bool) : List (String × Int64) → Registry → List RegistryEvent
  | [], _ => []
  | (tid, d) :: rest, reg =>
    ⟨.addUsage tid d, save, .given⟩ ::
      match reg.addUsage (save tid) tid d with
      | (_, .error _) => []
      | (reg, .ok _) => usageCalls save rest reg

/-- The call of the enforcement of a poll. -/
def enforceCall (now : Int64) : RegistryEvent :=
  ⟨.enforce now, env.enforceSave, env.order .byID⟩

/-- The calls of a poll. -/
def pollCalls (m : Manager) (now : Int64) : List RegistryEvent :=
  match m.live.core with
  | none => []
  | some x =>
    match x.getUsersStats env with
    | none => [enforceCall env now]
    | some stats =>
      usageCalls env.save (GoMap.range (env.order .deltas) (deltasOf env m stats)) m.reg ++
        match (m.account env stats).2 with
        | some _ => []
        | none => [enforceCall env now]

/-- **The calls to the registry an operation makes**, in their order. -/
def calls (m : Manager) : Op → List RegistryEvent
  | .createTenant p => [⟨.createTenant p, env.save, .given⟩]
  | .setQuota id q c e => [⟨.setQuota id q c e, env.save, .given⟩]
  | .resetPeriod id => [⟨.resetPeriod id, env.save, .given⟩]
  | .suspend id reason => [⟨.suspend id reason, env.save, .given⟩]
  | .resume id => [⟨.resume id, env.save, .given⟩]
  | .reset id saved =>
    ⟨.resetPeriod id, fun _ => saved, .given⟩ ::
      match (m.reg.resetPeriod saved id).2 with
      | .error _ => []
      | .ok _ => [⟨.resume id, env.save, .given⟩]
  | .delete id => [⟨.delete id, env.save, .given⟩]
  | .poll now => m.pollCalls env now
  | _ => []

variable {env} {X : Externals}

theorem foldl_usageCalls (save : String → Bool) (l : List (String × Int64)) (reg : Registry) :
    (usageCalls save l reg).foldl (fun r e => (r.exec e).1) reg = (addUsages save l reg).1 := by
  induction l generalizing reg with
  | nil => rfl
  | cons p l ih =>
    obtain ⟨tid, d⟩ := p
    have hcall : (reg.exec ⟨.addUsage tid d, save, .given⟩).1 =
        (reg.addUsage (save tid) tid d).1 := rfl
    rw [usageCalls, addUsages, List.foldl_cons, hcall]
    cases hres : reg.addUsage (save tid) tid d with
    | mk reg' res =>
      cases res with
      | error err => rfl
      | ok t => exact ih reg'

theorem foldl_pollCalls (m : Manager) (now : Int64) :
    (m.pollCalls env now).foldl (fun r e => (r.exec e).1) m.reg =
      (m.collectAndEnforce X env now).1.reg := by
  have henforce : ∀ m' : Manager, (m'.enforce X env now).reg =
      (m'.reg.exec (enforceCall env now)).1 := fun m' => by
    rw [enforce_eq]
    rfl
  unfold pollCalls collectAndEnforce
  cases m.live.core with
  | none => rfl
  | some x =>
    dsimp only
    cases x.getUsersStats env with
    | none => exact (henforce m).symm
    | some stats =>
      have haccount : (m.account env stats).1.reg =
          (usageCalls env.save (GoMap.range (env.order .deltas) (deltasOf env m stats))
            m.reg).foldl (fun r e => (r.exec e).1) m.reg := by
        rw [foldl_usageCalls, account_eq]
      dsimp only
      rw [List.foldl_append, ← haccount]
      cases m.account env stats with
      | mk m' err =>
        cases err with
        | some err => rfl
        | none => exact (henforce m').symm

theorem reg_resumeTenant (m : Manager) (id : String) :
    (m.resumeTenant X env id).1.reg = (m.reg.resume (env.save id) id).1 := by
  rcases resumeTenant_cases X env m id with ⟨⟨err, h⟩, -⟩ | ⟨done, rest, err, -, -, -, h⟩
  · rw [h]
  · rw [h]

/-- **The registry of an operation is that of its calls.** -/
theorem reg_exec (m : Manager) (op : Op) :
    (m.exec X env op).1.reg = (m.calls env op).foldl (fun r e => (r.exec e).1) m.reg := by
  cases op with
  | createTenant p => rfl
  | setQuota id q c e => rfl
  | resetPeriod id => rfl
  | suspend id reason =>
    rcases suspendTenant_cases X env m id reason with ⟨⟨err, h⟩, -⟩ | h
    · rw [exec, h]
      rfl
    · rw [exec, h]
      rfl
  | resume id => exact reg_resumeTenant m id
  | reset id saved =>
    show (m.resetTenant X env id saved).1.reg = _
    unfold resetTenant withReg
    cases hres : (m.reg.resetPeriod saved id).2 with
    | error err =>
      simp only [calls, hres]
      rfl
    | ok t =>
      simp only [calls, hres]
      exact reg_resumeTenant _ id
  | delete id =>
    show (m.deleteTenant X env id).1.reg = (m.reg.delete (env.save id) id).1
    unfold deleteTenant
    simp only [removeTenantFromCore]
    split
    · rename_i r err heq
      rw [heq]
    · rename_i r heq
      rw [heq, forget_eq]
  | setUsers id us =>
    show (m.setTenantUsers X env id us).1.reg = m.reg
    rcases setTenantUsers_cases X env m id us with
      ⟨err, h⟩ | ⟨tn, gone, done, rest, -, ⟨err, h, -⟩ | ⟨-, h⟩⟩
    · rw [h]
    · rw [h]
      rfl
    · rw [h]
      rfl
  | addUsers id us =>
    show (m.addTenantUsers X env id us).1.reg = m.reg
    rcases addTenantUsers_cases X env m id us with ⟨err, h⟩ | ⟨tn, -, h⟩
    · rw [h]
    · rw [h]
      exact mergeUsers_rule (I := fun m' => m'.reg = m.reg) (fun _ _ _ hm _ => hm) rfl
  | applyConfig c => exact (applyConfig_frame X env m c).2
  | restartCore =>
    show (m.restartCore X env).1.reg = m.reg
    unfold restartCore
    split
    · rfl
    · exact (applyConfig_frame X env m m.config).2
  | stop => rfl
  | poll now => exact (foldl_pollCalls m now).symm
  | coreRestart => rfl
  | traffic e up down => rfl

end Manager

/-- **A node**: the manager, what its store holds, and how the latest
write of each tenant's record went. -/
structure Node (σ : Type) where
  m : Manager
  disk : σ
  written : String → Bool

/-- What happens to a node. -/
inductive NodeEvent
  /-- An operation of the manager or the agent. -/
  | op (env : Env) (op : Op)
  /-- A call to the registry itself. -/
  | call (e : RegistryEvent)
  /-- The process stopped, and started again with a configuration of
  forced inbounds. -/
  | restart (o : Order String) (forceInbounds : List String)

/-- A registration, by whichever way. -/
def NodeEvent.Creates (p : Registry.CreateParams) : NodeEvent → Prop
  | .op _ (.createTenant p') => p' = p
  | .call e => e.call = .createTenant p
  | _ => False

namespace Node

variable {σ : Type}

/-- Its registry, with the store. -/
def journal (n : Node σ) : Journal σ :=
  ⟨⟨n.m.reg, n.disk⟩, n.written⟩

variable (X : Externals) (S : RecordStore String Tenant σ)

/-- A node on a new store. -/
def start (forceInbounds : List String) : Node σ where
  m := Manager.new (Journal.start S).reg forceInbounds
  disk := (Journal.start S).disk
  written := (Journal.start S).written

/-- The journal after the calls. -/
def after (n : Node σ) (es : List RegistryEvent) : Journal σ :=
  es.foldl (fun s e => s.step S (.call e)) n.journal

/-- One step; where the store cannot be loaded the node does not come
back. -/
def step (n : Node σ) : NodeEvent → Node σ
  | .op env op =>
    let s := n.after S (n.m.calls env op)
    ⟨(n.m.exec X env op).1, s.disk, s.written⟩
  | .call e =>
    let s := n.after S [e]
    ⟨{ n.m with reg := s.reg }, s.disk, s.written⟩
  | .restart o forceInbounds =>
    match Registry.openStore S o n.disk with
    | none => n
    | some reg => { n with m := Manager.new reg forceInbounds }

/-- What a step is to the registry and its store. -/
def lives (n : Node σ) : NodeEvent → List Backed.Life
  | .op env op => (n.m.calls env op).map .call
  | .call e => [.call e]
  | .restart o _ => [.restart o]

variable {X S}

theorem reg_after (n : Node σ) (es : List RegistryEvent) :
    (n.after S es).reg = es.foldl (fun r e => (r.exec e).1) n.m.reg := by
  unfold after
  generalize hs : n.journal = s
  have hreg : n.m.reg = s.reg := by rw [← hs]; rfl
  rw [hreg]
  clear hs hreg
  induction es generalizing s with
  | nil => rfl
  | cons e es ih => exact ih (s.step S (.call e))

/-- **A step of the node is steps of its journal.** -/
theorem journal_step (n : Node σ) (l : NodeEvent) :
    (n.step X S l).journal = (n.lives l).foldl (Journal.step S) n.journal := by
  cases l with
  | op env op =>
    have hreg : (n.m.exec X env op).1.reg = (n.after S (n.m.calls env op)).reg := by
      rw [Manager.reg_exec, reg_after]
    show (⟨⟨(n.m.exec X env op).1.reg, _⟩, _⟩ : Journal σ) = _
    rw [hreg, lives, List.foldl_map]
    rfl
  | call e => rfl
  | restart o forceInbounds =>
    show _ = n.journal.step S (.restart o)
    unfold step Journal.step Backed.step
    have hdisk : n.journal.disk = n.disk := rfl
    simp only [hdisk]
    cases Registry.openStore S o n.disk with
    | none => rfl
    | some reg => rfl

/-- **The step leaves the tenant to be billed**, in all it is to the
registry and its store. -/
def Billable (S : RecordStore String Tenant σ) (id : String) (n : Node σ) (l : NodeEvent) : Prop :=
  Runs.Allowed (Journal.step S) (Journal.Billable id) (n.lives l) n.journal

instance (S : RecordStore String Tenant σ) (id : String) (n : Node σ) (l : NodeEvent) :
    Decidable (n.Billable S id l) :=
  inferInstanceAs (Decidable (Runs.Allowed _ _ _ _))

end Node

end NodeAgent
