import NodeAgent.Controller.Frame
import NodeAgent.Controller.Model.Router
/-!
# Who may do what to a node

A request to either server is one operation of the manager or none: under
the master key the one its route stands for, under the core key a push of
a configuration, and under a tenant's key a change to that tenant's users.
So a run of requests, polls and restarts is a run of operations, each of
them granted by a key that was shown. From this follows what nobody can
do without the two keys of the operator, over any run: change who the
tenants are and their terms, reactivate one, or touch the configuration
or the binaries.
-/

namespace NodeAgent

variable {s : AgentServer} {e : AgentEnv} {n : AgentNode}
variable {header : String} {route : AgentRoute} {reg : Registry} {m m' : Manager}

/-! ## Who is let in -/

/-- **The master key.** -/
def Authenticator.IsMaster (a : Authenticator) (header : String) : Prop :=
  a.masterHash ≠ "" ∧ hashKey header = a.masterHash

theorem Authenticator.authenticate_eq (a : Authenticator) (reg : Registry) (header : String)
    (now : Int64) :
    a.IsMaster header ∧ a.authenticate reg header now = (.master, ⟨true, .ok, .none, none⟩) ∨
      ¬ a.IsMaster header ∧
        a.authenticate reg header now = (.tenant, reg.authorize header now) := by
  unfold authenticate constantTimeEqual
  simp only [decide_eq_true_eq]
  split_ifs with h
  · exact Or.inl ⟨h, rfl⟩
  · exact Or.inr ⟨h, rfl⟩

namespace AgentServer

/-- **The ways the middleware ends.** -/
theorem authMiddleware_cases (s : AgentServer) (reg : Registry) (now : Int64) (header : String) :
    (∃ r, s.authMiddleware reg now header = .error r) ∨
      s.authn.IsMaster header ∧ s.authMiddleware reg now header = .ok ⟨.master, ""⟩ ∨
      ∃ t, reg.resolve header = some t ∧ (t.decision now).allowed = true ∧
        s.authMiddleware reg now header = .ok ⟨.tenant, t.id⟩ := by
  unfold authMiddleware
  by_cases hempty : header = ""
  · exact Or.inl ⟨_, if_pos hempty⟩
  · rw [if_neg hempty]
    rcases s.authn.authenticate_eq reg header now with ⟨hmaster, hauth⟩ | ⟨-, hauth⟩
    · rw [hauth]
      exact Or.inr (Or.inl ⟨hmaster, rfl⟩)
    · rw [hauth]
      simp only [if_true]
      by_cases hallowed : (reg.authorize header now).allowed = true
      · obtain ⟨t, hres, htn⟩ := Authenticator.resolve_of_allowed hauth hallowed
        rw [Registry.authorize_of_resolve hres] at hallowed htn ⊢
        simp only [hallowed, Bool.not_true, Bool.false_eq_true, if_false, htn]
        exact Or.inr (Or.inr ⟨t, hres, hallowed, rfl⟩)
      · rw [if_pos (by simpa using hallowed)]
        exact Or.inl ⟨_, rfl⟩

variable (X : Externals) (K : DocExternals)

/-- **The ways a request ends**: it is refused or needs no key, or it is
let in to the handler of its route. -/
theorem serve_cases (s : AgentServer) (e : AgentEnv) (n : AgentNode) (header : String)
    (route : AgentRoute) :
    (s.serve X K e n header route).1 = n ∨
      route.group = some .master ∧ s.authn.IsMaster header ∧
        s.serve X K e n header route = handler X K e n "" route ∨
      route.group = some .tenant ∧ ∃ t, n.mgr.reg.resolve header = some t ∧
        (t.decision e.now).allowed = true ∧
        s.serve X K e n header route = handler X K e n t.id route := by
  unfold serve
  cases hgroup : route.group with
  | none =>
    cases route with
    | handleHealth => exact Or.inl rfl
    | _ => cases hgroup
  | some want =>
    have hwant : want = .master ∨ want = .tenant := by
      cases route <;> simp_all [AgentRoute.group]
    rcases s.authMiddleware_cases n.mgr.reg e.now header with
      ⟨r, hauth⟩ | ⟨hmaster, hauth⟩ | ⟨t, hres, hallowed, hauth⟩
    · rw [hauth]
      exact Or.inl rfl
    · rw [hauth]
      rcases hwant with rfl | rfl
      · exact Or.inr (Or.inl ⟨rfl, hmaster, rfl⟩)
      · exact Or.inl rfl
    · rw [hauth]
      rcases hwant with rfl | rfl
      · exact Or.inl rfl
      · exact Or.inr (Or.inr ⟨rfl, t, hres, hallowed, rfl⟩)

end AgentServer

/-! ## What a request is to the manager -/

/-- **The operation a route stands for**, with the tenant in the
context. -/
def AgentRoute.op (e : AgentEnv) (tenantID : String) : AgentRoute → Option Op
  | .applyConfig body => body.map .applyConfig
  | .coreStart | .coreRestart | .setXrayVersion _ => some .restartCore
  | .coreStop => some .stop
  | .createTenant body => body.map .createTenant
  | .deleteTenant id => some (.delete id)
  | .setQuota id body => body.map fun q => .setQuota id q.quotaBytes q.creditLimitBytes q.expireAt
  | .suspendTenant id => some (.suspend id .manual)
  | .resumeTenant id => some (.resume id)
  | .resetTenant id => some (.reset id e.resetSaved)
  | .syncUsers body => (body.bind AgentServer.commonUsers).map (.setUsers tenantID)
  | _ => none

/-- **The operation a call stands for**, by its caller. -/
def NodeService.Call.op : CallerInfo → NodeService.Call → Option Op
  | .core, .start b => some (.applyConfig b.config)
  | .tenant T, .start b => some (.setUsers T b.users)
  | .tenant T, .syncUsers users => some (.setUsers T users)
  | .tenant T, .syncUser stream =>
    some (.addUsers T (GrpcServer.collect (fun u => [u]) stream.received []))
  | .tenant T, .syncUsersChunked stream =>
    some (.setUsers T (GrpcServer.collect id stream.received []))
  | _, _ => none

/-- **The manager after an operation, or without it.** -/
def Manager.MayDo (X : Externals) (env : Env) (op : Option Op) (m m' : Manager) : Prop :=
  m' = m ∨ ∃ o, op = some o ∧ m' = m.step X (env, o)

namespace AgentServer

@[simp] theorem answered_fst (n : AgentNode) (r : Manager × Option ManagerErr)
    (fail : ManagerErr → AgentResponse) (ok : Manager → AgentResponse) :
    (answered n r fail ok).1 = { n with mgr := r.1 } := rfl

variable (X : Externals) (K : DocExternals)

theorem createTenant_mgr (e : AgentEnv) (n : AgentNode) (body : Option Registry.CreateParams) :
    n.mgr.MayDo X e.env (body.map .createTenant) (createTenant e n body).1.mgr := by
  cases body with
  | none => exact Or.inl rfl
  | some p =>
    unfold createTenant
    simp only
    split_ifs
    · exact Or.inl rfl
    · refine Or.inr ⟨_, rfl, ?_⟩
      split
      · next heq => simp only [Manager.step, Manager.exec, Manager.withReg, heq]
      · next heq => simp only [Manager.step, Manager.exec, Manager.withReg, heq]

theorem resetTenant_mgr (e : AgentEnv) (n : AgentNode) (id : String) :
    (resetTenant X e n id).1.mgr = n.mgr.step X (e.env, .reset id e.resetSaved) := by
  unfold resetTenant Manager.step Manager.exec Manager.resetTenant
  split
  · next heq => simp only [heq]
  · next heq => simp only [heq, answered_fst]

theorem setXrayVersion_mgr (e : AgentEnv) (n : AgentNode) (body : Option String) :
    n.mgr.MayDo X e.env (some .restartCore) (setXrayVersion X e n body).1.mgr := by
  cases body with
  | none => exact Or.inl rfl
  | some asked =>
    unfold setXrayVersion
    simp only
    cases release asked e.latestXray with
    | error err => exact Or.inl rfl
    | ok version =>
      simp only
      split_ifs
      · exact Or.inl rfl
      · cases e.download with
        | some err => exact Or.inl rfl
        | none => exact Or.inr ⟨_, rfl, rfl⟩

theorem selfUpdate_mgr (e : AgentEnv) (n : AgentNode) (asked : String) :
    (selfUpdate e n asked).1.mgr = n.mgr := by
  unfold selfUpdate
  cases release asked e.latestNode with
  | error err => rfl
  | ok version =>
    simp only
    split_ifs
    · rfl
    · split <;> rfl

theorem syncUsers_mgr (env : Env) (m : Manager) (T : String) (body : Option (List UserInput)) :
    m.MayDo X env ((body.bind commonUsers).map (.setUsers T)) (syncUsers X env m T body).1 := by
  unfold syncUsers
  cases body with
  | none => exact Or.inl rfl
  | some inputs =>
    simp only [Option.bind_some]
    cases commonUsers inputs with
    | none => exact Or.inl rfl
    | some users =>
      refine Or.inr ⟨_, rfl, ?_⟩
      simp only [Manager.step, Manager.exec]
      split
      · next heq => rw [heq]
      · next heq => rw [heq]

/-- **A handler does the operation of its route**, or none. -/
theorem handler_mgr (e : AgentEnv) (n : AgentNode) (T : String) (route : AgentRoute) :
    n.mgr.MayDo X e.env (route.op e T) (handler X K e n T route).1.mgr := by
  cases route with
  | handleHealth | getConfig | getInbounds | listTenants | tenantUsage id | myUsage =>
    exact Or.inl rfl
  | coreStart | coreRestart | coreStop | deleteTenant id | suspendTenant id | resumeTenant id =>
    exact Or.inr ⟨_, rfl, rfl⟩
  | applyConfig body =>
    cases body with
    | none => exact Or.inl rfl
    | some body =>
      simp only [handler]
      split_ifs
      · exact Or.inl rfl
      · exact Or.inr ⟨_, rfl, rfl⟩
  | setQuota id body =>
    cases body with
    | none => exact Or.inl rfl
    | some q => exact Or.inr ⟨_, rfl, rfl⟩
  | resetTenant id => exact Or.inr ⟨_, rfl, resetTenant_mgr X e n id⟩
  | createTenant body => exact createTenant_mgr X e n body
  | setXrayVersion body => exact setXrayVersion_mgr X e n body
  | selfUpdate asked => exact Or.inl (selfUpdate_mgr e n asked)
  | syncUsers body => exact syncUsers_mgr X e.env n.mgr T body

theorem handler_node (hgroup : route.group ≠ some .master) (e : AgentEnv) (n : AgentNode)
    (T : String) :
    (handler X K e n T route).1 = { n with mgr := (handler X K e n T route).1.mgr } := by
  cases route with
  | handleHealth | syncUsers body | myUsage => rfl
  | _ => exact absurd rfl hgroup

end AgentServer

namespace GrpcServer

variable (X : Externals) (arr : Arrival)

/-- **A call does the operation it stands for**, or none. -/
theorem serve_mgr (m : Manager) (ci : CallerInfo) (call : NodeService.Call) :
    m.MayDo X arr.env (call.op ci) (serve X arr m ci call).1 := by
  cases ci with
  | core =>
    cases call with
    | start b =>
      simp only [serve, start]
      split_ifs
      · exact Or.inl rfl
      · exact Or.inl rfl
      · refine Or.inr ⟨_, rfl, ?_⟩
        simp only [Manager.step, Manager.exec]
        split
        · next heq => rw [heq]
        · next heq => rw [heq]
    | syncUser stream | syncUsersChunked stream =>
      simp only [serve, syncUser, syncUsersChunked]
      split_ifs <;> exact Or.inl rfl
    | _ => exact Or.inl rfl
  | tenant T =>
    cases call with
    | start b | syncUsers users => exact Or.inr ⟨_, rfl, applied_fst _ _⟩
    | syncUser stream =>
      simp only [serve, syncUser]
      split_ifs
      · exact Or.inl rfl
      · exact Or.inr ⟨_, rfl, applied_fst _ _⟩
      · exact Or.inl rfl
    | syncUsersChunked stream =>
      simp only [serve, syncUsersChunked]
      split_ifs
      · exact Or.inl rfl
      · exact Or.inr ⟨_, rfl, applied_fst _ _⟩
    | _ => exact Or.inl rfl

theorem allowed_of_caller (s : GrpcServer) {now : Int64} {metadata : Option (List String)}
    {T key : String} {t : Tenant} (hci : s.resolveCaller reg now metadata = .ok (.tenant T))
    (hkey : metadata.bind List.head? = some key) (hres : reg.resolve key = some t) :
    (t.decision now).allowed = true := by
  rcases metadata with _ | _ | ⟨key', rest⟩
  · cases hkey
  · cases hkey
  · obtain rfl : key' = key := Option.some.inj hkey
    simp only [resolveCaller] at hci
    split_ifs at hci
    · cases hci
    · rcases hauthn : s.authn with _ | authn
      · rw [hauthn] at hci
        cases hci
      · simp only [hauthn] at hci
        rcases authn.authenticate_eq reg key' now with ⟨-, hauth⟩ | ⟨-, hauth⟩
        · rw [hauth] at hci
          cases hci
        · rw [hauth, Registry.authorize_of_resolve hres] at hci
          by_contra hno
          rw [Bool.not_eq_true] at hno
          simp only [hno] at hci
          split at hci <;> cases hci

end GrpcServer

/-! ## What happens on a node -/

/-- Requests to either server, and what the node's own loops and its users
do. -/
inductive AgentEvent
  | request (e : AgentEnv) (header : String) (route : AgentRoute)
  | rpc (arr : Arrival) (metadata : Option (List String)) (call : NodeService.Call)
  /-- A turn of `RunEnforcement`. -/
  | poll (env : Env) (now : Int64)
  /-- The health loop restarts the process. -/
  | coreRestart
  | traffic (email : String) (up down : ℕ)

/-- One step of the node. -/
def AgentNode.step (c : Controllers) (X : Externals) (K : DocExternals) (n : AgentNode) :
    AgentEvent → AgentNode
  | .request e header route => (c.agent.serve X K e n header route).1
  | .rpc arr metadata call => { n with mgr := (c.grpc.handle X arr n.mgr metadata call).1 }
  | .poll env now => { n with mgr := n.mgr.step X (env, .poll now) }
  | .coreRestart => { n with mgr := n.mgr.step X (.calm, .coreRestart) }
  | .traffic email up down => { n with mgr := n.mgr.step X (.calm, .traffic email up down) }

/-- **What an event may do**, on a node with this registry: the loops what
is theirs, the master key the operation of one of the operator's routes,
the key of a tenant that is let in that of one of the tenants' routes, and
over the panel's service the core key and such a key the operation of the
call. -/
inductive Granted (c : Controllers) (reg : Registry) : AgentEvent → Env × Op → Prop
  | poll (env : Env) (now : Int64) : Granted c reg (.poll env now) (env, .poll now)
  | coreRestart : Granted c reg .coreRestart (.calm, .coreRestart)
  | traffic (email : String) (up down : ℕ) :
      Granted c reg (.traffic email up down) (.calm, .traffic email up down)
  | master {e : AgentEnv} {header : String} {route : AgentRoute} {op : Op}
      (hgroup : route.group = some .master) (hkey : c.agent.authn.IsMaster header)
      (hop : route.op e "" = some op) : Granted c reg (.request e header route) (e.env, op)
  | tenant {e : AgentEnv} {header : String} {route : AgentRoute} {t : Tenant} {op : Op}
      (hgroup : route.group = some .tenant) (hres : reg.resolve header = some t)
      (hallowed : (t.decision e.now).allowed = true) (hop : route.op e t.id = some op) :
      Granted c reg (.request e header route) (e.env, op)
  | core {arr : Arrival} {metadata : Option (List String)} {call : NodeService.Call} {op : Op}
      (hkey : c.grpc.HasCoreKey metadata) (hop : call.op .core = some op) :
      Granted c reg (.rpc arr metadata call) (arr.env, op)
  | caller {arr : Arrival} {metadata : Option (List String)} {call : NodeService.Call}
      {key : String} {t : Tenant} {op : Op}
      (hkey : metadata.bind List.head? = some key) (hres : reg.resolve key = some t)
      (hallowed : (t.decision arr.now).allowed = true) (hop : call.op (.tenant t.id) = some op) :
      Granted c reg (.rpc arr metadata call) (arr.env, op)

variable (X : Externals) (K : DocExternals)

/-- **One event is at most one operation, and a granted one.** -/
theorem AgentNode.step_granted (c : Controllers) (n : AgentNode) (ev : AgentEvent) :
    (n.step c X K ev).mgr = n.mgr ∨
      ∃ l, Granted c n.mgr.reg ev l ∧ (n.step c X K ev).mgr = n.mgr.step X l := by
  cases ev with
  | poll env now => exact Or.inr ⟨_, .poll env now, rfl⟩
  | coreRestart => exact Or.inr ⟨_, .coreRestart, rfl⟩
  | traffic email up down => exact Or.inr ⟨_, .traffic email up down, rfl⟩
  | request e header route =>
    rw [step]
    rcases AgentServer.serve_cases X K c.agent e n header route with
      heq | ⟨hgroup, hkey, heq⟩ | ⟨hgroup, t, hres, hallowed, heq⟩
    · exact Or.inl (congrArg mgr heq)
    · rw [heq]
      refine (AgentServer.handler_mgr X K e n "" route).imp_right ?_
      rintro ⟨op, hop, h⟩
      exact ⟨_, .master hgroup hkey hop, h⟩
    · rw [heq]
      refine (AgentServer.handler_mgr X K e n t.id route).imp_right ?_
      rintro ⟨op, hop, h⟩
      exact ⟨_, .tenant hgroup hres hallowed hop, h⟩
  | rpc arr metadata call =>
    rw [step]
    unfold GrpcServer.handle
    cases hci : c.grpc.resolveCaller n.mgr.reg arr.now metadata with
    | error err => exact Or.inl rfl
    | ok ci =>
      refine (GrpcServer.serve_mgr X arr n.mgr ci call).imp_right ?_
      rintro ⟨op, hop, h⟩
      refine ⟨_, ?_, h⟩
      by_cases hcore : c.grpc.HasCoreKey metadata
      · obtain rfl : ci = .core :=
          Except.ok.inj (hci.symm.trans (GrpcServer.resolveCaller_of_hasCoreKey hcore))
        exact .core hcore hop
      · obtain ⟨key, t, hkey, hres, rfl⟩ :=
          GrpcServer.resolveCaller_of_not_hasCoreKey hcore hci
        exact .caller hkey hres (c.grpc.allowed_of_caller hci hkey hres) hop

/-- **Nothing is done that no key grants.** Whatever requests reach the two
servers of a node, in whatever order and between whatever polls, restarts
and traffic, what the manager goes through is a run of its operations, each
of them granted by an event of the run: it is the one its route or its call
stands for, and the key shown is one that the registry of that moment lets
in for it. -/
theorem run_is_granted (c : Controllers) (n : AgentNode) (run : List AgentEvent) :
    Runs.Path (Manager.step X) (fun m l => ∃ ev ∈ run, Granted c m.reg ev l) n.mgr
      (run.foldl (AgentNode.step c X K) n).mgr := by
  have hpath : Runs.Path (AgentNode.step c X K) (fun _ ev => ev ∈ run) n
      (run.foldl (AgentNode.step c X K) n) := .of_foldl run fun _ _ hev => hev
  refine (hpath.simulate (I := fun _ => True) AgentNode.mgr
    (fun n' ev _ _ hev => ⟨trivial, ?_⟩) trivial).2
  rcases AgentNode.step_granted X K c n' ev with h | ⟨l, hl, h⟩
  · exact Or.inl h
  · exact Or.inr ⟨l, ⟨ev, hev, hl⟩, h⟩

/-! ## What takes the operator's keys -/

/-- **An event under neither of the operator's keys.** -/
def AgentEvent.Unprivileged (c : Controllers) : AgentEvent → Prop
  | .request _ header _ => ¬ c.agent.authn.IsMaster header
  | .rpc _ metadata _ => ¬ c.grpc.HasCoreKey metadata
  | _ => True

/-- **What becomes of a tenant the operator leaves alone**: its terms are
what they were, and if it was not active it has not been reactivated. -/
structure Tenant.Lapsed (t t' : Tenant) : Prop where
  terms : t' = { t with usedBytes := t'.usedBytes, status := t'.status, reason := t'.reason }
  inactive : t.status ≠ .active → t'.status = t.status ∧ t'.reason = t.reason

namespace Tenant.Lapsed

variable {t t' t'' : Tenant}

theorem refl (t : Tenant) : t.Lapsed t := ⟨rfl, fun _ => ⟨rfl, rfl⟩⟩

theorem trans (h : t.Lapsed t') (h' : t'.Lapsed t'') : t.Lapsed t'' where
  terms := by
    rw [h'.terms, h.terms]
  inactive hstatus := by
    obtain ⟨hs, hr⟩ := h.inactive hstatus
    obtain ⟨hs', hr'⟩ := h'.inactive (hs ▸ hstatus)
    exact ⟨hs'.trans hs, hr'.trans hr⟩

theorem bill (t : Tenant) (d : Int64) : t.Lapsed (t.bill d) := ⟨rfl, fun _ => ⟨rfl, rfl⟩⟩

theorem enforced (t : Tenant) (now : Int64) : t.Lapsed (t.enforced now) := by
  unfold Tenant.enforced
  split_ifs with hdue
  · exact ⟨rfl, fun hno => absurd hdue.1 hno⟩
  · exact refl t

end Tenant.Lapsed

/-- **What the operator's keys protect**: the configuration, whether there
is a core, who the tenants are and their terms. -/
structure Manager.Untampered (m m' : Manager) : Prop where
  config : m'.config = m.config
  core : m'.live.core.isSome = m.live.core.isSome
  tenant : ∀ T, Option.Rel Tenant.Lapsed (m.reg.get T) (m'.reg.get T)

namespace Live

variable (env : Env)

theorem isSome_removeAll (l : List (String × User)) (L : Live) :
    (L.removeAll X env l).core.isSome = L.core.isSome := by
  refine List.foldlRecOn (motive := fun L' : Live => L'.core.isSome = L.core.isSome) l _ rfl
    fun L' hL' p _ => ?_
  rw [← hL']
  unfold removeFromCore
  cases hcore : L'.core with
  | none => simp only [hcore]
  | some x => rfl

theorem isSome_syncUser (T : String) (u : User) (L : Live) :
    (L.syncUser X env T u).1.core.isSome = L.core.isSome := by
  unfold syncUser
  cases hcore : L.core with
  | none => simp only [hcore]
  | some x => rfl

end Live

namespace Manager.Untampered

variable {m'' : Manager} (env : Env)

theorem rel_map {f : Tenant → Tenant} (hf : ∀ t : Tenant, t.Lapsed (f t)) (o : Option Tenant) :
    Option.Rel Tenant.Lapsed o (o.map f) := by
  rcases o with _ | t
  · exact .none
  · exact .some (hf t)

theorem of_reg (hconfig : m'.config = m.config) (hcore : m'.live.core.isSome = m.live.core.isSome)
    (hreg : m'.reg = m.reg) : m.Untampered m' where
  config := hconfig
  core := hcore
  tenant T := by
    have hrel := rel_map Tenant.Lapsed.refl (m.reg.get T)
    rw [Option.map_id'] at hrel
    rw [hreg]
    exact hrel

theorem trans (h : m.Untampered m') (h' : m'.Untampered m'') : m.Untampered m'' where
  config := h'.config.trans h.config
  core := h'.core.trans h.core
  tenant T := by
    have hT := h.tenant T
    have hT' := h'.tenant T
    revert hT hT'
    rcases m.reg.get T with _ | t <;> rcases m'.reg.get T with _ | t' <;>
      rcases m''.reg.get T with _ | t'' <;> intro hT hT' <;> cases hT <;> cases hT'
    · exact .none
    · next h₁ h₂ => exact .some (h₁.trans h₂)

theorem changed (m : Manager) (active : Bool) (T : String) (gone done : List (String × User)) :
    (m.changed X env active T gone done).live.core.isSome = m.live.core.isSome := by
  have hgone := Live.isSome_removeAll X env gone m.live
  unfold Manager.changed
  cases active with
  | false => exact hgone
  | true =>
    refine Live.syncs_rule (I := fun L => L.core.isSome = m.live.core.isSome)
      (fun u _ L hL => ?_) hgone
    rw [Live.isSome_syncUser, hL]

theorem setTenantUsers (m : Manager) (T : String) (users : List User) :
    m.Untampered (m.setTenantUsers X env T users).1 := by
  rcases m.setTenantUsers_cases X env T users with
    ⟨err, h⟩ | ⟨tn, gone, done, rest, -, ⟨err, h, -⟩ | ⟨-, h⟩⟩
  · rw [h]
    exact of_reg rfl rfl rfl
  · rw [h]
    exact of_reg rfl (changed X env m _ T gone done) rfl
  · rw [h]
    exact of_reg rfl (changed X env m _ T gone done) rfl

theorem addTenantUsers (m : Manager) (T : String) (users : List User) :
    m.Untampered (m.addTenantUsers X env T users).1 := by
  rcases m.addTenantUsers_cases X env T users with ⟨err, h⟩ | ⟨tn, -, h⟩
  · rw [h]
    exact of_reg rfl rfl rfl
  · rw [h]
    refine Manager.mergeUsers_rule (I := m.Untampered) (fun m' u _ hm' _ => ?_)
      (of_reg rfl rfl rfl)
    refine hm'.trans (of_reg rfl ?_ rfl)
    unfold Manager.takeOn
    split_ifs
    · exact Live.isSome_syncUser X env T _ m'.live
    · rfl

theorem enforce (m : Manager) (now : Int64) : m.Untampered (m.enforce X env now) := by
  rw [Manager.enforce_eq]
  refine ⟨rfl, Live.isSome_removeAll X env _ m.live, fun T => ?_⟩
  rw [Registry.get_enforce]
  exact rel_map (fun t => .enforced t now) (m.reg.get T)

theorem account (m : Manager) (stats : List Stat) : m.Untampered (m.account env stats).1 := by
  rw [Manager.account_eq]
  refine ⟨rfl, rfl, fun T => ?_⟩
  rcases Manager.addUsages_get_or env.save (GoMap.range_nodup (env.order .deltas)
    (Manager.deltasOf env m stats)) m.reg T with h | ⟨d, -, h⟩
  · have hsame : m.Untampered m := of_reg rfl rfl rfl
    rw [h]
    exact hsame.tenant T
  · rw [h]
    exact rel_map (fun t => .bill t d) (m.reg.get T)

theorem collectAndEnforce (m : Manager) (now : Int64) :
    m.Untampered (m.collectAndEnforce X env now).1 := by
  rcases m.collectAndEnforce_cases X env now with
    ⟨-, h⟩ | ⟨-, ⟨-, h⟩ | ⟨-, ⟨err, -, h⟩ | ⟨-, h⟩⟩⟩
  · rw [h]
    exact of_reg rfl rfl rfl
  · rw [h]
    exact enforce X env m now
  · rw [h]
    exact account env m _
  · rw [h]
    exact (account env m _).trans (enforce X env _ now)

/-- **Nothing granted without the operator's keys touches what they
protect.** -/
theorem of_granted {c : Controllers} {ev : AgentEvent} (hev : ev.Unprivileged c)
    {l : Env × Op} (hl : Granted c m.reg ev l) : m.Untampered (m.step X l) := by
  have hcore : ∀ f : Xray → Xray, m.Untampered (m.mapCore f) :=
    fun f => of_reg rfl Option.isSome_map rfl
  cases hl with
  | poll env now => exact collectAndEnforce X env m now
  | coreRestart => exact hcore _
  | traffic email up down => exact hcore _
  | master _ hkey | core hkey => exact absurd hkey hev
  | @tenant e header route t op hgroup _ _ hop =>
    cases route with
    | syncUsers body =>
      obtain ⟨users, -, rfl⟩ := Option.map_eq_some_iff.1 hop
      exact setTenantUsers X e.env m t.id users
    | myUsage => cases hop
    | _ => cases hgroup
  | @caller arr metadata call key t op _ _ _ hop =>
    cases call with
    | start b | syncUsers users | syncUsersChunked stream =>
      obtain rfl := Option.some.inj hop
      exact setTenantUsers X arr.env m t.id _
    | syncUser stream =>
      obtain rfl := Option.some.inj hop
      exact addTenantUsers X arr.env m t.id _
    | _ => cases hop

end Manager.Untampered

theorem AgentNode.step_binaries {c : Controllers} {ev : AgentEvent} (hev : ev.Unprivileged c)
    (n : AgentNode) :
    n.step c X K ev = { n with mgr := (n.step c X K ev).mgr } := by
  cases ev with
  | request e header route =>
    rw [step]
    rcases AgentServer.serve_cases X K c.agent e n header route with
      heq | ⟨-, hkey, -⟩ | ⟨hgroup, t, -, -, heq⟩
    · rw [heq]
    · exact absurd hkey hev
    · rw [heq]
      exact AgentServer.handler_node X K (by rw [hgroup]; decide) e n t.id
  | _ => rfl

/-- **What takes the operator's keys.** As long as nobody shows the master
key to the agent or the core key to the panel's service, whatever else
reaches the node and whatever fails: the configuration, the binaries and
whether there is a core stay as they are; so do the tenants there are, and
of each its key, period, quota, credit limit and expiry; and a tenant that
is not active stays so, for the reason it had. -/
theorem takes_operator_keys (c : Controllers) (n : AgentNode) (run : List AgentEvent)
    (hrun : ∀ ev ∈ run, ev.Unprivileged c) :
    let n' := run.foldl (AgentNode.step c X K) n
    n.mgr.Untampered n'.mgr ∧ n'.xrayBinary = n.xrayBinary ∧ n'.nodeBinary = n.nodeBinary := by
  refine List.foldlRecOn (motive := fun n' : AgentNode => n.mgr.Untampered n'.mgr ∧
    n'.xrayBinary = n.xrayBinary ∧ n'.nodeBinary = n.nodeBinary) run _
    ⟨.of_reg rfl rfl rfl, rfl, rfl⟩ ?_
  rintro n' ⟨hm, hx, hn⟩ ev hev
  have hbinaries := AgentNode.step_binaries X K (hrun ev hev) n'
  refine ⟨?_, ?_, ?_⟩
  · rcases AgentNode.step_granted X K c n' ev with h | ⟨l, hl, h⟩
    · rw [h]
      exact hm
    · rw [h]
      exact hm.trans (.of_granted X (hrun ev hev) hl)
  · rw [hbinaries]
    exact hx
  · rw [hbinaries]
    exact hn

namespace Demo

def noDocuments : DocExternals where
  parse := fun _ => none
  parse_empty := rfl
  float := fun _ => none
  sections := fun _ => true
  x25519 := fun _ => none

def quiet : AgentEnv :=
  ⟨.calm, 0, "", true, .error "", .error "", none, none⟩

/-- A customer sets its users over the panel's service, the other asks for
its usage with a key that is not let in, and there is a poll. -/
def customers : List AgentEvent :=
  [.rpc ⟨0, .calm, true, ""⟩ (some ["kb"]) (.syncUsers [user "y" "two"]),
    .request quiet "ka" .myUsage, .poll .calm 0]

def soldNode : AgentNode :=
  ⟨((Manager.new (sold "b" "kb") []).applyConfig externals .calm "config").1, none, none⟩

end Demo

/-- The customer's users are there, and nothing the operator's keys protect
has changed. -/
theorem customers_alone :
    let n' := Demo.customers.foldl
      (AgentNode.step Demo.controllers Demo.externals Demo.noDocuments) Demo.soldNode
    (n'.mgr.usersOf "b").keys = ["tb.y"] ∧ n'.mgr.live.core.isSome ∧
      Demo.soldNode.mgr.Untampered n'.mgr := by
  intro n'
  have hrun : ∀ ev ∈ Demo.customers, ev.Unprivileged Demo.controllers := by
    intro ev hev
    simp only [Demo.customers, List.mem_cons, List.not_mem_nil, or_false] at hev
    rcases hev with rfl | rfl | rfl
    · exact fun hcore => absurd hcore.2 (by decide)
    · exact fun hmaster => absurd hmaster.2 (by decide +kernel)
    · trivial
  exact ⟨by decide +kernel, by decide +kernel,
    (takes_operator_keys Demo.externals Demo.noDocuments Demo.controllers Demo.soldNode
      Demo.customers hrun).1⟩

end NodeAgent
