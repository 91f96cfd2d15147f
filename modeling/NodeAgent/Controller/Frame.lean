import NodeAgent.Controller.Model.Agent
import NodeAgent.Controller.Model.Grpccompat
import NodeAgent.Shared.Frame
import NodeAgent.Tenant.Keys
/-!
# What a request leaves alone

A request is made under a key, and the key says whose business it is. One
under a customer's key is an operation on that tenant's users or none at
all: the users, index entries and accounts of the others stay as they are,
and so do the registry and the configuration. One under the core key may
push a configuration, and touches no tenant's books.
-/

namespace NodeAgent

open GoStrings

variable {X : Externals} {env : Env} {m m' m'' : Manager} {T T' : String} {us : List User}

/-! ## Whose key it is -/

/-- **A key is let in as a tenant's only if it is that tenant's.** -/
theorem Authenticator.resolve_of_allowed {a : Authenticator} {reg : Registry} {key : String}
    {now : Int64} {decision : Decision}
    (h : a.authenticate reg key now = (.tenant, decision)) (hallowed : decision.allowed = true) :
    ∃ t, reg.resolve key = some t ∧ decision.tenant = some t := by
  have hauth : a.authenticate reg key now = (.tenant, reg.authorize key now) :=
    authenticate_of_not_master (by rw [h]; simp)
  obtain rfl : decision = reg.authorize key now := congrArg Prod.snd (h.symm.trans hauth)
  cases hres : reg.resolve key with
  | none =>
    rw [Registry.authorize_of_resolve_none hres] at hallowed
    cases hallowed
  | some t => exact ⟨t, rfl, by rw [Registry.authorize_of_resolve hres, Tenant.decision_tenant]⟩

theorem AgentServer.resolve_of_ok {s : AgentServer} {reg : Registry} {now : Int64} {key : String}
    {ctx : HttpContext} (h : s.authMiddleware reg now key = .ok ctx)
    (hscope : requireScope .tenant ctx = .ok ()) :
    ∃ t, reg.resolve key = some t ∧ ctx.ctxTenantID = t.id := by
  have htenant : ctx.ctxScope = .tenant := by
    by_contra hno
    simp [requireScope, hno] at hscope
  unfold authMiddleware at h
  cases hauth : s.authn.authenticate reg key now with
  | mk scope decision =>
    simp only [hauth] at h
    split_ifs at h with hkey hsc hal
    · rw [hsc] at hauth
      obtain ⟨t, hres, htn⟩ := Authenticator.resolve_of_allowed hauth (by simpa using hal)
      simp only [htn] at h
      exact ⟨t, hres, by rw [← Except.ok.inj h]⟩
    · rw [← Except.ok.inj h] at htenant
      exact absurd htenant hsc

theorem AgentServer.frame_syncUsers (h : Coherent m) (T : String)
    (body : Option (List UserInput)) : Frame X.table T m (syncUsers X env m T body).1 := by
  unfold syncUsers
  cases body with
  | none => exact Frame.refl T m
  | some inputs =>
    simp only
    cases commonUsers inputs with
    | none => exact Frame.refl T m
    | some users =>
      have hset := Frame.setTenantUsers X env h T users
      simp only
      split
      · next heq =>
          rw [heq] at hset
          exact hset
      · next heq =>
          rw [heq] at hset
          exact hset

namespace GrpcServer

variable {s : GrpcServer} {reg : Registry} {now : Int64} {metadata : Option (List String)}

/-- **The metadata is that of the core key.** -/
def HasCoreKey (s : GrpcServer) (metadata : Option (List String)) : Prop :=
  s.coreKey ≠ "" ∧ metadata.bind List.head? = some s.coreKey

theorem resolveCaller_of_hasCoreKey (h : s.HasCoreKey metadata) :
    s.resolveCaller reg now metadata = .ok .core := by
  obtain ⟨hcore, hkey⟩ := h
  cases metadata with
  | none => cases hkey
  | some keys =>
    cases keys with
    | nil => cases hkey
    | cons key rest =>
      obtain rfl : key = s.coreKey := Option.some.inj hkey
      simp [resolveCaller, hcore, Authenticator.constantTimeEqual]

theorem resolveCaller_of_not_hasCoreKey (h : ¬ s.HasCoreKey metadata) {ci : CallerInfo}
    (hci : s.resolveCaller reg now metadata = .ok ci) :
    ∃ key t, metadata.bind List.head? = some key ∧ reg.resolve key = some t ∧
      ci = .tenant t.id := by
  cases metadata with
  | none => cases hci
  | some keys =>
    cases keys with
    | nil => cases hci
    | cons key rest =>
      have hnot : ¬ (s.coreKey ≠ "" ∧
          Authenticator.constantTimeEqual key s.coreKey = true) := by
        rintro ⟨hcore, heq⟩
        simp only [Authenticator.constantTimeEqual, decide_eq_true_eq] at heq
        exact h ⟨hcore, by rw [heq]; rfl⟩
      simp only [resolveCaller, if_neg hnot] at hci
      split_ifs at hci
      cases hauthn : s.authn with
      | none =>
        rw [hauthn] at hci
        cases hci
      | some authn =>
        simp only [hauthn] at hci
        cases hauth : authn.authenticate reg key now with
        | mk scope decision =>
          simp only [hauth] at hci
          split at hci
          · next t hallowed htn =>
              obtain ⟨t', hres, htn'⟩ := Authenticator.resolve_of_allowed hauth hallowed
              obtain rfl : t' = t := Option.some.inj (htn'.symm.trans htn)
              exact ⟨key, t', rfl, hres, (Except.ok.inj hci).symm⟩
          · split at hci <;> cases hci

theorem applied_fst (r : Manager × Option ManagerErr) (reply : Manager → NodeService.Reply) :
    (applied r reply).1 = r.1 := by
  obtain ⟨m, err⟩ := r
  cases err <;> rfl

variable {arr : Arrival}

/-- **A tenant's call is its own business.** -/
theorem frame_serve (h : Coherent m) (T : String) (call : NodeService.Call) :
    Frame X.table T m (serve X arr m (.tenant T) call).1 := by
  cases call with
  | start b =>
    show Frame X.table T m (applied _ _).1
    rw [applied_fst]
    exact Frame.setTenantUsers X arr.env h T b.users
  | syncUsers users =>
    show Frame X.table T m (applied _ _).1
    rw [applied_fst]
    exact Frame.setTenantUsers X arr.env h T users
  | syncUser stream =>
    simp only [serve, syncUser]
    split_ifs
    · exact Frame.refl T m
    · rw [applied_fst]
      exact Frame.addTenantUsers h T _
    · exact Frame.refl T m
  | syncUsersChunked stream =>
    simp only [serve, syncUsersChunked]
    split_ifs
    · exact Frame.refl T m
    · rw [applied_fst]
      exact Frame.setTenantUsers X arr.env h T _
  | _ => exact Frame.refl T m

variable (X arr) in
/-- **A call under the core key touches no books.** -/
theorem sameIndexes_serve (m : Manager) (call : NodeService.Call) :
    Manager.SameIndexes m (serve X arr m .core call).1 ∧
      (serve X arr m .core call).1.reg = m.reg := by
  have hsame : Manager.SameIndexes m m ∧ m.reg = m.reg := ⟨⟨rfl, rfl, rfl⟩, rfl⟩
  cases call with
  | start b =>
    have hpush := Manager.applyConfig_frame X arr.env m b.config
    simp only [serve, start]
    split_ifs
    · exact hsame
    · exact hsame
    · split
      · next heq =>
          rw [heq] at hpush
          exact hpush
      · next heq =>
          rw [heq] at hpush
          exact hpush
  | syncUser stream =>
    simp only [serve, syncUser]
    split_ifs <;> exact hsame
  | syncUsersChunked stream =>
    simp only [serve, syncUsersChunked]
    split_ifs <;> exact hsame
  | _ => exact hsame

end GrpcServer

/-! ## Requests -/

/-- The two servers of a node. -/
structure Controllers where
  agent : AgentServer
  grpc : GrpcServer

/-- The requests of customers and of panels: `PUT /tenant/users` with a
header and a body, or a call with metadata. -/
inductive Request
  | putTenantUsers (header : String) (body : Option (List UserInput))
  | rpc (metadata : Option (List String)) (call : NodeService.Call)

/-- The key a request shows. -/
def Request.key : Request → Option String
  | .putTenantUsers header _ => some header
  | .rpc metadata _ => metadata.bind List.head?

namespace Controllers

/-- The state a request leaves. -/
def handle (X : Externals) (arr : Arrival) (c : Controllers) (m : Manager) : Request → Manager
  | .putTenantUsers header body => (c.agent.putTenantUsers X arr.env m arr.now header body).1
  | .rpc metadata call => (c.grpc.handle X arr m metadata call).1

/-- **A request under the core key**; over HTTP it means nothing. -/
def UnderCore (c : Controllers) : Request → Prop
  | .putTenantUsers _ _ => False
  | .rpc metadata _ => c.grpc.HasCoreKey metadata

/-- **A request under a tenant's key.** -/
def UnderTenant (c : Controllers) (reg : Registry) (T : String) (r : Request) : Prop :=
  ¬ c.UnderCore r ∧ ∃ key t, r.key = some key ∧ reg.resolve key = some t ∧ t.id = T

variable {c : Controllers} {arr : Arrival} {r : Request}

theorem frame_handle (h : Coherent m) (hr : c.UnderTenant m.reg T r) :
    Frame X.table T m (c.handle X arr m r) := by
  obtain ⟨hcore, key, t, hkey, hres, rfl⟩ := hr
  cases r with
  | putTenantUsers header body =>
    obtain rfl : header = key := Option.some.inj hkey
    show Frame X.table t.id m (c.agent.putTenantUsers X arr.env m arr.now header body).1
    unfold AgentServer.putTenantUsers
    cases hauth : c.agent.authMiddleware m.reg arr.now header with
    | error response => exact Frame.refl t.id m
    | ok ctx =>
      simp only
      cases hscope : AgentServer.requireScope .tenant ctx with
      | error response => exact Frame.refl t.id m
      | ok _ =>
        obtain ⟨t', hres', hid⟩ := AgentServer.resolve_of_ok hauth hscope
        obtain rfl : t' = t := Option.some.inj (hres'.symm.trans hres)
        rw [hid]
        exact AgentServer.frame_syncUsers h t'.id body
  | rpc metadata call =>
    show Frame X.table t.id m (c.grpc.handle X arr m metadata call).1
    unfold GrpcServer.handle
    cases hci : c.grpc.resolveCaller m.reg arr.now metadata with
    | error err => exact Frame.refl t.id m
    | ok ci =>
      obtain ⟨key', t', hkey', hres', rfl⟩ :=
        GrpcServer.resolveCaller_of_not_hasCoreKey hcore hci
      obtain rfl : key' = key := Option.some.inj (hkey'.symm.trans hkey)
      obtain rfl : t' = t := Option.some.inj (hres'.symm.trans hres)
      exact GrpcServer.frame_serve h t'.id call

end Controllers

/-- **Every request keeps to its business.** In every state reached without
a failing call to the core, with tenants that can be told apart: a request
under a tenant's key leaves the registry, the configuration and everything
of the other tenants as it was, whatever it asks and whatever comes of it,
their live accounts if Xray tells the emails of tenants apart; and one
under the core key leaves the books of all tenants and the registry
as they were. -/
theorem requests_keep_to_their_tenant {reg : Registry} {force : List String}
    (hpf : PrefixFree { T | reg.get T ≠ none })
    (h : Runs.Path (Manager.step X)
      (fun m l => l.1.AddsOk ∧ l.1.RemovesOk ∧ KeepsApart m l.2) (Manager.new reg force) m)
    (c : Controllers) (arr : Arrival) (r : Request) :
    (∀ T, c.UnderTenant m.reg T r → Frame X.table T m (c.handle X arr m r)) ∧
      (c.UnderCore r → (c.handle X arr m r).users = m.users ∧
        (c.handle X arr m r).emailTo = m.emailTo ∧ (c.handle X arr m r).creds = m.creds ∧
        (c.handle X arr m r).reg = m.reg) := by
  have hm := Coherent.of_path_addsOk hpf h
  refine ⟨fun T hr => Controllers.frame_handle hm hr, fun hcore => ?_⟩
  cases r with
  | putTenantUsers header body => exact absurd hcore id
  | rpc metadata call =>
    have hci : c.grpc.resolveCaller m.reg arr.now metadata = .ok .core :=
      GrpcServer.resolveCaller_of_hasCoreKey hcore
    have hsame := GrpcServer.sameIndexes_serve X arr m call
    have hhandle : c.handle X arr m (.rpc metadata call) =
        (GrpcServer.serve X arr m .core call).1 := by
      show (c.grpc.handle X arr m metadata call).1 = _
      simp only [GrpcServer.handle, hci]
    rw [hhandle]
    exact ⟨hsame.1.users, hsame.1.emailTo, hsame.1.creds, hsame.2⟩

namespace Demo

def sold (id key : String) : Registry :=
  ((registry ["a"]).createTenant true ⟨id, key, 1000, 0, 0, 1⟩).1

theorem sold_prefixFree {id : String} (key : String)
    (ha : hasPrefix (tenantPrefix id) (tenantPrefix "a") = false)
    (hid : hasPrefix (tenantPrefix "a") (tenantPrefix id) = false) :
    PrefixFree { T | (sold id key).get T ≠ none } := by
  have hmem : ∀ T, (sold id key).get T ≠ none → T = "a" ∨ T = id := by
    intro T hT
    by_contra hno
    rw [not_or] at hno
    refine hT ?_
    rcases Registry.createTenant_cases (registry ["a"]) true ⟨id, key, 1000, 0, 0, 1⟩ with
      hsame | ⟨-, hget⟩
    · exact (hsame T).trans ((Registry.get_put ..).trans (if_neg hno.1))
    · exact (hget T).trans ((if_neg hno.2).trans ((Registry.get_put ..).trans (if_neg hno.1)))
  intro T hT T' hT' hpre
  rcases hmem T hT with rfl | rfl <;> rcases hmem T' hT' with rfl | rfl
  · rfl
  · rw [ha] at hpre
    cases hpre
  · rw [hid] at hpre
    cases hpre
  · rfl

def controllers : Controllers where
  agent := ⟨.newAuthenticator "master"⟩
  grpc := ⟨some (.newAuthenticator "master"), "core"⟩

end Demo

/-- One tenant sets its users, and the other's are where they were. -/
theorem users_set_beside_others :
    let m := Demo.run [.setUsers "a" [Demo.user "x" "one"]] (Manager.new (Demo.sold "b" "kb") [])
    let m' := Demo.controllers.handle Demo.externals ⟨0, .calm, false, ""⟩ m
      (.rpc (some ["kb"]) (.syncUsers [Demo.user "y" "two"]))
    (m'.usersOf "b").keys = ["tb.y"] ∧ m'.users.lookup "a" = m.users.lookup "a" ∧
      m'.reg = m.reg := by
  intro m m'
  have hpath : Runs.Path (Manager.step Demo.externals)
      (fun m l => l.1.AddsOk ∧ l.1.RemovesOk ∧ KeepsApart m l.2)
      (Manager.new (Demo.sold "b" "kb") []) m :=
    .snoc (Env.calm, Op.setUsers "a" [Demo.user "x" "one"]) .refl
      ⟨fun _ => rfl, fun _ => rfl, fun p hp => by cases hp⟩
  have hkey : (m.reg.resolve "kb").map Tenant.id = some "b" := by decide +kernel
  obtain ⟨t, ht, hid⟩ := Option.map_eq_some_iff.1 hkey
  have hframe := (requests_keep_to_their_tenant
    (Demo.sold_prefixFree "kb" (by decide) (by decide)) hpath Demo.controllers
    ⟨0, .calm, false, ""⟩ (.rpc (some ["kb"]) (.syncUsers [Demo.user "y" "two"]))).1 "b"
    ⟨fun hcore => absurd hcore.2 (by decide), "kb", t, rfl, ht, hid⟩
  exact ⟨by decide +kernel, hframe.users "a" (by decide), hframe.reg⟩

/-- **A request that takes another tenant's account off**: neither prefix
is the start of the other, no call fails, and the user a customer puts on
is another's to Xray. -/
theorem account_of_another_taken_off :
    let m := Demo.run [.applyConfig "config", .setUsers "a" [Demo.user "x" "one"]]
      (Manager.new (Demo.sold "A" "kA") [])
    let r := Request.rpc (some ["kA"]) (.syncUsers [Demo.user "x" "two"])
    let m' := Demo.controllers.handle Demo.externals ⟨0, .calm, false, ""⟩ m r
    (PrefixFree { T | (Demo.sold "A" "kA").get T ≠ none } ∧
      Runs.Path (Manager.step Demo.externals)
        (fun m l => l.1.AddsOk ∧ l.1.RemovesOk ∧ KeepsApart m l.2)
        (Manager.new (Demo.sold "A" "kA") []) m ∧
      Demo.controllers.UnderTenant m.reg "A" r) ∧
    (m.live.on "in" "ta.x").isSome = true ∧ m'.live.on "in" "ta.x" = none ∧
      (m'.usersOf "a").keys = ["ta.x"] := by
  intro m r m'
  have hkey : (m.reg.resolve "kA").map Tenant.id = some "A" := by decide +kernel
  obtain ⟨t, ht, hid⟩ := Option.map_eq_some_iff.1 hkey
  refine ⟨⟨Demo.sold_prefixFree "kA" (by decide) (by decide), ?_, ?_⟩, by decide +kernel⟩
  · exact .snoc (Env.calm, Op.setUsers "a" [Demo.user "x" "one"])
      (.snoc (Env.calm, Op.applyConfig "config") .refl
        ⟨fun _ => rfl, fun _ => rfl, fun p hp => by cases hp⟩)
      ⟨fun _ => rfl, fun _ => rfl, fun p hp => by cases hp⟩
  · exact ⟨fun hcore => absurd hcore.2 (by decide), "kA", t, rfl, ht, hid⟩

end NodeAgent
