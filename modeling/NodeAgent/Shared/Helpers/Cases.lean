import NodeAgent.Shared.Helpers.Loops
import NodeAgent.Shared.Helpers.Poll
import NodeAgent.Xray.Helpers.Start
import Mathlib.Data.Set.Basic
/-!
# The ways an operation ends

For each operation of the manager but the two on users, the state it
leaves: the registry as the registry's own operation leaves it, the live
side after some removals or syncs, and — apart from a deletion — the
indexes as they were.
-/

namespace NodeAgent

variable (X : Externals) (env : Env)

/-- The operations that change which users there are. -/
def Op.onUsers : Op → Bool
  | .setUsers _ _ | .addUsers _ _ | .delete _ => true
  | _ => false

/-- The operations that change which tenants there are. -/
def Op.onTenants : Op → Bool
  | .createTenant _ | .delete _ => true
  | _ => false

namespace Manager

/-- The tenants of the node. -/
def tenants (m : Manager) : Set String :=
  { T | m.reg.get T ≠ none }

theorem mem_tenants_of_get {m : Manager} {T : String} {tn : Tenant}
    (h : m.reg.get T = some tn) : T ∈ m.tenants :=
  Option.ne_none_iff_exists'.2 ⟨tn, h⟩

/-- The status a tenant has. -/
def statusOf (m : Manager) (T : String) : Option Status :=
  (m.reg.get T).map Tenant.status

theorem statusOf_of_get {m : Manager} {T : String} {tn : Tenant} (h : m.reg.get T = some tn) :
    m.statusOf T = some tn.status := by
  rw [statusOf, h, Option.map_some]

theorem active_iff_of_get {m : Manager} {T : String} {tn : Tenant} (h : m.reg.get T = some tn) :
    m.statusOf T = some .active ↔ tn.status = .active := by
  rw [statusOf_of_get h, Option.some.injEq]

/-! ## The status of a tenant -/

theorem suspendTenant_cases (m : Manager) (T : String) (reason : Reason) :
    (∃ err, m.suspendTenant X env T reason =
        ({ m with reg := (m.reg.suspend (env.save T) T reason).1 }, some err)) ∧
        (m.reg.get T = none ∨ env.save T = false) ∨
      m.suspendTenant X env T reason =
        ({ m with
            reg := (m.reg.suspend (env.save T) T reason).1
            live := m.live.removeAll X env
              (GoMap.range (env.order (.tenantUsers T)) (m.usersOf T)) }, none) := by
  have herr := Registry.modify_error_iff m.reg (env.save T) T
    fun t => { t with status := .suspended, reason := reason }
  unfold suspendTenant
  split
  · rename_i r err heq
    refine Or.inl ⟨⟨.registry err, by rw [heq]⟩, herr.1 ⟨err, ?_⟩⟩
    exact congrArg Prod.snd heq
  · rename_i r t heq
    refine Or.inr ?_
    rw [heq]
    rfl

theorem resumeTenant_cases (m : Manager) (T : String) :
    (∃ err, m.resumeTenant X env T =
        ({ m with reg := (m.reg.resume (env.save T) T).1 }, some err)) ∧
        (m.reg.get T = none ∨ env.save T = false) ∨
      ∃ done rest err, GoMap.range (env.order (.tenantUsers T)) (m.usersOf T) = done ++ rest ∧
        (env.AddsOk → rest = []) ∧ m.reg.get T ≠ none ∧
        m.resumeTenant X env T =
          ({ m with
              reg := (m.reg.resume (env.save T) T).1
              live := m.live.syncs X env T (done.map Prod.snd) }, err) := by
  have herr := Registry.modify_error_iff m.reg (env.save T) T
    fun t => { t with status := .active, reason := .none }
  unfold resumeTenant
  split
  · rename_i r err heq
    refine Or.inl ⟨⟨.registry err, by rw [heq]⟩, herr.1 ⟨err, ?_⟩⟩
    exact congrArg Prod.snd heq
  · rename_i r t heq
    obtain ⟨done, rest, hl, hlive, hrest⟩ := Live.syncAll_spec X env T
      (GoMap.range (env.order (.tenantUsers T)) (m.usersOf T)) m.live
    refine Or.inr ⟨done, rest, (Live.syncAll X env T
      (GoMap.range (env.order (.tenantUsers T)) (m.usersOf T)) m.live).2, hl,
      fun ha => hrest (Live.syncAll_ok ha T _ _), fun hnone => ?_, ?_⟩
    · obtain ⟨err, herr'⟩ := herr.2 (Or.inl hnone)
      have hok : (m.reg.resume (env.save T) T).2 = .ok t := by rw [heq]
      cases hok.symm.trans herr'
    · rw [heq, ← hlive]
      rfl

theorem resetTenant_cases (m : Manager) (T : String) (saved : Bool) :
    (∃ err, m.resetTenant X env T saved =
        ({ m with reg := (m.reg.resetPeriod saved T).1 }, some err)) ∧
        (m.reg.get T = none ∨ saved = false) ∨
      m.resetTenant X env T saved =
        Manager.resumeTenant X env { m with reg := (m.reg.resetPeriod saved T).1 } T := by
  have herr := Registry.modify_error_iff m.reg saved T fun t =>
    { t with usedBytes := 0, periodID := t.periodID + 1, status := .active, reason := .none }
  unfold resetTenant withReg
  cases hres : (m.reg.resetPeriod saved T).2 with
  | error err => exact Or.inl ⟨⟨_, rfl⟩, herr.1 ⟨err, hres⟩⟩
  | ok t => exact Or.inr rfl

/-- **What a deletion leaves**: the tenant and its set gone, its users off
the core and out of the indexes. -/
structure Deleted (X : Externals) (env : Env) (m : Manager) (T : String) (m' : Manager) :
    Prop where
  known : m.reg.get T ≠ none
  get : ∀ k, m'.reg.get k = if k = T then none else m.reg.get k
  usersOf : m'.usersOf = Function.update m.usersOf T ∅
  live : m'.live = m.live.removeAll X env
    (GoMap.range (env.order (.tenantUsers T)) (m.usersOf T))
  emailTo : ∀ x, m'.emailTo.lookup x =
    if x ∈ (m.usersOf T).keys then none else m.emailTo.lookup x
  creds : ∀ c, m'.creds.lookup c = m.creds.lookup c ∨
    ∃ x u, (m.usersOf T).lookup x = some u ∧ c ∈ userCredentials u

theorem deleted_forget {m : Manager} {T : String} (hknown : m.reg.get T ≠ none) {r : Registry}
    (hget : ∀ k, r.get k = if k = T then none else m.reg.get k) :
    Deleted X env m T
      { m.forget (GoMap.range (env.order .stale) (m.usersOf T)) with
        reg := r
        live := m.live.removeAll X env
          (GoMap.range (env.order (.tenantUsers T)) (m.usersOf T))
        users := m.users.erase T } := by
  rw [forget_eq]
  refine ⟨hknown, hget, funext fun T' => ?_, rfl, fun x => ?_, fun c => ?_⟩
  · show ((m.users.erase T).lookup T').getD ∅ = _
    rw [GoMap.lookup_erase_eq, Function.update_apply]
    split_ifs <;> rfl
  · show (GoMap.eraseKeys m.emailTo _).lookup x = _
    rw [GoMap.lookup_eraseKeys, GoMap.range_keys]
    simp only [Order.mem_run]
  · show (GoMap.eraseKeys m.creds _).lookup c = _ ∨ _
    rw [GoMap.lookup_eraseKeys]
    split_ifs with hc
    · obtain ⟨p, hp, hcp⟩ := List.mem_flatMap.1 hc
      exact Or.inr ⟨p.1, p.2, GoMap.mem_range.1 hp, hcp⟩
    · exact Or.inl rfl

theorem deleteTenant_cases (m : Manager) (T : String) :
    (∃ err, m.deleteTenant X env T =
        ({ m with
            live := m.live.removeAll X env
              (GoMap.range (env.order (.tenantUsers T)) (m.usersOf T)) }, some err)) ∧
        (m.reg.get T = none ∨ env.save T = false) ∨
      Deleted X env m T (m.deleteTenant X env T).1 := by
  unfold deleteTenant
  rcases Registry.delete_cases m.reg (env.save T) T with
    ⟨⟨err, herr⟩, hbad⟩ | ⟨hnone, hknown, hget⟩
  · refine Or.inl ⟨⟨.registry err, ?_⟩, hbad⟩
    simp only [removeTenantFromCore, herr]
  · refine Or.inr ?_
    simp only [removeTenantFromCore]
    split
    · rename_i r err heq
      rw [heq] at hnone
      cases hnone
    · rename_i r heq
      rw [heq] at hget
      have hdeleted := deleted_forget X env hknown hget
      rw [forget_eq] at hdeleted ⊢
      exact hdeleted

/-! ## The core -/

/-- **One turn of the loop of `ApplyConfig`**: a tenant that is not active
is passed over; of an active one the users are synced, all of them unless
an add fails. -/
theorem addTenantsToCore_cons (T : String) (l : List String) (m : Manager) :
    m.statusOf T ≠ some .active ∧
        addTenantsToCore X env (T :: l) m = addTenantsToCore X env l m ∨
      m.statusOf T = some .active ∧
        ∃ done rest, GoMap.range (env.order (.tenantUsers T)) (m.usersOf T) = done ++ rest ∧
          (env.AddsOk → rest = []) ∧
          (addTenantsToCore X env (T :: l) m =
              addTenantsToCore X env l
                { m with live := m.live.syncs X env T (done.map Prod.snd) } ∨
            (∃ err, addTenantsToCore X env (T :: l) m =
              ({ m with live := m.live.syncs X env T (done.map Prod.snd) }, some err)) ∧
              ¬ env.AddsOk) := by
  rw [addTenantsToCore]
  split
  · rename_i hget
    exact Or.inl ⟨by rw [statusOf, hget]; simp, rfl⟩
  · rename_i tn hget
    split_ifs with hact
    · exact Or.inl ⟨by rw [statusOf, hget]; simpa using hact, rfl⟩
    · obtain ⟨done, rest, hl, hlive, hrest⟩ := Live.syncAll_spec X env T
        (GoMap.range (env.order (.tenantUsers T)) (m.usersOf T)) m.live
      have hstate : (m.addTenantToCore X env T).1 =
          { m with live := m.live.syncs X env T (done.map Prod.snd) } := by
        rw [← hlive]
        rfl
      have hok : env.AddsOk → (m.addTenantToCore X env T).2 = none :=
        fun ha => Live.syncAll_ok ha T _ m.live
      refine Or.inr ⟨by rw [statusOf, hget, Option.map_some, not_not.1 hact], done, rest, hl,
        fun ha => hrest (hok ha), ?_⟩
      split
      · rename_i m' heq
        rw [heq] at hstate
        exact Or.inl (by rw [← hstate])
      · rename_i m' err heq
        rw [heq] at hstate hok
        exact Or.inr ⟨⟨err, by rw [← hstate]⟩, fun ha => by cases hok ha⟩

theorem addTenantsToCore_rule (I : Live → Prop) (l : List String) (m : Manager)
    (hsync : ∀ T x u L, m.statusOf T = some .active → (m.usersOf T).lookup x = some u → I L →
      I (L.syncUser X env T u).1)
    (hI : I m.live) :
    ∃ L err, addTenantsToCore X env l m = ({ m with live := L }, err) ∧ I L := by
  -- along the loop only the live side moves, so the sets and the statuses stay those of `m`
  have hloop : ∀ (l : List String) (L : Live), I L →
      ∃ L' err, addTenantsToCore X env l { m with live := L } = ({ m with live := L' }, err) ∧
        I L' := by
    intro l
    induction l with
    | nil => exact fun L hL => ⟨L, none, rfl, hL⟩
    | cons T l ih =>
      intro L hL
      rcases addTenantsToCore_cons X env T l { m with live := L } with
        ⟨-, heq⟩ | ⟨hact, done, rest, hl, -, hturn⟩
      · rw [heq]
        exact ih L hL
      · have hL' : I (L.syncs X env T (done.map Prod.snd)) := by
          refine Live.syncs_rule (fun u hu L hL => ?_) hL
          obtain ⟨p, hp, rfl⟩ := List.mem_map.1 hu
          have hmem : p ∈ GoMap.range (env.order (.tenantUsers T)) (m.usersOf T) :=
            hl ▸ List.mem_append_left _ hp
          exact hsync T p.1 p.2 L hact (GoMap.mem_range.1 hmem) hL
        rcases hturn with heq | ⟨⟨err, heq⟩, -⟩
        · rw [heq]
          exact ih _ hL'
        · rw [heq]
          exact ⟨_, some err, rfl, hL'⟩
  exact hloop l m.live hI

theorem applyConfig_cases (m : Manager) (configJSON : String) :
    (∃ err, m.applyConfig X env configJSON = (m.stop, some err)) ∨
      ∃ x : Xray, x.Fresh X ∧ m.applyConfig X env configJSON =
        addTenantsToCore X env ((env.order .tenants).run m.users.keys)
          { m with live := { m.live with core := some x }, config := configJSON } := by
  unfold applyConfig startCoreLocked
  cases hdec : X.unmarshal configJSON with
  | none => exact Or.inl ⟨_, rfl⟩
  | some decoded =>
    simp only
    cases hnew : Xray.new X env (Config.newConfig decoded []) [] with
    | none => exact Or.inl ⟨_, rfl⟩
    | some x => exact Or.inr ⟨x, Xray.fresh_new hnew, rfl⟩

/-! ## A poll -/

variable {X env} in
theorem enforce_eq (m : Manager) (now : Int64) :
    m.enforce X env now =
      { m with
        reg := (m.reg.enforce (env.order .byID) env.enforceSave now).1
        live := m.live.removeAll X env
          (((m.reg.enforce (env.order .byID) env.enforceSave now).2.map
            fun c => c.tenant.id).flatMap
              fun id => GoMap.range (env.order (.tenantUsers id)) (m.usersOf id)) } := by
  have hfold : ∀ (l : List Change) (m' : Manager), m'.users = m.users →
      l.foldl (fun m c => m.removeTenantFromCore X env c.tenant.id) m' =
        { m' with
          live := m'.live.removeAll X env ((l.map fun c => c.tenant.id).flatMap
            fun id => GoMap.range (env.order (.tenantUsers id)) (m.usersOf id)) } := by
    intro l
    induction l with
    | nil => exact fun m' _ => rfl
    | cons c l ih =>
      intro m' hm'
      rw [List.foldl_cons, ih (m'.removeTenantFromCore X env c.tenant.id) hm']
      simp only [removeTenantFromCore, usersOf, hm', List.map_cons, List.flatMap_cons,
        Live.removeAll, List.foldl_append]
  exact hfold _ { m with reg := (m.reg.enforce (env.order .byID) env.enforceSave now).1 } rfl

/-- The rows the core would answer a poll with; none without a core. -/
def answer (env : Env) (m : Manager) : List Stat :=
  m.live.core.elim [] fun x => buildStatResponse (env.rows.run x.process.queryStats)

/-- The readings a poll works with: none, if there is no core or no
answer. -/
def readings (env : Env) (m : Manager) : GoMap String Int64 :=
  if env.stats then currentOf (m.answer env) else ∅

/-- **The ways a poll ends.** Without a core it does nothing; without an
answer it only enforces; and an error in the accounting keeps it from
enforcing. -/
theorem collectAndEnforce_cases (m : Manager) (now : Int64) :
    m.live.core = none ∧ m.collectAndEnforce X env now = (m, none) ∨
      m.live.core ≠ none ∧
        (env.stats = false ∧ m.collectAndEnforce X env now = (m.enforce X env now, none) ∨
          env.stats = true ∧
            ((∃ err, (m.account env (m.answer env)).2 = some err ∧
                m.collectAndEnforce X env now = ((m.account env (m.answer env)).1, some err)) ∨
              (m.account env (m.answer env)).2 = none ∧
                m.collectAndEnforce X env now =
                  ((m.account env (m.answer env)).1.enforce X env now, none))) := by
  unfold collectAndEnforce answer
  cases hcore : m.live.core with
  | none => exact Or.inl ⟨rfl, rfl⟩
  | some x =>
    refine Or.inr ⟨by simp, ?_⟩
    simp only [Xray.getUsersStats, Option.elim_some]
    cases hstats : env.stats with
    | false => exact Or.inl ⟨rfl, rfl⟩
    | true =>
      refine Or.inr ⟨rfl, ?_⟩
      simp only [if_true]
      split
      · rename_i m' err heq
        exact Or.inl ⟨err, by rw [heq], by rw [heq]⟩
      · rename_i m' heq
        exact Or.inr ⟨by rw [heq], by rw [heq]⟩

/-- **A poll in which no usage is refused** bills every tenant what the
readings show for it, and then enforces. -/
theorem collectAndEnforce_ok {m : Manager} (hcore : m.live.core ≠ none)
    (hok : ∀ T, m.Reported (m.readings env) T → m.reg.get T ≠ none ∧ env.save T = true)
    (now : Int64) :
    ∃ r, m.collectAndEnforce X env now =
        (enforce X env { m with
            reg := r
            lastSeen := if env.stats then seenAfter env m (m.answer env) else m.lastSeen } now,
          none) ∧
      ∀ T, r.get T = (m.reg.get T).map (Tenant.bill (m.delta (m.readings env) T)) := by
  rcases collectAndEnforce_cases X env m now with
    ⟨hnone, -⟩ | ⟨-, ⟨hstats, heq⟩ | ⟨hstats, hacc⟩⟩
  · exact absurd hnone hcore
  · refine ⟨m.reg, ?_, fun T => ?_⟩
    · rw [heq, hstats]
      rfl
    · have hno : ¬ m.Reported (m.readings env) T := by
        rintro ⟨email, he, -⟩
        simp [readings, hstats] at he
      rw [delta_of_not_reported hno]
      cases m.reg.get T <;> simp
  · have hread : m.readings env = currentOf (m.answer env) := if_pos hstats
    have hlookup := lookup_deltasOf env m (m.answer env)
    rw [← hread] at hlookup
    obtain ⟨hnone, hbilled, hrest⟩ := addUsages_ok env.save (r := m.reg)
      (GoMap.range_nodup (env.order .deltas) (deltasOf env m (m.answer env)))
      fun p hp => hok p.1 ((hlookup p.1 p.2).1 (GoMap.mem_range.1 hp)).1
    rcases hacc with ⟨err, herr, -⟩ | ⟨-, heq⟩
    · rw [account_eq, hnone] at herr
      cases herr
    · refine ⟨_, by rw [heq, account_eq, hstats]; rfl, fun T => ?_⟩
      by_cases hrep : m.Reported (m.readings env) T
      · exact hbilled (T, _) (GoMap.mem_range.2 ((hlookup T _).2 ⟨hrep, rfl⟩))
      · have hno : T ∉ (GoMap.range (env.order .deltas)
            (deltasOf env m (m.answer env))).map Prod.fst := by
          intro hmem
          obtain ⟨p, hp, rfl⟩ := List.mem_map.1 hmem
          exact hrep ((hlookup p.1 p.2).1 (GoMap.mem_range.1 hp)).1
        rw [hrest T hno, delta_of_not_reported hrep]
        cases m.reg.get T <;> simp

/-! ## What is left alone -/

section Setting

variable {env} {m : Manager} {T : String} {us : List User} {tn : Tenant}
variable {gone done rest : List (String × User)}

theorem Setting.mem_tenants (h : Setting env m T us tn gone done rest) : T ∈ m.tenants :=
  mem_tenants_of_get h.found

theorem Setting.statusOf_eq (h : Setting env m T us tn gone done rest) :
    m.statusOf T = some tn.status :=
  statusOf_of_get h.found

end Setting

/-- **Two states with the same indexes**, as far as users go. -/
structure SameIndexes (m m' : Manager) : Prop where
  users : m'.users = m.users
  emailTo : m'.emailTo = m.emailTo
  creds : m'.creds = m.creds

theorem SameIndexes.usersOf {m m' : Manager} (h : SameIndexes m m') (T : String) :
    m'.usersOf T = m.usersOf T := by
  unfold Manager.usersOf
  rw [h.users]

theorem SameIndexes.trans {m m' m'' : Manager} (h : SameIndexes m m') (h' : SameIndexes m' m'') :
    SameIndexes m m'' :=
  ⟨h'.users.trans h.users, h'.emailTo.trans h.emailTo, h'.creds.trans h.creds⟩

theorem statusOf_modify {f : Tenant → Tenant} (hf : ∀ t, (f t).id = t.id) {g : Status → Status}
    (hg : ∀ t, (f t).status = g t.status) (m : Manager) (saved : Bool) (id T : String) :
    statusOf { m with reg := (m.reg.modify saved id f).1 } T =
      if T = id then (m.statusOf id).map g else m.statusOf T := by
  show ((m.reg.modify saved id f).1.get T).map Tenant.status = _
  rw [Registry.get_modify hf]
  split_ifs
  · rw [statusOf, Option.map_map, Option.map_map]
    exact congrArg (fun h => (m.reg.get id).map h) (funext hg)
  · rfl

theorem statusOf_suspend (m : Manager) (saved : Bool) (id : String) (reason : Reason)
    (T : String) :
    statusOf { m with reg := (m.reg.suspend saved id reason).1 } T =
      if T = id then (m.statusOf id).map fun _ => .suspended else m.statusOf T :=
  statusOf_modify (f := Tenant.suspendedFor reason) (fun _ => rfl) (fun _ => rfl) m saved id T

theorem statusOf_resume (m : Manager) (saved : Bool) (id T : String) :
    statusOf { m with reg := (m.reg.resume saved id).1 } T =
      if T = id then (m.statusOf id).map fun _ => .active else m.statusOf T :=
  statusOf_modify (f := Tenant.resumed) (fun _ => rfl) (fun _ => rfl) m saved id T

theorem statusOf_resetPeriod (m : Manager) (saved : Bool) (id T : String) :
    statusOf { m with reg := (m.reg.resetPeriod saved id).1 } T =
      if T = id then (m.statusOf id).map fun _ => .active else m.statusOf T :=
  statusOf_modify (f := Tenant.renewed) (fun _ => rfl) (fun _ => rfl) m saved id T

theorem statusOf_setQuota (m : Manager) (saved : Bool) (id : String) (q c e : Int64)
    (T : String) :
    statusOf { m with reg := (m.reg.setQuota saved id q c e).1 } T = m.statusOf T := by
  refine (statusOf_modify (f := Tenant.requota q c e) (g := fun s => s) (fun _ => rfl)
    (fun _ => rfl) m saved id T).trans ?_
  split_ifs with h
  · rw [h, Option.map_id']
  · rfl

theorem statusOf_createTenant (m : Manager) (saved : Bool) (p : Registry.CreateParams)
    {T : String} (hT : m.statusOf T ≠ none) :
    statusOf { m with reg := (m.reg.createTenant saved p).1 } T = m.statusOf T := by
  show ((m.reg.createTenant saved p).1.get T).map Tenant.status = _
  rcases Registry.createTenant_cases m.reg saved p with hsame | ⟨hnew, hget⟩
  · rw [hsame]
    rfl
  · have hne : T ≠ p.id := by
      rintro rfl
      exact hT (by rw [statusOf, hnew]; rfl)
    rw [hget, if_neg hne]
    rfl

theorem statusOf_resumeTenant (m : Manager) (id T : String) :
    (m.resumeTenant X env id).1.statusOf T =
      if T = id then (m.statusOf id).map fun _ => .active else m.statusOf T := by
  refine Eq.trans ?_ (statusOf_resume m (env.save id) id T)
  rcases resumeTenant_cases X env m id with ⟨⟨err, h⟩, -⟩ | ⟨done, rest, err, -, -, -, h⟩
  · rw [h]
  · rw [h]
    rfl

theorem statusOf_resetTenant (m : Manager) (id : String) (saved : Bool) :
    (m.resetTenant X env id saved).1.statusOf id = (m.statusOf id).map fun _ => .active := by
  have hreset := statusOf_resetPeriod m saved id id
  rw [if_pos rfl] at hreset
  rcases resetTenant_cases X env m id saved with ⟨⟨err, heq⟩, -⟩ | heq
  · rw [heq]
    exact hreset
  · rw [heq, statusOf_resumeTenant, if_pos rfl, hreset, Option.map_map]
    rfl

theorem statusOf_account (m : Manager) (stats : List Stat) (T : String) :
    (m.account env stats).1.statusOf T = m.statusOf T := by
  rw [account_eq]
  exact addUsages_status _ _ _ _

theorem resumeTenant_frame (m : Manager) (T : String) :
    SameIndexes m (m.resumeTenant X env T).1 ∧
      (m.resumeTenant X env T).1.tenants = m.tenants := by
  have htenants : ∀ k, (m.reg.resume (env.save T) T).1.get k ≠ none ↔ m.reg.get k ≠ none :=
    Registry.get_modify_ne_none (f := Tenant.resumed) (fun _ => rfl) m.reg (env.save T) T
  rcases resumeTenant_cases X env m T with ⟨⟨err, h⟩, -⟩ | ⟨done, rest, err, -, -, -, h⟩
  · rw [h]
    exact ⟨⟨rfl, rfl, rfl⟩, Set.ext htenants⟩
  · rw [h]
    exact ⟨⟨rfl, rfl, rfl⟩, Set.ext htenants⟩

theorem applyConfig_frame (m : Manager) (configJSON : String) :
    SameIndexes m (m.applyConfig X env configJSON).1 ∧
      (m.applyConfig X env configJSON).1.reg = m.reg := by
  rcases applyConfig_cases X env m configJSON with ⟨err, h⟩ | ⟨x, -, h⟩
  · rw [h]
    exact ⟨⟨rfl, rfl, rfl⟩, rfl⟩
  · obtain ⟨L, err, heq, -⟩ := addTenantsToCore_rule X env (fun _ => True)
      ((env.order .tenants).run m.users.keys)
      { m with live := { m.live with core := some x }, config := configJSON }
      (fun _ _ _ _ _ _ _ => trivial) trivial
    rw [h, heq]
    exact ⟨⟨rfl, rfl, rfl⟩, rfl⟩

theorem enforce_frame (m : Manager) (now : Int64) :
    SameIndexes m (m.enforce X env now) ∧ (m.enforce X env now).tenants = m.tenants := by
  rw [enforce_eq]
  refine ⟨⟨rfl, rfl, rfl⟩, Set.ext fun k => ?_⟩
  show (m.reg.enforce _ _ now).1.get k ≠ none ↔ m.reg.get k ≠ none
  rw [Registry.get_enforce]
  simp

theorem account_frame (m : Manager) (stats : List Stat) :
    SameIndexes m (m.account env stats).1 ∧ (m.account env stats).1.tenants = m.tenants := by
  rw [account_eq]
  refine ⟨⟨rfl, rfl, rfl⟩, Set.ext fun k => ?_⟩
  have hstatus := addUsages_status env.save
    (GoMap.range (env.order .deltas) (deltasOf env m stats)) m.reg k
  show (addUsages _ _ m.reg).1.get k ≠ none ↔ m.reg.get k ≠ none
  rw [ne_eq, ne_eq, ← Option.map_eq_none_iff (f := Tenant.status), hstatus,
    Option.map_eq_none_iff]

theorem collectAndEnforce_frame (m : Manager) (now : Int64) :
    SameIndexes m (m.collectAndEnforce X env now).1 ∧
      (m.collectAndEnforce X env now).1.tenants = m.tenants := by
  rcases collectAndEnforce_cases X env m now with
    ⟨-, h⟩ | ⟨-, ⟨-, h⟩ | ⟨-, ⟨err, -, h⟩ | ⟨-, h⟩⟩⟩
  · rw [h]
    exact ⟨⟨rfl, rfl, rfl⟩, rfl⟩
  · rw [h]
    exact enforce_frame X env m now
  · rw [h]
    exact account_frame env m _
  · rw [h]
    obtain ⟨h₁, h₂⟩ := account_frame env m (m.answer env)
    obtain ⟨h₃, h₄⟩ := enforce_frame X env (m.account env (m.answer env)).1 now
    exact ⟨h₁.trans h₃, h₄.trans h₂⟩

/-- **The operations on no tenant's users keep the indexes**, and all of
them but a creation the tenants too. -/
theorem step_frame (m : Manager) (op : Op) (hop : op.onUsers = false) :
    SameIndexes m (m.step X (env, op)) ∧
      (op.onTenants = false → (m.step X (env, op)).tenants = m.tenants) := by
  have hreg : ∀ f : Tenant → Tenant, (∀ t, (f t).id = t.id) → ∀ saved id,
      SameIndexes m { m with reg := (m.reg.modify saved id f).1 } ∧
        ({ m with reg := (m.reg.modify saved id f).1 } : Manager).tenants = m.tenants :=
    fun _ hf saved id => ⟨⟨rfl, rfl, rfl⟩, Set.ext fun k =>
      Registry.get_modify_ne_none hf m.reg saved id k⟩
  cases op with
  | createTenant p => exact ⟨⟨rfl, rfl, rfl⟩, fun h => absurd h (by simp [Op.onTenants])⟩
  | setQuota id q c e =>
    obtain ⟨h₁, h₂⟩ := hreg (Tenant.requota q c e) (fun _ => rfl) (env.save id) id
    exact ⟨h₁, fun _ => h₂⟩
  | resetPeriod id =>
    obtain ⟨h₁, h₂⟩ := hreg Tenant.renewed (fun _ => rfl) (env.save id) id
    exact ⟨h₁, fun _ => h₂⟩
  | suspend id reason =>
    obtain ⟨h₁, h₂⟩ := hreg (Tenant.suspendedFor reason) (fun _ => rfl) (env.save id) id
    rcases suspendTenant_cases X env m id reason with ⟨⟨err, h⟩, -⟩ | h
    · exact ⟨by rw [step, exec, h]; exact h₁, fun _ => by rw [step, exec, h]; exact h₂⟩
    · exact ⟨by rw [step, exec, h]; exact ⟨rfl, rfl, rfl⟩, fun _ => by
        rw [step, exec, h]; exact h₂⟩
  | resume id =>
    obtain ⟨h₁, h₂⟩ := resumeTenant_frame X env m id
    exact ⟨h₁, fun _ => h₂⟩
  | reset id saved =>
    obtain ⟨h₁, h₂⟩ := hreg Tenant.renewed (fun _ => rfl) saved id
    obtain ⟨h₃, h₄⟩ := resumeTenant_frame X env
      { m with reg := (m.reg.resetPeriod saved id).1 } id
    show SameIndexes m (m.resetTenant X env id saved).1 ∧
      (_ → (m.resetTenant X env id saved).1.tenants = m.tenants)
    rcases resetTenant_cases X env m id saved with ⟨⟨err, heq⟩, -⟩ | heq
    · rw [heq]
      exact ⟨h₁, fun _ => h₂⟩
    · rw [heq]
      exact ⟨h₁.trans h₃, fun _ => h₄.trans h₂⟩
  | delete id => cases hop
  | setUsers id us => cases hop
  | addUsers id us => cases hop
  | applyConfig c =>
    obtain ⟨h₁, h₂⟩ := applyConfig_frame X env m c
    exact ⟨h₁, fun _ => by rw [tenants, tenants, step, exec, h₂]⟩
  | restartCore =>
    obtain ⟨h₁, h₂⟩ := applyConfig_frame X env m m.config
    show SameIndexes m (m.restartCore X env).1 ∧ (_ → (m.restartCore X env).1.tenants = m.tenants)
    unfold restartCore
    split
    · exact ⟨⟨rfl, rfl, rfl⟩, fun _ => rfl⟩
    · exact ⟨h₁, fun _ => by rw [tenants, tenants, h₂]⟩
  | stop => exact ⟨⟨rfl, rfl, rfl⟩, fun _ => rfl⟩
  | poll now =>
    obtain ⟨h₁, h₂⟩ := collectAndEnforce_frame X env m now
    exact ⟨h₁, fun _ => h₂⟩
  | coreRestart => exact ⟨⟨rfl, rfl, rfl⟩, fun _ => rfl⟩
  | traffic e up down => exact ⟨⟨rfl, rfl, rfl⟩, fun _ => rfl⟩

end Manager

end NodeAgent
