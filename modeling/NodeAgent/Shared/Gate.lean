import NodeAgent.Shared.Helpers.Live
import NodeAgent.Shared.Coherence
/-!
# The suspension gate

Nobody should be live for a tenant that is not active. A suspension
removes the users in the tenant's recorded set, so the gate holds as long
as everyone live for a tenant is in that set: `Gated`. Failing adds do not
harm it — but for a `SetTenantUsers` that puts new users into the core and
then fails before it records them.
-/

namespace NodeAgent

variable {X : Externals} {env : Env} {m : Manager} {T : String} {us : List User}

/-- The tenant is active and has the email. -/
def Manager.Serves (m : Manager) (T email : String) : Prop :=
  m.statusOf T = some .active ∧ email ∈ (m.usersOf T).keys

/-- **Everyone live is in the recorded set of an active tenant.** -/
structure Gated (m : Manager) : Prop where
  keyed : ∀ T x u, (m.usersOf T).lookup x = some u → u.email = x
  placed : m.live.Placed m.Serves

/-- **A step the gate is proved for**: removals succeed, the core is not
restarted behind the manager's back, a `SetTenantUsers` that may fail half
way names recorded emails only, and a suspension is written to the
store. -/
structure GateStep (m : Manager) (l : Env × Op) : Prop where
  removes : l.1.RemovesOk
  noRestart : l.2 ≠ .coreRestart
  recorded : ∀ T us, l.2 = .setUsers T us → m.statusOf T = some .active → m.live.core ≠ none →
    l.1.AddsOk ∨ ∀ x ∈ (m.newSet T us).keys, x ∈ (m.usersOf T).keys
  saved : ∀ T reason, l.2 = .suspend T reason → l.1.save T = true

namespace Gated

theorem of_same (h : Gated m) {m' : Manager} (hlive : m'.live = m.live)
    (husers : m'.users = m.users)
    (hstatus : ∀ T, m.statusOf T = some .active → m'.statusOf T = some .active) : Gated m' := by
  have hof : m'.usersOf = m.usersOf := by
    funext T
    rw [Manager.usersOf, husers]
    rfl
  refine ⟨by rw [hof]; exact h.keyed, ?_⟩
  rw [hlive]
  refine h.placed.mono fun T e hs => ⟨hstatus T hs.1, ?_⟩
  rw [hof]
  exact hs.2

theorem placed_removeTenant (h : Gated m) (hr : env.RemovesOk) (T : String) :
    (m.live.removeAll X env (GoMap.range (env.order (.tenantUsers T)) (m.usersOf T))).Placed
      fun T' e => m.Serves T' e ∧ T' ≠ T := by
  refine (h.placed.removeAll hr _).mono fun T' e hs => ⟨hs.1, ?_⟩
  rintro rfl
  exact notMem_of_range (h.keyed T') (fun p hp => (hs.2 p hp).symm) hs.1.2

theorem suspendTenant (h : Gated m) (hr : env.RemovesOk) (hsave : env.save T = true)
    (reason : Reason) : Gated (m.suspendTenant X env T reason).1 := by
  rcases Manager.suspendTenant_cases X env m T reason with ⟨⟨err, heq⟩, hbad⟩ | heq
  · -- the write goes through, so the tenant is not known and nothing has changed
    have hnone : m.reg.get T = none := hbad.resolve_right (by simp [hsave])
    rw [heq]
    refine h.of_same rfl rfl fun T' hact => ?_
    rw [Manager.statusOf_suspend]
    split_ifs with hT
    · rw [hT, Manager.statusOf, hnone] at hact
      cases hact
    · exact hact
  · rw [heq]
    refine ⟨h.keyed, (h.placed_removeTenant hr T).mono fun T' e hs => ⟨?_, hs.1.2⟩⟩
    exact (Manager.statusOf_suspend m (env.save T) T reason T').trans
      ((if_neg hs.2).trans hs.1.1)

theorem resetPeriod (h : Gated m) (saved : Bool) (id : String) :
    Gated { m with reg := (m.reg.resetPeriod saved id).1 } := by
  refine h.of_same rfl rfl fun T hact => ?_
  rw [Manager.statusOf_resetPeriod]
  split_ifs with hT
  · rw [← hT, hact]
    rfl
  · exact hact

theorem resumeTenant (h : Gated m) (T : String) : Gated (m.resumeTenant X env T).1 := by
  have hstatus : ∀ T', m.statusOf T' = some .active →
      Manager.statusOf { m with reg := (m.reg.resume (env.save T) T).1 } T' = some .active := by
    intro T' hact
    rw [Manager.statusOf_resume]
    split_ifs with hT
    · rw [← hT, hact]
      rfl
    · exact hact
  rcases Manager.resumeTenant_cases X env m T with
    ⟨⟨err, heq⟩, -⟩ | ⟨done, rest, err, hl, -, hknown, heq⟩
  · rw [heq]
    exact h.of_same rfl rfl hstatus
  · rw [heq]
    refine ⟨h.keyed, ?_⟩
    refine Live.Placed.syncs (h.placed.mono fun T' e hs => ⟨hstatus T' hs.1, hs.2⟩) ?_
    intro u hu
    obtain ⟨p, hp, rfl⟩ := List.mem_map.1 hu
    have hin : p ∈ GoMap.range (env.order (.tenantUsers T)) (m.usersOf T) := by
      rw [hl]
      exact List.mem_append_left _ hp
    refine ⟨(Manager.statusOf_resume m (env.save T) T T).trans ?_,
      email_of_mem_range (h.keyed T) hin⟩
    rw [if_pos rfl, Manager.statusOf, Option.map_map]
    obtain ⟨t, ht⟩ := Option.ne_none_iff_exists'.1 hknown
    rw [ht]
    rfl

theorem deleteTenant (h : Gated m) (hr : env.RemovesOk) (T : String) :
    Gated (m.deleteTenant X env T).1 := by
  have hplaced := placed_removeTenant (X := X) h hr T
  rcases Manager.deleteTenant_cases X env m T with ⟨⟨err, heq⟩, -⟩ | hdel
  · -- refused: the users are off the core all the same
    rw [heq]
    exact ⟨h.keyed, hplaced.mono fun T' e hs => hs.1⟩
  · refine ⟨fun T' x u hu => ?_, ?_⟩
    · rw [hdel.usersOf, Function.update_apply] at hu
      split_ifs at hu
      · simp at hu
      · exact h.keyed T' x u hu
    · rw [hdel.live]
      refine hplaced.mono fun T' e hs => ⟨?_, ?_⟩
      · rw [Manager.statusOf, hdel.get, if_neg hs.2]
        exact hs.1.1
      · rw [hdel.usersOf, Function.update_of_ne hs.2]
        exact hs.1.2

section Setting

variable {tn : Tenant} {gone done rest : List (String × User)}

/-- However far a `SetTenantUsers` gets, the live users are among those
that were there and are not dropped, and those it has synced itself. -/
theorem placed_changed (h : Gated m) (hr : env.RemovesOk)
    (hset : Manager.Setting env m T us tn gone done rest) {own : String → String → Prop}
    (hkept : ∀ T' e, m.Serves T' e → e ∉ gone.map Prod.fst → own T' e)
    (hnew : tn.status = .active → ∀ p ∈ done, own T p.1) :
    (m.changed X env (tn.status = .active) T gone done).live.Placed own := by
  have hremoved : (m.live.removeAll X env gone).Placed own := by
    refine (h.placed.removeAll hr gone).mono fun T' e hs => hkept T' e hs.1 fun hmem => ?_
    obtain ⟨p, hp, rfl⟩ := List.mem_map.1 hmem
    exact hs.2 p hp (h.keyed T p.1 p.2 ((hset.mem_gone p).1 hp).1).symm
  by_cases hact : tn.status = .active
  · have hsyncs : ((m.live.removeAll X env gone).syncs X env T (done.map Prod.snd)).Placed own := by
      refine hremoved.syncs fun u hu => ?_
      obtain ⟨p, hp, rfl⟩ := List.mem_map.1 hu
      rw [(Coherent.keyed_newSet (hset.lookup_of_mem_done hp)).1]
      exact hnew hact p hp
    simpa [Manager.changed, hact] using hsyncs
  · simpa [Manager.changed, hact] using hremoved

theorem setTenantUsers (h : Gated m) (hl : GateStep m (env, .setUsers T us)) :
    Gated (m.setTenantUsers X env T us).1 := by
  rcases Manager.setTenantUsers_cases X env m T us with
    ⟨err, heq⟩ | ⟨tn, gone, done, rest, hset, ⟨err, heq, hact, hcore, hadd⟩ | ⟨rfl, heq⟩⟩
  · rw [heq]
    exact h
  · -- the set stays the old one, and the guard has the new emails in it
    have hstatus : m.statusOf T = some .active := hact ▸ hset.statusOf_eq
    have hrec := (hl.recorded T us rfl hstatus hcore).resolve_left hadd
    rw [heq]
    refine ⟨h.keyed, h.placed_changed hl.removes hset (fun T' e hs _ => hs) fun _ p hp => ?_⟩
    refine ⟨hstatus, hrec p.1 (GoMap.mem_keys_iff.2 ⟨p.2, ?_⟩)⟩
    exact hset.lookup_of_mem_done hp
  · have hof : Manager.usersOf { m.changed X env (tn.status = .active) T gone done with
        users := m.users.insert T (m.newSet T us) } =
          Function.update m.usersOf T (m.newSet T us) := m.usersOf_insert T (m.newSet T us)
    rw [heq]
    refine ⟨fun T' x u hu => ?_, ?_⟩
    · rw [hof, Function.update_apply] at hu
      split_ifs at hu
      · exact (Coherent.keyed_newSet hu).1
      · exact h.keyed T' x u hu
    · refine h.placed_changed hl.removes hset (fun T' e hs hgone => ⟨hs.1, ?_⟩)
        fun hact p hp => ⟨?_, ?_⟩
      · -- who was served and is not dropped is in the new set
        rw [hof, Function.update_apply]
        split_ifs with hT
        · subst hT
          by_contra hno
          exact hgone (hset.mem_gone_keys_iff.2 ⟨hs.2, hno⟩)
        · exact hs.2
      · exact hact ▸ hset.statusOf_eq
      · rw [hof, Function.update_self]
        exact GoMap.mem_keys_iff.2 ⟨p.2, hset.lookup_of_mem_done hp⟩

end Setting

/-- **A user merged in** is recorded before it is synced. -/
theorem takeOn (h : Gated m) {active : Bool}
    (hact : active = true → m.statusOf T = some .active) (u : User) :
    Gated (m.takeOn X env active T u) := by
  have hof := Manager.usersOf_takeOn X env m active T u
  -- the set has grown by the user, and the statuses are the same
  have hkeep : ∀ T' e, m.Serves T' e → (m.takeOn X env active T u).Serves T' e := by
    rintro T' e ⟨hstatus, hmem⟩
    refine ⟨hstatus, ?_⟩
    rw [hof, Function.update_apply]
    split_ifs with hT
    · subst hT
      rw [← AList.mem_keys, AList.mem_insert]
      exact Or.inr (AList.mem_keys.2 hmem)
    · exact hmem
  have hnew : u.email ∈ ((m.takeOn X env active T u).usersOf T).keys := by
    rw [hof, Function.update_self, ← AList.mem_keys, AList.mem_insert]
    exact Or.inl rfl
  refine ⟨fun T' x v hv => ?_, ?_⟩
  · rw [hof, Function.update_apply] at hv
    split_ifs at hv
    · rw [GoMap.lookup_insert_eq] at hv
      split_ifs at hv with hx
      · rw [← Option.some.inj hv, hx]
      · exact h.keyed T x v hv
    · exact h.keyed T' x v hv
  · have hplaced := h.placed.mono hkeep
    cases active with
    | false => exact hplaced
    | true => exact hplaced.syncUser ⟨hact rfl, hnew⟩

theorem addTenantUsers (h : Gated m) (T : String) (us : List User) :
    Gated (m.addTenantUsers X env T us).1 := by
  rcases Manager.addTenantUsers_cases X env m T us with ⟨err, heq⟩ | ⟨tn, hget, heq⟩
  · rw [heq]
    exact h
  · have hof := m.usersOf_opened T
    have hopen : Gated (m.opened T) := by
      refine ⟨by rw [hof]; exact h.keyed, h.placed.mono fun T' e hs => ⟨hs.1, ?_⟩⟩
      rw [hof]
      exact hs.2
    have hstatus : decide (tn.status = .active) = true → (m.opened T).statusOf T = some .active :=
      fun hact => (Manager.active_iff_of_get (m := m.opened T) hget).2 (of_decide_eq_true hact)
    rw [heq]
    exact (Manager.mergeUsers_rule (I := fun m' => Gated m' ∧
        (decide (tn.status = .active) = true → m'.statusOf T = some .active))
      (fun m' v _ hm' _ => ⟨hm'.1.takeOn hm'.2 _, hm'.2⟩) ⟨hopen, hstatus⟩).1

theorem applyConfig (h : Gated m) (configJSON : String) :
    Gated (m.applyConfig X env configJSON).1 := by
  rcases Manager.applyConfig_cases X env m configJSON with ⟨err, heq⟩ | ⟨x, hx, heq⟩
  · -- no core has come up, so nobody is live
    rw [heq]
    exact ⟨h.keyed, Live.Placed.of_none rfl⟩
  · have hsync : ∀ T x u (L : Live), m.statusOf T = some .active →
        (m.usersOf T).lookup x = some u → L.Placed m.Serves →
        (L.syncUser X env T u).1.Placed m.Serves := by
      intro T x u L hact hu hL
      refine hL.syncUser ⟨hact, ?_⟩
      rw [h.keyed T x u hu]
      exact GoMap.mem_keys_iff.2 ⟨u, hu⟩
    obtain ⟨L, err, hres, hL⟩ := Manager.addTenantsToCore_rule X env (Live.Placed m.Serves)
      ((env.order .tenants).run m.users.keys)
      { m with live := { m.live with core := some x }, config := configJSON }
      hsync (Live.Placed.of_fresh hx rfl)
    rw [heq, hres]
    exact ⟨h.keyed, hL⟩

theorem enforce (h : Gated m) (hr : env.RemovesOk) (now : Int64) :
    Gated (m.enforce X env now) := by
  rw [Manager.enforce_eq]
  refine ⟨h.keyed, (h.placed.removeAll hr _).mono fun T e hs => ⟨?_, hs.1.2⟩⟩
  show ((m.reg.enforce (env.order .byID) env.enforceSave now).1.get T).map Tenant.status = _
  have hstatus : (m.reg.get T).map Tenant.status = some .active := hs.1.1
  rw [Registry.get_enforce]
  obtain ⟨t, ht, hact⟩ := Option.map_eq_some_iff.1 hstatus
  -- a tenant that was due has lost its users, so it had none live
  have hdue : ¬ t.Due now := by
    intro hdue
    have hid := (Registry.mem_enforce_iff m.reg (env.order .byID) env.enforceSave now T).2
      ⟨t, ht, hdue⟩
    exact notMem_of_range (h.keyed T)
      (fun p hp => (hs.2 p (List.mem_flatMap.2 ⟨T, hid, hp⟩)).symm) hs.1.2
  rw [ht, Option.map_some, Option.map_some, Tenant.enforced_active_iff.2 ⟨hact, hdue⟩]

theorem collectAndEnforce (h : Gated m) (hr : env.RemovesOk) (now : Int64) :
    Gated (m.collectAndEnforce X env now).1 := by
  have haccount : ∀ stats, Gated (m.account env stats).1 := by
    intro stats
    refine h.of_same (by rw [Manager.account_eq]) (by rw [Manager.account_eq]) fun T hact => ?_
    rw [Manager.statusOf_account, hact]
  -- no core; no answer; a usage refused; all billed
  rcases Manager.collectAndEnforce_cases X env m now with
    ⟨-, heq⟩ | ⟨-, ⟨-, heq⟩ | ⟨-, ⟨err, -, heq⟩ | ⟨-, heq⟩⟩⟩
  · rw [heq]; exact h
  · rw [heq]; exact h.enforce hr now
  · rw [heq]; exact haccount _
  · rw [heq]; exact (haccount _).enforce hr now

/-- **One step.** -/
theorem step (h : Gated m) {l : Env × Op} (hl : GateStep m l) : Gated (m.step X l) := by
  obtain ⟨env, op⟩ := l
  cases op with
  | createTenant p =>
    refine h.of_same rfl rfl fun T hact => ?_
    exact (Manager.statusOf_createTenant m (env.save p.id) p (by rw [hact]; simp)).trans hact
  | setQuota id q c e =>
    refine h.of_same rfl rfl fun T hact => ?_
    exact (Manager.statusOf_setQuota m (env.save id) id q c e T).trans hact
  | resetPeriod id => exact h.resetPeriod (env.save id) id
  | suspend id reason => exact h.suspendTenant hl.removes (hl.saved id reason rfl) reason
  | resume id => exact h.resumeTenant id
  | reset id saved =>
    show Gated (m.resetTenant X env id saved).1
    rcases Manager.resetTenant_cases X env m id saved with ⟨⟨err, heq⟩, -⟩ | heq
    · rw [heq]
      exact h.resetPeriod saved id
    · rw [heq]
      exact (h.resetPeriod saved id).resumeTenant id
  | delete id => exact h.deleteTenant hl.removes id
  | setUsers id us => exact h.setTenantUsers hl
  | addUsers id us => exact h.addTenantUsers id us
  | applyConfig c => exact h.applyConfig c
  | restartCore =>
    show Gated (m.restartCore X env).1
    unfold Manager.restartCore
    split
    · exact h
    · exact h.applyConfig m.config
  | stop => exact ⟨h.keyed, Live.Placed.of_none rfl⟩
  | poll now => exact h.collectAndEnforce hl.removes now
  | coreRestart => exact absurd rfl hl.noRestart
  | traffic email up down =>
    refine ⟨h.keyed, fun tag e hon => ?_⟩
    have hsame : ∀ t e, Live.on (m.step X (env, .traffic email up down)).live t e =
        m.live.on t e := by
      intro t e
      show ((m.live.core.map _).bind _) = _
      rw [Option.bind_map]
      rfl
    have htags : Live.tags (m.step X (env, .traffic email up down)).live = m.live.tags := by
      show ((m.live.core.map _).map _).getD [] = _
      rw [Option.map_map]
      rfl
    rw [hsame] at hon
    rw [htags]
    exact h.placed tag e hon

end Gated

/-- **The suspension gate**: along a run of such steps, whoever is live is
live for a tenant that is registered and active. -/
theorem gate_along_run {reg : Registry} {force : List String}
    (h : Runs.Path (Manager.step X) GateStep (Manager.new reg force) m) :
    ∀ tag email, m.live.on tag email ≠ none →
      ∃ T, m.live.placedFor email = some T ∧ m.statusOf T = some .active := by
  have hm : Gated m := by
    refine h.invariant (I := Gated) (fun _ _ hm hl => hm.step hl) ⟨?_, Live.Placed.of_none rfl⟩
    intro T x u hu
    simp [Manager.usersOf, Manager.new] at hu
  intro tag email hon
  obtain ⟨-, T, hT, hs⟩ := hm.placed tag email hon
  exact ⟨T, hT, hs.1⟩

/-- Two users are set and the add of the one visited second is refused; the
tenant is then suspended, and the other user is live still. -/
theorem gate_open_after_failed_set :
    let us := [Demo.user "x" "one", Demo.user "y" "two"]
    let m := (Demo.node ["a"]).step Demo.externals (Demo.refusing 3, .setUsers "a" us)
    let m' := m.step Demo.externals (.calm, .suspend "a" .manual)
    (Demo.refusing 3).RemovesOk ∧ Env.calm.RemovesOk ∧
      (m.suspendTenant Demo.externals .calm "a" .manual).2 = none ∧
      m'.statusOf "a" = some .suspended ∧
      m'.live.placedFor "ta.y" = some "a" ∧ m'.live.on "in" "ta.y" ≠ none := by
  refine ⟨fun _ => rfl, fun _ => rfl, ?_⟩
  decide

/-- A user set without a failure is off the core once its tenant is
suspended. -/
theorem gate_closed_after_set :
    let m := Demo.run [.setUsers "a" [Demo.user "x" "one"], .suspend "a" .manual]
      (Demo.node ["a"])
    m.live.on "in" "ta.x" = none := by
  have hcalm : ∀ (m : Manager) op, op ≠ .coreRestart → GateStep m (.calm, op) := fun m op hop =>
    ⟨fun _ => rfl, hop, fun _ _ _ _ _ => Or.inl fun _ => rfl, fun _ _ _ => rfl⟩
  have hrun := gate_along_run (X := Demo.externals) (.snoc _ (.snoc _ (.snoc _
    (.refl (s := Manager.new (Demo.registry ["a"]) [])) (hcalm _ (.applyConfig "config") (by simp)))
    (hcalm _ (.setUsers "a" [Demo.user "x" "one"]) (by simp)))
    (hcalm _ (.suspend "a" .manual) (by simp)))
  intro m
  by_contra hon
  obtain ⟨T, hT, hact⟩ := hrun "in" "ta.x" hon
  have hplaced : m.live.placedFor "ta.x" = some "a" := by decide
  obtain rfl : "a" = T := Option.some.inj (hplaced.symm.trans hT)
  exact absurd hact (by decide)

end NodeAgent
