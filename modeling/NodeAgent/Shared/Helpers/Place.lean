import NodeAgent.Shared.Frame
import NodeAgent.Shared.Helpers.Sets
import NodeAgent.Xray.Helpers.Exact
/-!
# What a list of syncs puts on the core

Where nothing fails, a sync decides for its user's email on every inbound,
and for those that Xray does not tell from it; of several syncs for emails
of one form the last decides. The account it puts
there is a matter of the shape of the configuration, which no sync changes,
so the outcome of a whole list can be told from the state before it. Beside
who is live, the number of calls the core has had is followed: a sync calls
every inbound that takes users. What this needs of the core, a
configuration Xray takes, is so in every run, with or without failures.
-/

namespace NodeAgent

open History

variable {X : Externals} {env : Env}

/-! ## One sync -/

namespace Live

variable {L L' : Live} {u : User} {us : List User} {T : String}

/-- The shape of the running configuration. -/
def shape (L : Live) : Option (List Inbound) :=
  L.core.map fun x => x.config.shape

/-- The core, where there is one, has a configuration Xray takes. -/
def Sane (L : Live) : Prop :=
  ∀ x, L.core = some x → x.config.Sane

theorem Sane.congr (h : L.Sane) (hshape : L'.shape = L.shape) : L'.Sane := by
  intro y hy
  unfold shape at hshape
  rw [hy, Option.map_some] at hshape
  obtain ⟨x, hx, heq⟩ := Option.map_eq_some_iff.1 hshape.symm
  exact (h x hx).congr heq.symm

theorem Sane.of_none (h : L.core = none) : L.Sane := by
  intro x hx
  rw [h] at hx
  cases hx

theorem Sane.of_fresh (hX : X.Strict) {x : Xray} (hx : x.Fresh X) (h : L.core = some x) :
    L.Sane := by
  intro y hy
  obtain rfl := Option.some.inj (h.symm.trans hy)
  exact (Xray.Exact.of_fresh (K := ∅) hX hx).sane

/-- The account a sync puts under the user's email at a tag, if an inbound
has the tag. -/
def place (X : Externals) (L : Live) (u : User) (tag : String) : Option (Option Account) :=
  L.shape.bind fun shape => (shape.find? fun i => i.tag = tag).map fun i =>
    (i.accountOf X u).map i.accountForAPI

theorem shape_syncUser (L : Live) (T : String) (u : User) :
    (L.syncUser X env T u).1.shape = L.shape :=
  (touches_syncUser (E := fun _ => True) L T fun _ _ => trivial).running

variable (X env) in
theorem shape_syncs (L : Live) (T : String) (us : List User) :
    (L.syncs X env T us).shape = L.shape :=
  (touches_syncs (E := fun _ => True) L T fun _ _ _ _ => trivial).running

theorem shape_removeAll (L : Live) (l : List (String × User)) :
    (L.removeAll X env l).shape = L.shape :=
  (touches_removeAll (E := fun _ => True) L fun _ _ _ _ => trivial).running

/-- **For an email the last sync of its form decides**, if each of them
settles what the user has at the tag, or none of them does. -/
theorem on_syncs_of_step {place : User → Option (Option Account)} {tag e : String}
    (hplace : ∀ u v, place u = none ↔ place v = none)
    (hstep : ∀ pre v, pre ++ [v] <+: us →
      ((L.syncs X env T pre).syncUser X env T v).1.on tag e =
        if X.table.key e = X.table.key v.email then
          ((place v).map fun a => v.leaves a e).getD ((L.syncs X env T pre).on tag e)
        else (L.syncs X env T pre).on tag e) :
    (L.syncs X env T us).on tag e =
      ((latest (fun u => X.table.key e = X.table.key u.email) us).bind fun u =>
        (place u).map fun a => u.leaves a e).getD (L.on tag e) := by
  induction us using List.reverseRecOn with
  | nil => rfl
  | append_singleton us v ih =>
    have hlast : L.syncs X env T (us ++ [v]) =
        ((L.syncs X env T us).syncUser X env T v).1 := by
      rw [Live.syncs, List.foldl_append]
      rfl
    rw [hlast, hstep us v (List.prefix_refl _), latest_concat,
      ih fun pre w hpre => hstep pre w (hpre.trans (List.prefix_append ..))]
    by_cases he : X.table.key e = X.table.key v.email
    · simp only [he, decide_true, if_true, Option.bind_some]
      -- at a tag of no inbound nobody had decided anything before either
      cases hv : place v with
      | some a => rfl
      | none =>
        cases latest (fun u => X.table.key v.email = X.table.key u.email) us with
        | none => rfl
        | some u => simp [(hplace u v).2 hv]
    · simp [he]

/-- The calls the core has had. -/
def calls (L : Live) : ℕ :=
  (L.core.map fun x => x.process.calls).getD 0

end Live

/-! ## The users of a list -/

namespace Manager

variable {m m' m'' : Manager} {T : String}

theorem latest_range {s : GoMap String User} (hs : ∀ x u, s.lookup x = some u → u.email = x)
    (o : Order String) (e : String) :
    latest (fun u => u.email = e) ((GoMap.range o s).map Prod.snd) = s.lookup e := by
  cases hlast : latest (fun u : User => u.email = e) ((GoMap.range o s).map Prod.snd) with
  | none =>
    cases hu : s.lookup e with
    | none => rfl
    | some u =>
      have hmem : u ∈ (GoMap.range o s).map Prod.snd :=
        List.mem_map.2 ⟨(e, u), GoMap.mem_range.2 hu, rfl⟩
      exact absurd (decide_eq_true (hs e u hu)) (latest_eq_none_iff.1 hlast u hmem)
  | some u =>
    obtain ⟨hmem, he⟩ := mem_of_latest hlast
    obtain ⟨p, hp, rfl⟩ := List.mem_map.1 hmem
    have hlookup := GoMap.mem_range.1 hp
    have hkey : p.1 = e := (hs p.1 p.2 hlookup).symm.trans (of_decide_eq_true he)
    rw [← hkey, hlookup]

theorem latest_incoming (m : Manager) (T : String) (us : List User) (e : String) :
    latest (fun u => u.email = e) ((m.incoming T us).map Prod.snd) =
      (latest (fun p => p.1 = e) (m.incoming T us)).map Prod.snd := by
  rw [incoming, List.map_map, latest_map, latest_map, Option.map_map]
  rfl

theorem lookup_newSet_eq (m : Manager) (T : String) (us : List User) (e : String) :
    (m.newSet T us).lookup e = latest (fun u => u.email = e) ((m.incoming T us).map Prod.snd) := by
  rw [newSet_eq, GoMap.lookup_insertAll, latest_incoming]
  exact Option.or_none

/-! ## Along a run -/

/-- **What every operation keeps**: the inbounds users are forced on, and
that the core runs a configuration Xray takes. -/
structure Keeps (m m' : Manager) : Prop where
  forceInbounds : m'.forceInbounds = m.forceInbounds
  sane : m.live.Sane → m'.live.Sane

theorem Keeps.trans (h : Keeps m m') (h' : Keeps m' m'') : Keeps m m'' :=
  ⟨h'.forceInbounds.trans h.forceInbounds, h'.sane ∘ h.sane⟩

theorem Keeps.of_shape (hforce : m'.forceInbounds = m.forceInbounds)
    (hshape : m'.live.shape = m.live.shape) : Keeps m m' :=
  ⟨hforce, fun h => h.congr hshape⟩

theorem Keeps.refl (m : Manager) : Keeps m m :=
  Keeps.of_shape rfl rfl

theorem keeps_suspendTenant (m : Manager) (T : String) (reason : Reason) :
    Keeps m (m.suspendTenant X env T reason).1 := by
  rcases suspendTenant_cases X env m T reason with ⟨⟨err, heq⟩, -⟩ | heq
  · rw [heq]
    exact Keeps.of_shape rfl rfl
  · rw [heq]
    exact Keeps.of_shape rfl (Live.shape_removeAll ..)

theorem keeps_resumeTenant (m : Manager) (T : String) :
    Keeps m (m.resumeTenant X env T).1 := by
  rcases resumeTenant_cases X env m T with ⟨⟨err, heq⟩, -⟩ | ⟨done, rest, err, -, -, -, heq⟩
  · rw [heq]
    exact Keeps.of_shape rfl rfl
  · rw [heq]
    exact Keeps.of_shape rfl (Live.shape_syncs ..)

theorem keeps_deleteTenant (m : Manager) (T : String) : Keeps m (m.deleteTenant X env T).1 := by
  by_cases hno : m.reg.get T = none ∨ env.save T = false
  · obtain ⟨err, heq⟩ := deleteTenant_refused X hno
    rw [heq]
    exact Keeps.of_shape rfl (Live.shape_removeAll ..)
  · rw [not_or, Bool.not_eq_false] at hno
    obtain ⟨t, hget⟩ := Option.ne_none_iff_exists'.1 hno.1
    rw [deleteTenant_eq hget hno.2, forget_eq]
    exact Keeps.of_shape rfl (Live.shape_removeAll ..)

variable (X env) in
theorem keeps_changed (m : Manager) (active : Bool) (T : String)
    (gone done : List (String × User)) : Keeps m (m.changed X env active T gone done) := by
  refine Keeps.of_shape rfl ?_
  cases active with
  | false => exact Live.shape_removeAll ..
  | true => exact (Live.shape_syncs ..).trans (Live.shape_removeAll ..)

theorem keeps_setTenantUsers (m : Manager) (T : String) (us : List User) :
    Keeps m (m.setTenantUsers X env T us).1 := by
  rcases setTenantUsers_cases X env m T us with
    ⟨err, heq⟩ | ⟨tn, gone, done, rest, -, ⟨err, heq, -⟩ | ⟨-, heq⟩⟩
  · rw [heq]
    exact Keeps.refl m
  · rw [heq]
    exact keeps_changed ..
  · rw [heq]
    have hchanged := keeps_changed X env m (tn.status = .active) T gone done
    exact ⟨hchanged.forceInbounds, hchanged.sane⟩

theorem keeps_addTenantUsers (m : Manager) (T : String) (us : List User) :
    Keeps m (m.addTenantUsers X env T us).1 := by
  rcases addTenantUsers_cases X env m T us with ⟨err, heq⟩ | ⟨tn, -, heq⟩
  · rw [heq]
    exact Keeps.refl m
  · rw [heq]
    refine mergeUsers_rule (m := m.opened T) (I := Keeps m)
      (fun m' u _ hm' _ => hm'.trans (Keeps.of_shape rfl ?_)) (Keeps.of_shape rfl rfl)
    by_cases hact : tn.status = .active
    · simpa [takeOn, hact] using Live.shape_syncUser m'.live T _
    · simp [takeOn, hact]

theorem keeps_applyConfig (hX : X.Strict) (m : Manager) (configJSON : String) :
    Keeps m (m.applyConfig X env configJSON).1 := by
  rcases applyConfig_cases X env m configJSON with ⟨err, heq⟩ | ⟨x, hx, heq⟩
  · rw [heq]
    exact ⟨rfl, fun _ => Live.Sane.of_none rfl⟩
  · obtain ⟨L, err, hres, hL⟩ := addTenantsToCore_rule X env Live.Sane
      ((env.order .tenants).run m.users.keys)
      { m with live := { m.live with core := some x }, config := configJSON }
      (fun T _ u L _ _ hL => hL.congr (Live.shape_syncUser L T u)) (Live.Sane.of_fresh hX hx rfl)
    rw [heq, hres]
    exact ⟨rfl, fun _ => hL⟩

theorem keeps_enforce (m : Manager) (now : Int64) : Keeps m (m.enforce X env now) := by
  rw [enforce_eq]
  exact Keeps.of_shape rfl (Live.shape_removeAll ..)

theorem keeps_collectAndEnforce (m : Manager) (now : Int64) :
    Keeps m (m.collectAndEnforce X env now).1 := by
  have haccount : Keeps m (m.account env (m.answer env)).1 := by
    rw [account_eq]
    exact Keeps.of_shape rfl rfl
  rcases collectAndEnforce_cases X env m now with
    ⟨-, heq⟩ | ⟨-, ⟨-, heq⟩ | ⟨-, ⟨err, -, heq⟩ | ⟨-, heq⟩⟩⟩
  · rw [heq]
    exact Keeps.refl m
  · rw [heq]
    exact keeps_enforce m now
  · rw [heq]
    exact haccount
  · rw [heq]
    exact haccount.trans (keeps_enforce _ now)

theorem keeps_mapCore (m : Manager) {f : Xray → Xray}
    (hf : ∀ x, (f x).config.shape = x.config.shape) : Keeps m (m.mapCore f) := by
  refine Keeps.of_shape rfl ?_
  show (m.live.core.map f).map _ = _
  rw [Option.map_map]
  exact congrArg (fun g => m.live.core.map g) (funext hf)

/-- **One step.** -/
theorem keeps_step (hX : X.Strict) (m : Manager) (l : Env × Op) : Keeps m (m.step X l) := by
  obtain ⟨env, op⟩ := l
  cases op with
  | suspend T reason => exact keeps_suspendTenant m T reason
  | resume T => exact keeps_resumeTenant m T
  | reset T saved =>
    rcases resetTenant_cases X env m T saved with ⟨⟨err, heq⟩, -⟩ | heq
    · rw [step, exec, heq]
      exact Keeps.of_shape rfl rfl
    · rw [step, exec, heq]
      have hrenewed : Keeps m { m with reg := (m.reg.resetPeriod saved T).1 } :=
        Keeps.of_shape rfl rfl
      exact hrenewed.trans (keeps_resumeTenant _ T)
  | delete T => exact keeps_deleteTenant m T
  | setUsers T us => exact keeps_setTenantUsers m T us
  | addUsers T us => exact keeps_addTenantUsers m T us
  | applyConfig c => exact keeps_applyConfig hX m c
  | restartCore =>
    show Keeps m (m.restartCore X env).1
    unfold restartCore
    split
    · exact Keeps.refl m
    · exact keeps_applyConfig hX m m.config
  | stop => exact ⟨rfl, fun _ => Live.Sane.of_none rfl⟩
  | poll now => exact keeps_collectAndEnforce m now
  | coreRestart => exact keeps_mapCore m fun _ => rfl
  | traffic e up down => exact keeps_mapCore m fun _ => rfl
  | _ => exact Keeps.of_shape rfl rfl

end Manager

end NodeAgent
