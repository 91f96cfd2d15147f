import NodeAgent.Shared.Helpers.Cases
import NodeAgent.Shared.Helpers.Live
/-!
# Does one tenant's failure stay its own?

A poll bills every tenant with usage and then suspends those that are due.
The loop over the usage returns at the first tenant whose usage cannot be
added, so what the others get depends on the order of a map, and nobody is
suspended that time; and without a core nobody is suspended at all. The
poll isolates failures exactly when there are none to isolate, or when
there was nothing to do anyway.
-/

namespace NodeAgent

variable {X : Externals} {env : Env} {m : Manager} {now : Int64}

/-- **One poll does for every tenant what it should**: it adds to each
tenant whose usage can be added what the readings show for it, and it
suspends each active one that is due once that is added, and takes its
users off the core. -/
structure PollIsolates (X : Externals) (env : Env) (m : Manager) (now : Int64) : Prop where
  billed : ∀ T t, m.reg.get T = some t → env.save T = true →
    ((m.collectAndEnforce X env now).1.reg.get T).map Tenant.usedBytes =
      some (t.bill (m.delta (m.readings env) T)).usedBytes
  suspended : ∀ T t, m.reg.get T = some t → (t.bill (m.delta (m.readings env) T)).Due now →
    (m.collectAndEnforce X env now).1.statusOf T = some .suspended ∧
      ∀ x u, (m.usersOf T).lookup x = some u → ∀ tag ∈ m.live.tags,
        (m.collectAndEnforce X env now).1.live.on tag u.email = none

/-- No reported tenant's usage is refused. -/
def NoneRefused (env : Env) (m : Manager) : Prop :=
  ∀ T, m.Reported (m.readings env) T → m.reg.get T ≠ none ∧ env.save T = true

/-- Nothing is to be added to the tenants whose usage can be added, and
nobody is due. -/
def NothingToDo (env : Env) (m : Manager) (now : Int64) : Prop :=
  ∀ T t, m.reg.get T = some t →
    (env.save T = true → (t.bill (m.delta (m.readings env) T)).usedBytes = t.usedBytes) ∧
      ¬ (t.bill (m.delta (m.readings env) T)).Due now

theorem pollIsolates_of_noneRefused (hr : env.RemovesOk) (hcore : m.live.core ≠ none)
    (hok : NoneRefused env m) : PollIsolates X env m now := by
  obtain ⟨r, heq, hr'⟩ := Manager.collectAndEnforce_ok X env hcore hok now
  have hget : ∀ T, (m.collectAndEnforce X env now).1.reg.get T =
      ((m.reg.get T).map (Tenant.bill (m.delta (m.readings env) T))).map
        (Tenant.enforced now) := by
    intro T
    rw [heq, Manager.enforce_eq]
    exact (Registry.get_enforce r _ _ now T).trans (by rw [hr'])
  refine ⟨fun T t ht _ => ?_, fun T t ht hdue => ⟨?_, fun x u hu tag htag => ?_⟩⟩
  · rw [hget, ht]
    exact congrArg some (Tenant.enforced_usedBytes now _)
  · rw [Manager.statusOf, hget, ht]
    show some (Tenant.enforced now _).status = _
    rw [Tenant.enforced, if_pos hdue]
  · have hid : T ∈ (r.enforce (env.order .byID) env.enforceSave now).2.map
        fun c => c.tenant.id := by
      refine (Registry.mem_enforce_iff r _ _ now T).2 ⟨_, ?_, hdue⟩
      rw [hr', ht]
      rfl
    rw [heq, Manager.enforce_eq]
    refine (Live.on_removeAll hr _ m.live tag u.email).trans (if_pos ⟨⟨(x, u), ?_, rfl⟩, htag⟩)
    exact List.mem_flatMap.2 ⟨T, hid, GoMap.mem_range.2 hu⟩

theorem exists_refused (hbad : ¬ NoneRefused env m) :
    ∃ T, m.Reported (m.readings env) T ∧ (m.reg.get T = none ∨ env.save T = false) := by
  by_contra hno
  refine hbad fun T hrep => ?_
  by_contra hfail
  refine hno ⟨T, hrep, ?_⟩
  by_contra hboth
  rw [not_or] at hboth
  exact hfail ⟨hboth.1, by simpa using hboth.2⟩

variable (X env now) in
theorem collectAndEnforce_refused (hcore : m.live.core ≠ none) (hbad : ¬ NoneRefused env m) :
    m.readings env = Manager.currentOf (m.answer env) ∧
      (m.collectAndEnforce X env now).1 = (m.account env (m.answer env)).1 := by
  obtain ⟨T, hrep, hrefused⟩ := exists_refused hbad
  rcases Manager.collectAndEnforce_cases X env m now with
    ⟨hnone, -⟩ | ⟨-, ⟨hstats, -⟩ | ⟨hstats, hacc⟩⟩
  · exact absurd hnone hcore
  · -- without an answer nobody is reported
    obtain ⟨email, he, -⟩ := hrep
    simp [Manager.readings, hstats] at he
  · have hread : m.readings env = Manager.currentOf (m.answer env) := if_pos hstats
    refine ⟨hread, ?_⟩
    rcases hacc with ⟨err, -, heq⟩ | ⟨hnone, -⟩
    · rw [heq]
    · -- the loop would have had to get past the refused tenant
      rw [hread] at hrep
      have hmem : (T, m.delta _ T) ∈ GoMap.range (env.order .deltas)
          (Manager.deltasOf env m (m.answer env)) :=
        GoMap.mem_range.2 ((Manager.lookup_deltasOf env m _ T _).2 ⟨hrep, rfl⟩)
      exact absurd hnone (Manager.addUsages_ne_none (GoMap.range_nodup _ _) hmem hrefused)

theorem pollIsolates_of_nothingToDo (hr : env.RemovesOk) (h : NothingToDo env m now) :
    PollIsolates X env m now := by
  by_cases hcore : m.live.core = none
  · have heq : (m.collectAndEnforce X env now).1 = m := by
      simp [Manager.collectAndEnforce, hcore]
    refine ⟨fun T t ht hsave => ?_, fun T t ht hdue => absurd hdue (h T t ht).2⟩
    rw [heq, ht, (h T t ht).1 hsave]
    rfl
  · by_cases hok : NoneRefused env m
    · exact pollIsolates_of_noneRefused hr hcore hok
    · obtain ⟨hread, heq⟩ := collectAndEnforce_refused X env now hcore hok
      refine ⟨fun T t ht hsave => ?_, fun T t ht hdue => absurd hdue (h T t ht).2⟩
      have hused := (h T t ht).1 hsave
      rw [heq, Manager.account_eq, hused]
      rcases Manager.addUsages_get_or env.save
        (GoMap.range_nodup (env.order .deltas) (Manager.deltasOf env m (m.answer env))) m.reg T with
        hsame | ⟨d, hd, hbill⟩
      · show ((Manager.addUsages _ _ _).1.get T).map _ = _
        rw [hsame, ht]
        rfl
      · have hdelta := ((Manager.lookup_deltasOf env m _ T d).1 (GoMap.mem_range.1 hd)).2
        show ((Manager.addUsages _ _ _).1.get T).map _ = _
        rw [hbill, ht, hdelta, ← hread]
        exact congrArg some hused

/-- The surroundings with other orders of the loops. -/
def Env.reorder (env : Env) (order : Site → Order String) : Env :=
  { env with order := order }

/-- The orders of the loops with another one for the usage. -/
def Env.orderUsage (env : Env) (o : Order String) : Site → Order String
  | .deltas => o
  | site => env.order site

theorem PollIsolates.nothingToDo {env' : Env} (h : PollIsolates X env' m now)
    (hsave : env'.save = env.save) (hread : m.readings env' = m.readings env)
    (hused : ∀ T t, m.reg.get T = some t → env.save T = true →
      (m.collectAndEnforce X env' now).1.reg.get T = some t)
    (hstatus : ∀ T, (m.collectAndEnforce X env' now).1.statusOf T = m.statusOf T) :
    NothingToDo env m now := by
  intro T t ht
  rw [← hread]
  refine ⟨fun hT => ?_, fun hdue => ?_⟩
  · have hbilled := h.billed T t ht (by rw [hsave]; exact hT)
    rw [hused T t ht hT] at hbilled
    exact (Option.some.inj hbilled).symm
  · have hsuspended := (h.suspended T t ht hdue).1
    have hactive : t.status = .active := hdue.1
    rw [hstatus, Manager.statusOf, ht, Option.map_some, hactive] at hsuspended
    cases hsuspended

variable (X now) in
/-- **In some order a refused usage keeps everybody else from theirs**: the
one in which it comes first. -/
theorem exists_order_of_refused (hcore : m.live.core ≠ none) (hbad : ¬ NoneRefused env m) :
    ∃ order, (∀ T t, m.reg.get T = some t → env.save T = true →
        (m.collectAndEnforce X (env.reorder order) now).1.reg.get T = some t) ∧
      ∀ T, (m.collectAndEnforce X (env.reorder order) now).1.statusOf T = m.statusOf T := by
  obtain ⟨T₀, hrep, hrefused⟩ := exists_refused hbad
  rw [(collectAndEnforce_refused X env now hcore hbad).1] at hrep
  obtain ⟨o, rest, ho⟩ := GoMap.exists_range_cons
    ((Manager.lookup_deltasOf env m (m.answer env) T₀ _).2 ⟨hrep, rfl⟩)
  obtain ⟨-, hothers⟩ := Manager.addUsages_fail env.save
    (p := (T₀, m.delta (Manager.currentOf (m.answer env)) T₀)) rest hrefused
  rw [← ho] at hothers
  obtain ⟨-, heq⟩ :=
    collectAndEnforce_refused X (env.reorder (env.orderUsage o)) now hcore hbad
  refine ⟨env.orderUsage o, fun T t ht hsave => ?_, fun T => ?_⟩
  · have hne : T ≠ T₀ := by
      rintro rfl
      rcases hrefused with h | h
      · rw [ht] at h; cases h
      · rw [hsave] at h; cases h
    rw [heq, Manager.account_eq, ← ht]
    exact hothers T hne
  · rw [heq, Manager.statusOf_account]

/-- **A poll isolates failures in every order exactly when** the core runs
and no usage is refused, or there is nothing to do. -/
theorem poll_isolates_iff (hr : env.RemovesOk) :
    (∀ order, PollIsolates X (env.reorder order) m now) ↔
      m.live.core ≠ none ∧ NoneRefused env m ∨ NothingToDo env m now := by
  constructor
  · intro h
    by_cases hcore : m.live.core = none
    · have heq : (m.collectAndEnforce X (env.reorder env.order) now).1 = m := by
        simp [Manager.collectAndEnforce, hcore]
      refine Or.inr ((h env.order).nothingToDo rfl rfl (fun T t ht _ => ?_) fun T => ?_)
      · rw [heq, ht]
      · rw [heq]
    · by_cases hok : NoneRefused env m
      · exact Or.inl ⟨hcore, hok⟩
      · obtain ⟨order, hused, hstatus⟩ := exists_order_of_refused X now hcore hok
        exact Or.inr ((h order).nothingToDo rfl rfl hused hstatus)
  · rintro (⟨hcore, hok⟩ | hquiet) order
    · exact pollIsolates_of_noneRefused hr hcore hok
    · exact pollIsolates_of_nothingToDo hr hquiet

/-- Two tenants with traffic, the second over a quota it has just been
given. -/
def Demo.twoTenants : Manager :=
  Demo.run [.setUsers "a" [Demo.user "x" "one"], .setUsers "b" [Demo.user "x" "two"],
    .setQuota "b" 15 0 0, .traffic "ta.x" 10 0, .traffic "tb.x" 20 0] (Demo.node ["a", "b"])

/-- Surroundings in which no write of one tenant goes through, and the loop
over the usage runs the other way round. -/
def Demo.unwritable (id : String) : Env :=
  { Env.calm with
    save := fun T => T ≠ id
    order := fun site => match site with
      | .deltas => .reversed
      | _ => .given }

/-- The write of one tenant fails: another is not billed the bytes that
were read for it, stays active over its limit, and its user stays live. -/
theorem poll_stops_at_failed_write :
    let m := Demo.twoTenants
    let env := Demo.unwritable "a"
    let m' := (m.collectAndEnforce Demo.externals env 1).1
    env.save "b" = true ∧ m.delta (m.readings env) "b" = 20 ∧
      (m'.reg.get "b").map Tenant.usedBytes = some 0 ∧ m'.last "tb.x" = 20 ∧
      m'.statusOf "b" = some .active ∧ m'.live.on "in" "tb.x" ≠ none ∧
      ¬ PollIsolates Demo.externals env m 1 := by
  refine ⟨by decide, by decide, by decide, by decide, by decide, by decide, fun h => ?_⟩
  have hbilled := h.billed "b" _ rfl rfl
  exact absurd hbilled (by decide)

/-- With every write going through, both are billed and the one over its
limit is suspended. -/
theorem poll_isolates_when_written :
    PollIsolates Demo.externals (Env.calm.reorder fun _ => .reversed) Demo.twoTenants 1 := by
  have hok : NoneRefused .calm Demo.twoTenants := by
    intro T hrep
    obtain ⟨email, he, hto⟩ := hrep
    have hkeys : (Demo.twoTenants.readings .calm).keys = ["ta.x", "tb.x"] := by decide
    rw [hkeys] at he
    refine ⟨?_, rfl⟩
    rcases List.mem_cons.1 he with rfl | he
    · obtain rfl : "a" = T := Option.some.inj (show some "a" = some T from hto)
      decide
    · obtain rfl := List.mem_singleton.1 he
      obtain rfl : "b" = T := Option.some.inj (show some "b" = some T from hto)
      decide
  exact (@poll_isolates_iff Demo.externals .calm Demo.twoTenants 1 fun _ => rfl).2
    (Or.inl ⟨by decide, hok⟩) _

end NodeAgent
