import NodeAgent.Shared.Helpers.Sets
import NodeAgent.Shared.Coherence
import Mathlib.Tactic.Tauto
/-!
# Which credentials are given back

The index of credentials is meant to hold the credentials in use and no
others. Users that leave a set take theirs with them, and so do the users
of a tenant that is deleted; but a user that stays under its email with
another credential leaves the old one behind, and nobody but its tenant
can have that again. What a step gives back is worked out here for the two
ways of changing a set and for a deletion at once: some users go, some are
indexed, and a set takes the place of another.
-/

namespace NodeAgent

variable {X : Externals} {env : Env} {m m' : Manager} {T c : String} {us : List User}

/-- A credential of one of a list of users. -/
def CarriedBy (l : List (String × User)) (c : String) : Prop :=
  ∃ p ∈ l, c ∈ userCredentials p.2

instance (l : List (String × User)) (c : String) : Decidable (CarriedBy l c) :=
  inferInstanceAs (Decidable (∃ p ∈ l, c ∈ userCredentials p.2))

variable {s : GoMap String User}

theorem carriedBy_range {o : Order String} :
    CarriedBy (GoMap.range o s) c ↔ CarriedIn s c := by
  constructor
  · rintro ⟨p, hp, hc⟩
    exact ⟨p.1, p.2, GoMap.mem_range.1 hp, hc⟩
  · rintro ⟨x, u, hu, hc⟩
    exact ⟨(x, u), GoMap.mem_range.2 hu, hc⟩

theorem not_carriedBy_nil (c : String) : ¬ CarriedBy [] c :=
  fun ⟨_, hp, _⟩ => absurd hp (List.not_mem_nil)

theorem not_carriedIn_empty (c : String) : ¬ CarriedIn ∅ c := by
  rintro ⟨x, u, hu, -⟩
  cases hu

theorem indexAll_ne_none (creds : GoMap String String) (l : List (String × User)) :
    (indexAll creds l).lookup c ≠ none ↔ CarriedBy l c ∨ creds.lookup c ≠ none := by
  rcases lookup_indexAll l creds c with ⟨p, hp, hc, heq⟩ | ⟨hno, heq⟩
  · rw [heq]
    exact ⟨fun _ => Or.inl ⟨p, hp, hc⟩, fun _ => by simp⟩
  · rw [heq]
    refine ⟨Or.inr, fun h => h.resolve_left ?_⟩
    rintro ⟨p, hp, hc⟩
    exact hno p hp hc

theorem eraseKeys_ne_none (creds : GoMap String String) (l : List (String × User)) :
    (GoMap.eraseKeys creds (l.flatMap fun p => userCredentials p.2)).lookup c ≠ none ↔
      ¬ CarriedBy l c ∧ creds.lookup c ≠ none := by
  rw [GoMap.lookup_eraseKeys]
  have hmem : (c ∈ l.flatMap fun p => userCredentials p.2) ↔ CarriedBy l c := List.mem_flatMap
  split_ifs with hc
  · simp [hmem.1 hc]
  · simp [mt hmem.2 hc]

namespace Manager

/-- A credential some user carries. -/
def Carried (m : Manager) (c : String) : Prop :=
  ∃ T, CarriedIn (m.usersOf T) c

/-- A credential a user of another tenant carries. -/
def CarriedElsewhere (m : Manager) (T c : String) : Prop :=
  ∃ T', T' ≠ T ∧ CarriedIn (m.usersOf T') c

/-- A credential of a user whose email is not in a new set. -/
def Leaves (m : Manager) (T : String) (s : GoMap String User) (c : String) : Prop :=
  ∃ x u, (m.usersOf T).lookup x = some u ∧ s.lookup x = none ∧ c ∈ userCredentials u

/-- **The index holds the credentials in use and no others.** -/
def Released (m : Manager) : Prop :=
  ∀ c, m.creds.lookup c ≠ none ↔ m.Carried c

theorem carried_iff (T : String) :
    m.Carried c ↔ CarriedIn (m.usersOf T) c ∨ m.CarriedElsewhere T c := by
  constructor
  · rintro ⟨T', h⟩
    by_cases hT : T' = T
    · exact Or.inl (hT ▸ h)
    · exact Or.inr ⟨T', hT, h⟩
  · rintro (h | ⟨T', -, h⟩)
    · exact ⟨T, h⟩
    · exact ⟨T', h⟩

theorem carried_update_iff (husers : m'.usersOf = Function.update m.usersOf T s) :
    m'.Carried c ↔ CarriedIn s c ∨ m.CarriedElsewhere T c := by
  have helsewhere : m'.CarriedElsewhere T c ↔ m.CarriedElsewhere T c :=
    exists_congr fun T' => and_congr_right fun hT' => by rw [husers, Function.update_of_ne hT']
  rw [carried_iff T, helsewhere, husers, Function.update_self]

/-- **What a change of a set gives back.** Users go, others are indexed,
and the set is another: the index is still right if and only if, for every
credential, it is in the index for one of those reasons exactly when the
new set or another tenant has it. -/
theorem released_change_iff (h : m.Released) {gone done : List (String × User)}
    (husers : m'.usersOf = Function.update m.usersOf T s)
    (hcreds : m'.creds = indexAll (GoMap.eraseKeys m.creds
      (gone.flatMap fun p => userCredentials p.2)) done) :
    m'.Released ↔ ∀ c,
      (CarriedBy done c ∨
          ¬ CarriedBy gone c ∧ (CarriedIn (m.usersOf T) c ∨ m.CarriedElsewhere T c)) ↔
        CarriedIn s c ∨ m.CarriedElsewhere T c := by
  refine forall_congr' fun c => ?_
  rw [carried_update_iff husers, hcreds, indexAll_ne_none, eraseKeys_ne_none, h c, carried_iff T]

/-! ## The three operations -/

theorem released_set_iff (h : m.Released) (ha : env.AddsOk) :
    (m.setTenantUsers X env T us).1.Released ↔
      (m.reg.get T ≠ none → m.Admissible T (m.newSet T us) → ∀ c,
        CarriedIn (m.usersOf T) c → ¬ CarriedIn (m.newSet T us) c →
          (m.Leaves T (m.newSet T us) c ↔ ¬ m.CarriedElsewhere T c)) := by
  by_cases hno : m.reg.get T = none ∨ ¬ m.Admissible T (m.newSet T us)
  · obtain ⟨err, heq⟩ := setTenantUsers_refused X env hno
    rw [heq]
    refine ⟨fun _ hget hs => ?_, fun _ => h⟩
    exact absurd hno (by simp [hget, hs])
  · rw [not_or, not_not] at hno
    obtain ⟨tn, hget⟩ := Option.ne_none_iff_exists'.1 hno.1
    have hgone : ∀ c, CarriedBy (m.stale env T (m.newSet T us)) c ↔
        m.Leaves T (m.newSet T us) c := by
      intro c
      constructor
      · rintro ⟨p, hp, hc⟩
        exact ⟨p.1, p.2, (mem_stale.1 hp).1, (mem_stale.1 hp).2, hc⟩
      · rintro ⟨x, u, hu, hx, hc⟩
        exact ⟨(x, u), mem_stale.2 ⟨hu, hx⟩, hc⟩
    have hold : ∀ c, m.Leaves T (m.newSet T us) c → CarriedIn (m.usersOf T) c :=
      fun c ⟨x, u, hu, _, hc⟩ => ⟨x, u, hu, hc⟩
    rw [setTenantUsers_eq ha hget hno.2,
      released_change_iff h (usersOf_replaced m _ T _ _ _) rfl]
    simp only [carriedBy_range, hgone]
    constructor
    · intro hall _ _ c hin hnew
      have := hall c
      tauto
    · intro hall c
      have := hall hno.1 hno.2 c
      have := hold c
      tauto

theorem released_add_iff (h : m.Released) (ha : env.AddsOk) :
    (m.addTenantUsers X env T us).1.Released ↔
      (m.reg.get T ≠ none → ∀ c,
        CarriedIn (m.usersOf T) c ∨ CarriedBy (m.incoming T (m.mergeable T us)) c →
          CarriedIn (GoMap.insertAll (m.usersOf T) (m.incoming T (m.mergeable T us))) c ∨
            m.CarriedElsewhere T c) := by
  cases hget : m.reg.get T with
  | none =>
    have hsame : (m.addTenantUsers X env T us).1 = m := by simp [addTenantUsers, hget]
    rw [hsame]
    exact ⟨fun _ hyes => absurd rfl hyes, fun _ => h⟩
  | some tn =>
    have hfrom : ∀ c,
        CarriedIn (GoMap.insertAll (m.usersOf T) (m.incoming T (m.mergeable T us))) c →
          CarriedIn (m.usersOf T) c ∨ CarriedBy (m.incoming T (m.mergeable T us)) c := by
      rintro c ⟨x, u, hu, hc⟩
      rcases GoMap.mem_of_lookup_insertAll hu with hmem | hold
      · exact Or.inr ⟨(x, u), hmem, hc⟩
      · exact Or.inl ⟨x, u, hold, hc⟩
    rw [addTenantUsers_eq ha hget,
      released_change_iff h (usersOf_replaced m _ T _ _ _) rfl]
    constructor
    · intro hall _ c hc
      have := hall c
      have := not_carriedBy_nil c
      tauto
    · intro hall c
      have := hall (by simp) c
      have := hfrom c
      have := not_carriedBy_nil c
      tauto

theorem released_delete_iff (h : m.Released) :
    (m.deleteTenant X env T).1.Released ↔
      (m.reg.get T ≠ none → env.save T = true → ∀ c,
        CarriedIn (m.usersOf T) c → ¬ m.CarriedElsewhere T c) := by
  by_cases hno : m.reg.get T = none ∨ env.save T = false
  · obtain ⟨err, heq⟩ := deleteTenant_refused X hno
    rw [heq]
    refine ⟨fun _ hget hsave => ?_, fun _ => h⟩
    exact absurd hno (by simp [hget, hsave])
  · rw [not_or, Bool.not_eq_false] at hno
    obtain ⟨t, hget⟩ := Option.ne_none_iff_exists'.1 hno.1
    have husers : (m.deleteTenant X env T).1.usersOf = Function.update m.usersOf T ∅ := by
      rcases deleteTenant_cases X env m T with ⟨⟨err, heq⟩, -⟩ | hdel
      · rw [deleteTenant_eq hget hno.2] at heq
        cases congrArg Prod.snd heq
      · exact hdel.usersOf
    have hcreds : (m.deleteTenant X env T).1.creds = indexAll (GoMap.eraseKeys m.creds
        ((GoMap.range (env.order .stale) (m.usersOf T)).flatMap fun p => userCredentials p.2))
          [] := by
      rw [deleteTenant_eq hget hno.2, forget_eq]
      rfl
    rw [released_change_iff h husers hcreds]
    simp only [carriedBy_range]
    constructor
    · intro hall _ _ c
      have := hall c
      have := not_carriedBy_nil c
      have := not_carriedIn_empty c
      tauto
    · intro hall c
      have := hall hno.1 hno.2 c
      have := not_carriedBy_nil c
      have := not_carriedIn_empty c
      tauto

theorem takes_uncarried (h : m.Released) (ha : env.AddsOk) (hT : m.reg.get T ≠ none)
    (hfree : ∀ u ∈ us, ∀ c ∈ userCredentials u, ¬ m.Carried c) :
    (m.addTenantUsers X env T us).2 = none ∧
      ((∀ u ∈ us, ∀ v ∈ us, u.email ≠ v.email → ∀ c ∈ userCredentials u, c ∉ userCredentials v) →
        (m.setTenantUsers X env T us).2 = none) := by
  have hnone : ∀ u ∈ us, ∀ c ∈ userCredentials u, m.creds.lookup c = none := fun u hu c hc =>
    not_not.1 (mt (h c).1 (hfree u hu c hc))
  refine ⟨(addTenantUsers_ok_iff X m T us ha).2 ⟨hT, fun u hu => ?_⟩, fun hdistinct =>
    (setTenantUsers_ok_iff X m T us ha).2 ⟨hT, ?_, ?_⟩⟩
  · refine List.any_eq_false.2 fun c hc => ?_
    rw [hnone u hu c hc]
    simp
  · intro x u hu c hc owner howner
    obtain ⟨v, hv, -, rfl⟩ := lookup_newSet hu
    cases (hnone v hv c hc).symm.trans howner
  · intro x u y v hu hv c hc hc'
    obtain ⟨w, hw, rfl, rfl⟩ := lookup_newSet hu
    obtain ⟨w', hw', rfl, rfl⟩ := lookup_newSet hv
    by_contra hne
    exact hdistinct w hw w' hw' (fun heq => hne (by rw [heq])) c hc hc'

end Manager

/-! ## Runs -/

/-- **A step that gives back what is no longer in use.** For a new set:
a credential of the old set that the new one does not carry is one of a
user who leaves, and no other tenant's. For a merge: every credential of
the set and of the users merged is still carried by the set they end up
in. For a deletion: no other tenant carries a credential of the users who
go. -/
def ReleasingStep (m : Manager) : Env × Op → Prop
  | (_, .setUsers T us) =>
    m.reg.get T ≠ none → m.Admissible T (m.newSet T us) → ∀ c,
      CarriedIn (m.usersOf T) c → ¬ CarriedIn (m.newSet T us) c →
        (m.Leaves T (m.newSet T us) c ↔ ¬ m.CarriedElsewhere T c)
  | (_, .addUsers T us) =>
    m.reg.get T ≠ none → ∀ c,
      CarriedIn (m.usersOf T) c ∨ CarriedBy (m.incoming T (m.mergeable T us)) c →
        CarriedIn (GoMap.insertAll (m.usersOf T) (m.incoming T (m.mergeable T us))) c ∨
          m.CarriedElsewhere T c
  | (env, .delete T) =>
    m.reg.get T ≠ none → env.save T = true → ∀ c,
      CarriedIn (m.usersOf T) c → ¬ m.CarriedElsewhere T c
  | _ => True

/-- **One step.** -/
theorem Manager.released_step_iff (h : m.Released) {l : Env × Op} (ha : l.1.AddsOk) :
    (m.step X l).Released ↔ ReleasingStep m l := by
  have hframe : ∀ {op : Op}, op.onUsers = false → (m.step X (l.1, op)).Released := by
    intro op hop c
    have hsame := (Manager.step_frame X l.1 m op hop).1
    rw [hsame.creds, h c]
    exact exists_congr fun T => by rw [hsame.usersOf]
  obtain ⟨env, op⟩ := l
  cases op with
  | setUsers T us => exact released_set_iff h ha
  | addUsers T us => exact released_add_iff h ha
  | delete T => exact released_delete_iff h
  | _ => exact iff_of_true (hframe rfl) trivial

/-- **Credentials are given back along every run of steps that do**, and
then every tenant can have a credential nobody carries; a step that does
not leaves one behind, or takes one that is still in use. -/
theorem credentials_released_along_run {reg : Registry} {force : List String}
    (h : Runs.Path (Manager.step X)
      (fun m l => l.1.AddsOk ∧ l.1.RemovesOk ∧ ReleasingStep m l) (Manager.new reg force) m) :
    (∀ c, m.creds.lookup c ≠ none ↔ m.Carried c) ∧
      (∀ env T us, env.AddsOk → m.reg.get T ≠ none →
        (∀ u ∈ us, ∀ c ∈ userCredentials u, ¬ m.Carried c) →
        (m.addTenantUsers X env T us).2 = none ∧
          ((∀ u ∈ us, ∀ v ∈ us, u.email ≠ v.email →
              ∀ c ∈ userCredentials u, c ∉ userCredentials v) →
            (m.setTenantUsers X env T us).2 = none)) ∧
      ∀ l : Env × Op, l.1.AddsOk → l.1.RemovesOk →
        ((∀ c, (m.step X l).creds.lookup c ≠ none ↔ (m.step X l).Carried c) ↔
          ReleasingStep m l) := by
  have hm : m.Released := by
    refine h.invariant (I := Manager.Released) (fun m l hm hl => ?_) fun c => ?_
    · exact (Manager.released_step_iff hm hl.1).2 hl.2.2
    · -- nothing is indexed at the start, and nobody is there
      refine ⟨fun hno => absurd rfl hno, ?_⟩
      rintro ⟨T, x, u, hu, -⟩
      cases hu
  exact ⟨hm, fun env T us ha hT hfree => Manager.takes_uncarried hm ha hT hfree,
    fun l ha _ => Manager.released_step_iff hm ha⟩

theorem Demo.usersOf_run {ids : List String} {ops : List Op} {T' : String} (hT : T' ≠ T)
    (hops : ∀ op ∈ ops, ∃ us, op = .setUsers T us) :
    (Demo.run ops (Manager.new (Demo.registry ids) [])).usersOf T' = ∅ := by
  refine List.foldlRecOn (motive := fun m : Manager => m.usersOf T' = ∅) ops _ rfl
    fun m hm op hop => ?_
  obtain ⟨us, rfl⟩ := hops op hop
  exact ((Manager.takenFrom_setTenantUsers _ _ m T us).others T' hT).trans hm

/-- A user leaves, and another tenant has the password. -/
theorem password_after_user_left :
    let m := Demo.run [.setUsers "a" [Demo.user "x" "one"], .setUsers "a" []]
      (Manager.new (Demo.registry ["a", "b"]) [])
    m.creds.lookup "trojan:one" = none ∧
      (m.setTenantUsers Demo.externals .calm "b" [Demo.user "y" "one"]).2 = none := by
  intro m
  have hfirst : ReleasingStep (Manager.new (Demo.registry ["a", "b"]) [])
      (.calm, .setUsers "a" [Demo.user "x" "one"]) := by
    rintro - - c ⟨x, u, hu, -⟩
    cases hu
  have hsecond : ReleasingStep (Demo.run [.setUsers "a" [Demo.user "x" "one"]]
      (Manager.new (Demo.registry ["a", "b"]) [])) (.calm, .setUsers "a" []) := by
    rintro - - c ⟨x, u, hu, hc⟩ -
    refine iff_of_true ⟨x, u, hu, rfl, hc⟩ ?_
    rintro ⟨T', hT', y, v, hv, -⟩
    rw [Demo.usersOf_run hT' (by simp)] at hv
    cases hv
  have hpath : Runs.Path (Manager.step Demo.externals)
      (fun m l => l.1.AddsOk ∧ l.1.RemovesOk ∧ ReleasingStep m l)
      (Manager.new (Demo.registry ["a", "b"]) []) m :=
    .snoc _ (.snoc _ .refl ⟨fun _ => rfl, fun _ => rfl, hfirst⟩)
      ⟨fun _ => rfl, fun _ => rfl, hsecond⟩
  have hfree : ∀ c, ¬ m.Carried c := by
    rintro c ⟨T, x, u, hu, -⟩
    by_cases hT : T = "a"
    · subst hT
      cases hu
    · rw [Demo.usersOf_run hT (by simp)] at hu
      cases hu
  obtain ⟨hindex, htakes, -⟩ := credentials_released_along_run hpath
  exact ⟨not_not.1 (mt (hindex "trojan:one").1 (hfree _)),
    (htakes .calm "b" [Demo.user "y" "one"] (fun _ => rfl) (by decide)
      fun _ _ c _ => hfree c).2 (by decide)⟩

/-- **A password that is changed is kept from everybody else**: the user
has another, nobody carries the old one, and another tenant that asks for
it is told it is in use. -/
theorem password_left_behind :
    let m := Demo.run [.setUsers "a" [Demo.user "x" "one"], .setUsers "a" [Demo.user "x" "two"]]
      (Manager.new (Demo.registry ["a", "b"]) [])
    m.creds.lookup "trojan:one" = some "ta.x" ∧ ¬ m.Carried "trojan:one" ∧
      (m.setTenantUsers Demo.externals .calm "b" [Demo.user "y" "one"]).2 =
        some .credentialInUse ∧
      (m.addTenantUsers Demo.externals .calm "b" [Demo.user "y" "one"]).2 =
        some .credentialInUse := by
  intro m
  refine ⟨by decide, ?_, by decide, by decide⟩
  rintro ⟨T, hin⟩
  by_cases hT : T = "a"
  · rw [hT] at hin
    exact absurd (carriedBy_range (o := .given) |>.2 hin) (by decide)
  · obtain ⟨x, u, hu, -⟩ := hin
    rw [Demo.usersOf_run hT (by simp)] at hu
    cases hu

end NodeAgent
