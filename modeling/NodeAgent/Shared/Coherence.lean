import NodeAgent.Shared.Helpers.Cases
import NodeAgent.Shared.Namespace
/-!
# The indexes agree

The manager says four times over who its users are: in each tenant's set,
in the index of emails, in the index of credentials, and in the registry.
`Agree` is what it takes for the four to fit together, of any tenants,
sets and indexes; three rules say how it is kept — a tenant more, a set
replaced, a tenant without users gone — and every operation of the manager
is an instance of them. The one exception is a `SetTenantUsers` that a
failing sync ends half way: it has changed the indexes and not the set,
and is an instance only if the set named the same emails all along.
-/

namespace NodeAgent

open GoStrings

/-! ## Indexes that agree -/

/-- **Tenants, their user sets, an index of emails and an index of
credentials agree.** -/
structure Agree (S : Set String) (U : String → GoMap String User)
    (E C : String → Option String) : Prop where
  /-- Tenants can be told apart. -/
  prefixFree : PrefixFree S
  /-- Only tenants have users. -/
  registered : ∀ T x, x ∈ (U T).keys → T ∈ S
  /-- A user sits under its own email, which is one of its tenant's. -/
  keyed : ∀ T x u, (U T).lookup x = some u → u.email = x ∧ hasPrefix x (tenantPrefix T) = true
  /-- An email is indexed to the tenant that has it. -/
  indexed : ∀ x T, E x = some T ↔ T ∈ S ∧ x ∈ (U T).keys
  /-- A credential is indexed to an email of the tenant whose user
  carries it. -/
  owned : ∀ T x u, (U T).lookup x = some u → ∀ c ∈ userCredentials u,
    ∃ o ∈ (U T).keys, C c = some o

namespace Agree

variable {S : Set String} {U : String → GoMap String User} {E C F D : String → Option String}
variable {T T' x : String}

theorem hasPrefix_of_mem (h : Agree S U E C) (hx : x ∈ (U T).keys) :
    hasPrefix x (tenantPrefix T) = true := by
  obtain ⟨u, hu⟩ := GoMap.mem_keys_iff.1 hx
  exact (h.keyed T x u hu).2

theorem eq_of_mem (h : Agree S U E C) (hT : T ∈ S) (hx : hasPrefix x (tenantPrefix T) = true)
    (hx' : x ∈ (U T').keys) : T = T' :=
  h.prefixFree.eq_of_hasPrefix hT (h.registered T' x hx') hx (h.hasPrefix_of_mem hx')

/-- **No credential is carried by users of two tenants.** -/
theorem exclusive (h : Agree S U E C) {x' : String} {u u' : User} {c : String}
    (hu : (U T).lookup x = some u) (hc : c ∈ userCredentials u)
    (hu' : (U T').lookup x' = some u') (hc' : c ∈ userCredentials u') : T = T' := by
  obtain ⟨o, ho, hown⟩ := h.owned T x u hu c hc
  obtain ⟨o', ho', hown'⟩ := h.owned T' x' u' hu' c hc'
  obtain rfl : o = o' := Option.some.inj (hown.symm.trans hown')
  exact h.eq_of_mem (h.registered T o ho) (h.hasPrefix_of_mem ho) ho'

theorem of_empty (hS : PrefixFree S) (hU : ∀ T, U T = ∅) (hE : ∀ x, E x = none) :
    Agree S U E C := by
  refine ⟨hS, ?_, ?_, ?_, ?_⟩
  · intro T x hx
    simp [hU] at hx
  · intro T x u hu
    simp [hU] at hu
  · intro x T
    simp [hU, hE]
  · intro T x u hu
    simp [hU] at hu

theorem create (h : Agree S U E C) (hS : PrefixFree (insert T S)) :
    Agree (insert T S) U E C := by
  refine ⟨hS, fun T' x hx => Set.mem_insert_of_mem _ (h.registered T' x hx), h.keyed, ?_, h.owned⟩
  intro x T'
  refine (h.indexed x T').trans ⟨fun hT' => ⟨Set.mem_insert_of_mem _ hT'.1, hT'.2⟩, ?_⟩
  rintro ⟨-, hx⟩
  exact ⟨h.registered T' x hx, hx⟩

theorem remove (h : Agree S U E C) (hT : (U T).keys = []) : Agree (S \ {T}) U E C := by
  have hne : ∀ {T' x}, x ∈ (U T').keys → T' ≠ T := by
    rintro T' x hx rfl
    rw [hT] at hx
    exact absurd hx (List.not_mem_nil)
  refine ⟨h.prefixFree.mono Set.sdiff_subset, fun T' x hx => ⟨h.registered T' x hx, hne hx⟩,
    h.keyed, ?_, h.owned⟩
  intro x T'
  refine (h.indexed x T').trans ⟨fun hT' => ⟨⟨hT'.1, hne hT'.2⟩, hT'.2⟩, ?_⟩
  rintro ⟨⟨hT', -⟩, hx⟩
  exact ⟨hT', hx⟩

/-- **A tenant's set replaced.** The emails are indexed anew; an entry of
the index of credentials changes only where the credential was nobody's or
the tenant's own, and the new set's credentials end up with it. -/
theorem replace (h : Agree S U E C) (hT : T ∈ S) (s : GoMap String User)
    (hs : ∀ x u, s.lookup x = some u → u.email = x ∧ hasPrefix x (tenantPrefix T) = true)
    (hE : ∀ x, F x = if x ∈ s.keys then some T else if x ∈ (U T).keys then none else E x)
    (hown : ∀ x u, s.lookup x = some u → ∀ c ∈ userCredentials u, ∃ o ∈ s.keys, D c = some o)
    (hC : ∀ c, D c = C c ∨ ∀ o, C c = some o → hasPrefix o (tenantPrefix T) = true) :
    Agree S (Function.update U T s) F D := by
  have hsame : Function.update U T s T = s := Function.update_self ..
  have hother : ∀ {T'}, T' ≠ T → Function.update U T s T' = U T' :=
    fun hne => Function.update_of_ne hne ..
  refine ⟨h.prefixFree, ?_, ?_, ?_, ?_⟩
  -- each part for the tenant whose set is replaced, and for another
  · intro T' x hx
    by_cases hT' : T' = T
    · rw [hT']; exact hT
    · rw [hother hT'] at hx
      exact h.registered T' x hx
  · intro T' x u hu
    by_cases hT' : T' = T
    · subst hT'
      rw [hsame] at hu
      exact hs x u hu
    · rw [hother hT'] at hu
      exact h.keyed T' x u hu
  · intro x T'
    rw [hE]
    by_cases hT' : T' = T
    · subst hT'
      rw [hsame]
      split_ifs with hnew hold
      · simp [hT, hnew]
      · simp [hnew]
      · have hno : ¬ E x = some T' := fun hto => hold ((h.indexed x T').1 hto).2
        simp [hno, hnew]
    · rw [hother hT', ← h.indexed]
      -- an email of another tenant is neither in the new set nor in the old
      have hclash : hasPrefix x (tenantPrefix T) = true → ¬ E x = some T' :=
        fun hx hto => hT' (h.eq_of_mem hT hx ((h.indexed x T').1 hto).2).symm
      split_ifs with hnew hold
      · obtain ⟨u, hu⟩ := GoMap.mem_keys_iff.1 hnew
        refine ⟨fun heq => absurd (Option.some.inj heq).symm hT', fun hto => ?_⟩
        exact absurd hto (hclash (hs x u hu).2)
      · refine ⟨fun hno => absurd hno (by simp), fun hto => ?_⟩
        exact absurd hto (hclash (h.hasPrefix_of_mem hold))
      · rfl
  · intro T' x u hu c hc
    by_cases hT' : T' = T
    · subst hT'
      rw [hsame] at hu ⊢
      exact hown x u hu c hc
    · rw [hother hT'] at hu ⊢
      obtain ⟨o, ho, hco⟩ := h.owned T' x u hu c hc
      refine ⟨o, ho, ?_⟩
      -- an owner that could change is an email of `T`, and this one is of `T'`
      rcases hC c with hkept | hfree
      · rw [hkept, hco]
      · exact absurd (h.eq_of_mem hT (hfree o hco) ho).symm hT'

end Agree

/-! ## The manager's indexes -/

variable {X : Externals} {env : Env} {m m' : Manager} {T x : String} {us : List User}

/-- **The manager's indexes agree.** -/
def Coherent (m : Manager) : Prop :=
  Agree m.tenants m.usersOf (fun x => m.emailTo.lookup x) fun c => m.creds.lookup c

theorem Coherent.congr (h : Coherent m) (hs : Manager.SameIndexes m m')
    (ht : m'.tenants = m.tenants) : Coherent m' := by
  have hof : m'.usersOf = m.usersOf := funext hs.usersOf
  unfold Coherent
  rw [ht, hof, hs.emailTo, hs.creds]
  exact h

namespace Coherent

theorem createTenant (h : Coherent m) (saved : Bool) (p : Registry.CreateParams)
    (hpf : PrefixFree (insert p.id m.tenants)) :
    Coherent { m with reg := (m.reg.createTenant saved p).1 } := by
  rcases Registry.createTenant_cases m.reg saved p with hsame | ⟨hnew, hget⟩
  · refine h.congr ⟨rfl, rfl, rfl⟩ (Set.ext fun k => ?_)
    show (m.reg.createTenant saved p).1.get k ≠ none ↔ m.reg.get k ≠ none
    rw [hsame]
  · have htenants : Manager.tenants { m with reg := (m.reg.createTenant saved p).1 } =
        insert p.id m.tenants := by
      ext k
      show (m.reg.createTenant saved p).1.get k ≠ none ↔ _
      rw [hget, Set.mem_insert_iff]
      by_cases hk : k = p.id
      · simp [hk]
      · simp only [hk, if_false, false_or]
        rfl
    unfold Coherent
    rw [htenants]
    exact h.create hpf

theorem own_of_mem (h : Coherent m) {u : User} {c o : String}
    (hu : (m.usersOf T).lookup x = some u) (hc : c ∈ userCredentials u)
    (ho : m.creds.lookup c = some o) : hasPrefix o (tenantPrefix T) = true := by
  obtain ⟨o', ho', hown⟩ := h.owned T x u hu c hc
  obtain rfl : o' = o := Option.some.inj (hown.symm.trans ho)
  exact h.hasPrefix_of_mem ho'

variable (X env) in
theorem deleteTenant (h : Coherent m) (T : String) : Coherent (m.deleteTenant X env T).1 := by
  rcases Manager.deleteTenant_cases X env m T with ⟨⟨err, heq⟩, -⟩ | hdel
  · rw [heq]
    exact h.congr ⟨rfl, rfl, rfl⟩ rfl
  · -- first the set is replaced by an empty one, then the tenant goes
    have hempty : Agree m.tenants (Function.update m.usersOf T ∅)
        (fun x => (m.deleteTenant X env T).1.emailTo.lookup x)
        fun c => (m.deleteTenant X env T).1.creds.lookup c := by
      refine h.replace hdel.known ∅ (by simp) (fun x => ?_) (by simp) fun c => ?_
      · simp [hdel.emailTo]
      · refine (hdel.creds c).imp_right ?_
        rintro ⟨x, u, hu, hc⟩ o ho
        exact h.own_of_mem hu hc ho
    have htenants : (m.deleteTenant X env T).1.tenants = m.tenants \ {T} := by
      ext k
      show (m.deleteTenant X env T).1.reg.get k ≠ none ↔ m.reg.get k ≠ none ∧ k ≠ T
      rw [hdel.get]
      by_cases hk : k = T <;> simp [hk]
    unfold Coherent
    rw [htenants, hdel.usersOf]
    exact hempty.remove (by simp)

theorem keyed_newSet {u : User} (hu : (m.newSet T us).lookup x = some u) :
    u.email = x ∧ hasPrefix x (tenantPrefix T) = true := by
  obtain ⟨v, -, rfl, rfl⟩ := Manager.lookup_newSet hu
  exact ⟨rfl, hasPrefix_namespacedEmail T v.email⟩

section Setting

variable {tn : Tenant} {gone done rest : List (String × User)}

variable (X) in
/-- However far a `SetTenantUsers` gets, it changes the owner of a
credential only where that was nobody or the tenant itself. -/
theorem creds_changed (h : Coherent m)
    (hset : Manager.Setting env m T us tn gone done rest) (active : Bool) (c : String) :
    (m.changed X env active T gone done).creds.lookup c = m.creds.lookup c ∨
      ∀ o, m.creds.lookup c = some o → hasPrefix o (tenantPrefix T) = true := by
  rcases lookup_indexAll done (GoMap.eraseKeys m.creds
    (gone.flatMap fun p => userCredentials p.2)) c with ⟨p, hp, hc, -⟩ | ⟨-, heq⟩
  · exact Or.inr (hset.free p.1 p.2 (hset.lookup_of_mem_done hp) c hc)
  · rw [GoMap.lookup_eraseKeys] at heq
    split_ifs at heq with hc
    · -- a credential of a dropped user was the tenant's
      obtain ⟨p, hp, hcp⟩ := List.mem_flatMap.1 hc
      exact Or.inr fun o => h.own_of_mem ((hset.mem_gone p).1 hp).1 hcp
    · exact Or.inl heq

/-- **A `SetTenantUsers` that is done replaces the set.** -/
theorem set_done (h : Coherent m) (hset : Manager.Setting env m T us tn gone done [])
    (active : Bool) :
    Coherent { m.changed X env active T gone done with
      users := m.users.insert T (m.newSet T us) } := by
  have hdone : GoMap.range (env.order .fresh) (m.newSet T us) = done := by
    rw [hset.fresh, List.append_nil]
  have hkeys : ∀ x, x ∈ done.map Prod.fst ↔ x ∈ (m.newSet T us).keys := by
    intro x
    rw [← hdone, GoMap.range_keys, Order.mem_run]
  have hof : Manager.usersOf { m.changed X env active T gone done with
      users := m.users.insert T (m.newSet T us) } = Function.update m.usersOf T (m.newSet T us) :=
    m.usersOf_insert T (m.newSet T us)
  unfold Coherent
  rw [hof]
  refine h.replace hset.mem_tenants (m.newSet T us) (fun x u => keyed_newSet) (fun x => ?_) ?_
    (creds_changed X h hset active)
  · show (GoMap.insertKeys (GoMap.eraseKeys m.emailTo _) _ T).lookup x = _
    rw [GoMap.lookup_insertKeys, GoMap.lookup_eraseKeys]
    simp only [hkeys, hset.mem_gone_keys_iff]
    -- new, or dropped, or neither
    split_ifs with h₁ h₂ h₃ h₄
    · rfl
    · rfl
    · exact absurd h₂.1 h₃
    · exact absurd ⟨h₄, h₁⟩ h₂
    · rfl
  · intro x u hu c hc
    have hmem : (x, u) ∈ done := by
      rw [← hdone]
      exact GoMap.mem_range.2 hu
    rcases lookup_indexAll done (GoMap.eraseKeys m.creds
      (gone.flatMap fun p => userCredentials p.2)) c with ⟨p, hp, -, heq⟩ | ⟨hno, -⟩
    · exact ⟨p.1, (hkeys p.1).1 (List.mem_map_of_mem hp), heq⟩
    · exact absurd hc (hno _ hmem)

/-- **One that fails half way leaves the indexes agreeing if the emails
are the old ones.** -/
theorem set_failed (h : Coherent m) (hset : Manager.Setting env m T us tn gone done rest)
    (hsame : ∀ x, x ∈ (m.newSet T us).keys ↔ x ∈ (m.usersOf T).keys) (active : Bool) :
    Coherent (m.changed X env active T gone done) := by
  have hold : ∀ p ∈ done, p.1 ∈ (m.usersOf T).keys := fun p hp =>
    (hsame p.1).1 (GoMap.mem_keys_iff.2 ⟨_, hset.lookup_of_mem_done hp⟩)
  have hgone : ∀ x, x ∉ gone.map Prod.fst := by
    intro x hx
    obtain ⟨hx, hno⟩ := hset.mem_gone_keys_iff.1 hx
    exact hno ((hsame x).2 hx)
  unfold Coherent
  -- nobody is dropped, so this is a replacement of the set by itself
  have hof : Manager.usersOf (m.changed X env active T gone done) =
      Function.update m.usersOf T (m.usersOf T) := (Function.update_eq_self ..).symm
  rw [hof]
  refine h.replace hset.mem_tenants (m.usersOf T) (h.keyed T) (fun x => ?_) ?_
    (creds_changed X h hset active)
  · show (GoMap.insertKeys (GoMap.eraseKeys m.emailTo _) _ T).lookup x = _
    rw [GoMap.lookup_insertKeys, GoMap.lookup_eraseKeys, if_neg (hgone x)]
    split_ifs with h₁ h₂ h₂
    · rfl
    · obtain ⟨p, hp, rfl⟩ := List.mem_map.1 h₁
      exact absurd (hold p hp) h₂
    · exact (h.indexed x T).2 ⟨hset.mem_tenants, h₂⟩
    · rfl
  · intro x u hu c hc
    obtain ⟨o, ho, hown⟩ := h.owned T x u hu c hc
    rcases lookup_indexAll done (GoMap.eraseKeys m.creds
      (gone.flatMap fun p => userCredentials p.2)) c with ⟨p, hp, -, heq⟩ | ⟨-, heq⟩
    · exact ⟨p.1, hold p hp, heq⟩
    · refine ⟨o, ho, ?_⟩
      rw [GoMap.lookup_eraseKeys, if_neg ?_, hown] at heq
      · exact heq
      · intro hmem
        obtain ⟨p, hp, -⟩ := List.mem_flatMap.1 hmem
        exact hgone p.1 (List.mem_map_of_mem hp)

end Setting

theorem owner_of_free {u : User} (hu : hasPrefix u.email (tenantPrefix T) = true)
    (hfree : m.takenByOther T u = false) {c o : String} (hc : c ∈ userCredentials u)
    (ho : m.creds.lookup c = some o) : hasPrefix o (tenantPrefix T) = true := by
  by_contra hno
  have hne : o ≠ u.email := by
    rintro rfl
    exact hno hu
  have htaken : m.takenByOther T u = true := by
    refine List.any_eq_true.2 ⟨c, hc, ?_⟩
    simp [ho, hne, Bool.eq_false_iff.2 hno]
  rw [htaken] at hfree
  cases hfree

/-- **A user merged into a set.** -/
theorem takeOn (h : Coherent m) (hT : T ∈ m.tenants) (active : Bool) (v : User)
    (hfree : m.takenByOther T (m.buildUser T v) = false) :
    Coherent (m.takeOn X env active T (m.buildUser T v)) := by
  have hpre : hasPrefix (m.buildUser T v).email (tenantPrefix T) = true :=
    hasPrefix_namespacedEmail T v.email
  have hlookup : ∀ x, ((m.usersOf T).insert (m.buildUser T v).email (m.buildUser T v)).lookup x =
      if x = (m.buildUser T v).email then some (m.buildUser T v) else (m.usersOf T).lookup x :=
    fun x => GoMap.lookup_insert_eq ..
  have hkeys : ∀ x, x ∈ ((m.usersOf T).insert (m.buildUser T v).email (m.buildUser T v)).keys ↔
      x = (m.buildUser T v).email ∨ x ∈ (m.usersOf T).keys := by
    intro x
    rw [← AList.mem_keys, AList.mem_insert, AList.mem_keys]
  have hcreds : ∀ c, (GoMap.insertKeys m.creds (userCredentials (m.buildUser T v))
      (m.buildUser T v).email).lookup c =
      if c ∈ userCredentials (m.buildUser T v) then some (m.buildUser T v).email
      else m.creds.lookup c := GoMap.lookup_insertKeys _ _ _
  unfold Coherent
  rw [m.usersOf_takeOn]
  refine h.replace hT _ (fun x u hu => ?_) (fun x => ?_) (fun x u hu c hc => ?_) fun c => ?_
  · rw [hlookup] at hu
    split_ifs at hu with hx
    · obtain rfl := Option.some.inj hu
      exact ⟨hx.symm, hx ▸ hpre⟩
    · exact h.keyed T x u hu
  · show (m.emailTo.insert (m.buildUser T v).email T).lookup x = _
    rw [GoMap.lookup_insert_eq]
    simp only [hkeys]
    by_cases hx : x = (m.buildUser T v).email
    · simp [hx]
    · simp only [hx, if_false, false_or]
      split_ifs with hold
      · exact (h.indexed x T).2 ⟨hT, hold⟩
      · rfl
  · show ∃ o ∈ _, (GoMap.insertKeys m.creds _ _).lookup c = some o
    rw [hcreds]
    simp only [hkeys]
    -- a credential the new user shares passes to the new user's email
    split_ifs with hcv
    · exact ⟨_, Or.inl rfl, rfl⟩
    · rw [hlookup] at hu
      split_ifs at hu with hx
      · obtain rfl := Option.some.inj hu
        exact absurd hc hcv
      · obtain ⟨o, ho, hown⟩ := h.owned T x u hu c hc
        exact ⟨o, Or.inr ho, hown⟩
  · show (GoMap.insertKeys m.creds _ _).lookup c = _ ∨ _
    rw [hcreds]
    split_ifs with hcv
    · exact Or.inr fun o ho => owner_of_free hpre hfree hcv ho
    · exact Or.inl rfl

theorem opened (h : Coherent m) (T : String) : Coherent (m.opened T) := by
  unfold Coherent
  rw [Manager.usersOf_opened]
  exact h

/-- **A merge**, wherever it stops. -/
theorem addTenantUsers (h : Coherent m) (T : String) (us : List User) :
    Coherent (m.addTenantUsers X env T us).1 := by
  rcases Manager.addTenantUsers_cases X env m T us with ⟨err, heq⟩ | ⟨tn, hget, heq⟩
  · rw [heq]
    exact h
  · rw [heq]
    exact (Manager.mergeUsers_rule (m := m.opened T) (I := fun m => Coherent m ∧ T ∈ m.tenants)
      (fun m v _ hm hfree => ⟨hm.1.takeOn hm.2 _ v hfree, hm.2⟩)
      ⟨h.opened T, Manager.mem_tenants_of_get hget⟩).1

end Coherent

/-! ## Runs -/

/-- A step after which tenants can still be told apart. -/
def KeepsApart (m : Manager) (op : Op) : Prop :=
  ∀ p, op = .createTenant p → PrefixFree (insert p.id m.tenants)

/-- **A step that no failing sync can split**: where a `SetTenantUsers`
syncs, no add fails, or the emails are the ones the tenant has. -/
structure CoherentStep (m : Manager) (l : Env × Op) : Prop where
  apart : KeepsApart m l.2
  whole : ∀ T us, l.2 = .setUsers T us → m.statusOf T = some .active → m.live.core ≠ none →
    l.1.AddsOk ∨ ∀ x, x ∈ (m.newSet T us).keys ↔ x ∈ (m.usersOf T).keys

namespace Coherent

variable (X) in
theorem setTenantUsers_cases (hl : CoherentStep m (env, .setUsers T us)) :
    (∃ err, m.setTenantUsers X env T us = (m, some err)) ∨
      ∃ tn gone done rest, Manager.Setting env m T us tn gone done rest ∧
        ((∃ err, m.setTenantUsers X env T us =
            (m.changed X env (tn.status = .active) T gone done, some err) ∧
            ∀ x, x ∈ (m.newSet T us).keys ↔ x ∈ (m.usersOf T).keys) ∨
          rest = [] ∧ m.setTenantUsers X env T us =
            ({ m.changed X env (tn.status = .active) T gone done with
                users := m.users.insert T (m.newSet T us) }, none)) := by
  rcases Manager.setTenantUsers_cases X env m T us with
    herr | ⟨tn, gone, done, rest, hset, ⟨err, heq, hact, hcore, hadd⟩ | hdone⟩
  · exact Or.inl herr
  · refine Or.inr ⟨tn, gone, done, rest, hset, Or.inl ⟨err, heq, ?_⟩⟩
    exact (hl.whole T us rfl (hact ▸ hset.statusOf_eq) hcore).resolve_left hadd
  · exact Or.inr ⟨tn, gone, done, rest, hset, Or.inr hdone⟩

/-- **One step.** -/
theorem step (h : Coherent m) {l : Env × Op} (hl : CoherentStep m l) :
    Coherent (m.step X l) := by
  obtain ⟨env, op⟩ := l
  cases op with
  | createTenant p => exact h.createTenant (env.save p.id) p (hl.apart p rfl)
  | delete T => exact h.deleteTenant X env T
  | setUsers T us =>
    show Coherent (m.setTenantUsers X env T us).1
    rcases setTenantUsers_cases X hl with
      ⟨err, heq⟩ | ⟨tn, gone, done, rest, hset, ⟨err, heq, hsame⟩ | ⟨rfl, heq⟩⟩
    · rw [heq]
      exact h
    · rw [heq]
      exact h.set_failed hset hsame _
    · rw [heq]
      exact h.set_done hset _
  | addUsers T us => exact h.addTenantUsers T us
  | _ =>
    exact h.congr (Manager.step_frame X env m _ rfl).1 ((Manager.step_frame X env m _ rfl).2 rfl)

/-- **A whole run**, from a manager without users. -/
theorem of_path {reg : Registry} {force : List String}
    (hpf : PrefixFree { T | reg.get T ≠ none })
    (h : Runs.Path (Manager.step X) CoherentStep (Manager.new reg force) m) : Coherent m :=
  h.invariant (fun _ _ hm hl => hm.step hl)
    (Agree.of_empty hpf (fun _ => rfl) fun _ => rfl)

theorem of_path_addsOk {reg : Registry} {force : List String}
    (hpf : PrefixFree { T | reg.get T ≠ none })
    (h : Runs.Path (Manager.step X)
      (fun m l => l.1.AddsOk ∧ l.1.RemovesOk ∧ KeepsApart m l.2) (Manager.new reg force) m) :
    Coherent m :=
  of_path hpf (h.mono fun _ _ hl => ⟨hl.2.2, fun _ _ _ _ _ => Or.inl hl.1⟩)

end Coherent

/-- **The indexes agree in every state of a run no failing sync splits**; a
`SetTenantUsers` that fails there leaves the sets, the emails and the last
readings as they were, and no email is left to a deleted tenant. -/
theorem indexes_agree_along_run {reg : Registry} {force : List String}
    (hpf : PrefixFree { T | reg.get T ≠ none })
    (h : Runs.Path (Manager.step X) CoherentStep (Manager.new reg force) m) :
    (∀ x T, m.emailTo.lookup x = some T ↔ m.reg.get T ≠ none ∧ x ∈ (m.usersOf T).keys) ∧
      (∀ T x u, (m.usersOf T).lookup x = some u → ∀ c ∈ userCredentials u,
        m.creds.lookup c ≠ none) ∧
      (∀ env T us err, CoherentStep m (env, .setUsers T us) →
        (m.setTenantUsers X env T us).2 = some err →
        (m.setTenantUsers X env T us).1.users = m.users ∧
          (∀ x, (m.setTenantUsers X env T us).1.emailTo.lookup x = m.emailTo.lookup x) ∧
          (m.setTenantUsers X env T us).1.lastSeen = m.lastSeen) ∧
      ∀ env T, (m.deleteTenant X env T).2 = none →
        ∀ x, (m.deleteTenant X env T).1.emailTo.lookup x ≠ some T := by
  have hm := Coherent.of_path hpf h
  refine ⟨hm.indexed, ?_, ?_, ?_⟩
  · intro T x u hu c hc hnone
    obtain ⟨o, -, ho⟩ := hm.owned T x u hu c hc
    cases hnone.symm.trans ho
  · intro env T us err hl herr
    rcases Coherent.setTenantUsers_cases X hl with
      ⟨err', heq⟩ | ⟨tn, gone, done, rest, hset, ⟨err', heq, hsame⟩ | ⟨-, heq⟩⟩
    · rw [heq]
      exact ⟨rfl, fun _ => rfl, rfl⟩
    · have hgone : gone.map Prod.fst = [] := by
        refine List.eq_nil_iff_forall_not_mem.2 fun x hx => ?_
        obtain ⟨hold, hnew⟩ := hset.mem_gone_keys_iff.1 hx
        exact hnew ((hsame x).2 hold)
      have hnext : Coherent (m.changed X env (tn.status = .active) T gone done) :=
        hm.set_failed hset hsame _
      rw [heq]
      refine ⟨rfl, fun x => Option.ext fun T' => ?_, ?_⟩
      · -- the same sets and tenants leave no room for another index
        exact (hnext.indexed x T').trans (hm.indexed x T').symm
      · show GoMap.eraseKeys m.lastSeen _ = _
        rw [hgone]
        rfl
    · rw [heq] at herr
      cases herr
  · intro env T hnone x hx
    have hdel := Coherent.deleteTenant X env hm T
    have hT := ((hdel.indexed x T).1 hx).1
    rcases Manager.deleteTenant_cases X env m T with ⟨⟨err, heq⟩, -⟩ | hgone
    · rw [heq] at hnone
      cases hnone
    · exact hT ((hgone.get T).trans (if_pos rfl))

theorem Demo.prefixFree {ids : List String}
    (h : ∀ T ∈ ids, ∀ T' ∈ ids, hasPrefix (tenantPrefix T') (tenantPrefix T) = true → T = T') :
    PrefixFree { T | (Demo.registry ids).get T ≠ none } := by
  have hmem : ∀ (ids : List String) (r : Registry) (T : String),
      (ids.foldl (fun r id => r.put (Demo.tenant id)) r).get T ≠ none →
        T ∈ ids ∨ r.get T ≠ none := by
    intro ids
    induction ids with
    | nil => exact fun r T hT => Or.inr hT
    | cons id ids ih =>
      intro r T hT
      rcases ih _ T hT with hT | hT
      · exact Or.inl (List.mem_cons_of_mem _ hT)
      · rw [Registry.get_put] at hT
        by_cases hid : T = (Demo.tenant id).id
        · exact Or.inl (hid ▸ List.mem_cons_self ..)
        · rw [if_neg hid] at hT
          exact Or.inr hT
  intro T hT T' hT'
  refine h T ((hmem ids _ T hT).resolve_right ?_) T' ((hmem ids _ T' hT').resolve_right ?_)
  · exact fun h => h rfl
  · exact fun h => h rfl

/-- Surroundings in which every call that adds a user is refused from the
`n`-th call to the core on. -/
def Demo.refusing (n : ℕ) : Env :=
  { Env.calm with add := fun k => if n ≤ k then .refused else .done }

/-- A set of two users, one of whose adds is refused: both are in the
indexes, and neither is in a set. -/
theorem set_failing_half_way :
    let m := (Demo.node ["a"]).step Demo.externals
      (Demo.refusing 3, .setUsers "a" [Demo.user "x" "one", Demo.user "y" "two"])
    ((Demo.node ["a"]).setTenantUsers Demo.externals (Demo.refusing 3) "a"
        [Demo.user "x" "one", Demo.user "y" "two"]).2 ≠ none ∧
      m.emailTo.lookup "ta.x" = some "a" ∧ m.emailTo.lookup "ta.y" = some "a" ∧
      (m.usersOf "a").keys = [] ∧ m.creds.lookup "trojan:two" = some "ta.y" := by
  decide

theorem Demo.coherentStep (m : Manager) {op : Op} (hop : ∀ p, op ≠ .createTenant p) :
    CoherentStep m (.calm, op) :=
  ⟨fun p hp => absurd hp (hop p), fun _ _ _ _ _ => Or.inl fun _ => rfl⟩

def Demo.twoUsers : Manager :=
  Manager.step Demo.externals (Manager.step Demo.externals
    (Manager.new (Demo.registry ["a"]) []) (.calm, .applyConfig "config"))
    (.calm, .setUsers "a" [Demo.user "x" "one", Demo.user "y" "two"])

/-- The same users synced again with every add refused: the index is still
that of the recorded set. -/
theorem indexes_agree_after_refusal :
    "ta.x" ∈ ((Demo.twoUsers.step Demo.externals (Demo.refusing 0,
      .setUsers "a" [Demo.user "x" "one", Demo.user "y" "two"])).usersOf "a").keys := by
  have hkeys : (Demo.twoUsers.newSet "a" [Demo.user "x" "one", Demo.user "y" "two"]).keys =
      (Demo.twoUsers.usersOf "a").keys := by decide
  have hlast : CoherentStep Demo.twoUsers
      (Demo.refusing 0, .setUsers "a" [Demo.user "x" "one", Demo.user "y" "two"]) := by
    refine ⟨fun p hp => (by cases hp), fun T us hus _ _ => Or.inr fun x => ?_⟩
    cases hus
    rw [hkeys]
  have hpath : Runs.Path (Manager.step Demo.externals) CoherentStep
      (Manager.new (Demo.registry ["a"]) []) Demo.twoUsers :=
    .snoc (Env.calm, Op.setUsers "a" [Demo.user "x" "one", Demo.user "y" "two"])
      (.snoc (Env.calm, Op.applyConfig "config") .refl (Demo.coherentStep _ (by simp)))
      (Demo.coherentStep _ (by simp))
  have hrun := indexes_agree_along_run (Demo.prefixFree (by decide)) (.snoc _ hpath hlast)
  exact ((hrun.1 "ta.x" "a").1 (by decide)).2

/-- **Credentials are exclusive along every run in which no core call
fails**: each is indexed to an email of its user's tenant, so no two
tenants have users with the same one. -/
theorem credentials_exclusive_along_run {reg : Registry} {force : List String}
    (hpf : PrefixFree { T | reg.get T ≠ none })
    (h : Runs.Path (Manager.step X)
      (fun m l => l.1.AddsOk ∧ l.1.RemovesOk ∧ KeepsApart m l.2) (Manager.new reg force) m) :
    (∀ T x u, (m.usersOf T).lookup x = some u → ∀ c ∈ userCredentials u,
      ∃ o ∈ (m.usersOf T).keys, m.creds.lookup c = some o ∧
        hasPrefix o (tenantPrefix T) = true) ∧
      ∀ T T' x x' u u', T ≠ T' → (m.usersOf T).lookup x = some u →
        (m.usersOf T').lookup x' = some u' →
        ∀ c ∈ userCredentials u, c ∉ userCredentials u' := by
  have hm := Coherent.of_path_addsOk hpf h
  refine ⟨fun T x u hu c hc => ?_, fun T T' x x' u u' hne hu hu' c hc hc' => ?_⟩
  · obtain ⟨o, ho, hown⟩ := hm.owned T x u hu c hc
    exact ⟨o, ho, hown, hm.hasPrefix_of_mem ho⟩
  · exact hne (hm.exclusive hu hc hu' hc')

/-- A tenant asks for the other's password and is refused it; who has it
is in the index. -/
theorem credentials_exclusive_after_refusal :
    let m := Manager.step Demo.externals (Manager.step Demo.externals
      (Manager.new (Demo.registry ["a", "b"]) []) (.calm, .setUsers "a" [Demo.user "x" "one"]))
      (.calm, .addUsers "b" [Demo.user "x" "one", Demo.user "y" "two"])
    (m.usersOf "b").keys = [] ∧
      ∃ o ∈ (m.usersOf "a").keys, m.creds.lookup "trojan:one" = some o ∧
        hasPrefix o (tenantPrefix "a") = true := by
  have hcalm : ∀ m op, (∀ p, op ≠ .createTenant p) →
      Env.calm.AddsOk ∧ Env.calm.RemovesOk ∧ KeepsApart m op :=
    fun m op hop => ⟨fun _ => rfl, fun _ => rfl, fun p hp => absurd hp (hop p)⟩
  exact ⟨by decide, (credentials_exclusive_along_run (X := Demo.externals)
    (Demo.prefixFree (by decide)) (.snoc _ (.snoc _ .refl (hcalm _ _ (by simp)))
      (hcalm _ _ (by simp)))).1 "a" "ta.x" _ rfl "trojan:one" (by decide)⟩

end NodeAgent
