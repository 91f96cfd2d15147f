import NodeAgent.Shared.Coherence
import NodeAgent.Shared.Helpers.Live
/-!
# A tenant's own business

`SetTenantUsers` and `AddTenantUsers` keep to one tenant, whatever they are
given and whatever comes of it: on the live side they touch the emails with
the tenant's prefix, those that Xray does not tell from such, and no
others, and of the indexes only entries that are the tenant's or nobody's.
-/

namespace NodeAgent

open GoStrings

variable {X : Externals} {env : Env} {m m' m'' : Manager} {T T' : String} {us : List User}

/-! ## The live side -/

namespace Live

variable {E : String → Prop} {L L' L'' : Live} {u : User}

/-- **Only some emails are touched**: the core is the same one, with the
same inbounds, and serves the other emails as before. -/
structure Touches (E : String → Prop) (L L' : Live) : Prop where
  running : L'.core.map (fun x => x.config.shape) = L.core.map fun x => x.config.shape
  others : ∀ e, ¬ E e → ∀ tag, L'.on tag e = L.on tag e

theorem Touches.refl (E : String → Prop) (L : Live) : Touches E L L :=
  ⟨rfl, fun _ _ _ => rfl⟩

theorem Touches.trans (h : Touches E L L') (h' : Touches E L' L'') : Touches E L L'' :=
  ⟨h'.running.trans h.running, fun e he tag => (h'.others e he tag).trans (h.others e he tag)⟩

theorem touches_syncUser (L : Live) (T : String)
    (hu : ∀ e, X.table.key e = X.table.key u.email → E e) :
    Touches E L (L.syncUser X env T u).1 := by
  cases hcore : L.core with
  | none =>
    have hsame : (L.syncUser X env T u).1 = L := by simp [Live.syncUser, hcore]
    rw [hsame]
    exact Touches.refl E L
  | some x =>
    have hcore' : (L.syncUser X env T u).1.core = some (x.syncUser X env u).1 := by
      simp [Live.syncUser, hcore]
    refine ⟨?_, fun e he tag => ?_⟩
    · rw [hcore', hcore, Option.map_some, Option.map_some, Xray.shape_syncUser]
    · have hkey : X.table.key e ≠ X.table.key u.email := fun h => he (hu e h)
      exact (spares_syncUser L T u tag fun heq => hkey (congrArg _ heq)).eq_of_key_ne hkey

theorem touches_removeFromCore (L : Live)
    (hu : ∀ e, X.table.key e = X.table.key u.email → E e) :
    Touches E L (L.removeFromCore X env u) := by
  cases hcore : L.core with
  | none =>
    have hsame : L.removeFromCore X env u = L := by simp [Live.removeFromCore, hcore]
    rw [hsame]
    exact Touches.refl E L
  | some x =>
    obtain ⟨tags, -, heq⟩ := Xray.updateUsers_removal X env (withInbounds u []) rfl x
    obtain ⟨hshape, -, hother⟩ := Xray.removeAt_fold_frame X env u.email tags x
    have hcore' : (L.removeFromCore X env u).core =
        some (tags.foldl (Xray.removeAt X env u.email) x) := by
      rw [Live.removeFromCore, hcore]
      exact congrArg some heq
    refine ⟨?_, fun e he tag => ?_⟩
    · rw [hcore', hcore, Option.map_some, Option.map_some, hshape]
    · rw [on, on, hcore', hcore]
      exact (hother tag e).eq_of_key_ne fun h => he (hu e h)

/-- **A list of syncs.** -/
theorem touches_syncs (L : Live) (T : String)
    (hus : ∀ u ∈ us, ∀ e, X.table.key e = X.table.key u.email → E e) :
    Touches E L (L.syncs X env T us) :=
  Live.syncs_rule (I := Touches E L) (fun u hu L' h => h.trans (touches_syncUser L' T (hus u hu)))
    (Touches.refl E L)

/-- **A list of removals.** -/
theorem touches_removeAll (L : Live) {l : List (String × User)}
    (hl : ∀ p ∈ l, ∀ e, X.table.key e = X.table.key p.2.email → E e) :
    Touches E L (L.removeAll X env l) :=
  List.foldlRecOn l _ (Touches.refl E L) fun L' h p hp =>
    h.trans (touches_removeFromCore L' (hl p hp))

end Live

/-! ## The books -/

/-- **Xray tells the emails of tenants apart**: those of two never have one
form. -/
def UserTable.Separates (U : UserTable) (S : Set String) : Prop :=
  ∀ T ∈ S, ∀ T' ∈ S, ∀ e e', hasPrefix e (tenantPrefix T) = true →
    hasPrefix e' (tenantPrefix T') = true → U.key e = U.key e' → T = T'

/-- **What is left alone in a tenant's business**: the registry, the
configuration, and everything of the other tenants; what they have live,
if Xray tells it from what the tenant has. -/
structure Frame (U : UserTable) (T : String) (m m' : Manager) : Prop where
  reg : m'.reg = m.reg
  config : m'.config = m.config
  forceInbounds : m'.forceInbounds = m.forceInbounds
  /-- The core that runs, and its inbounds. -/
  running : m'.live.core.map (fun x => x.config.shape) = m.live.core.map fun x => x.config.shape
  users : ∀ T', T' ≠ T → m'.users.lookup T' = m.users.lookup T'
  /-- The emails indexed to another. -/
  emailTo : ∀ T', T' ≠ T → ∀ e, m'.emailTo.lookup e = some T' ↔ m.emailTo.lookup e = some T'
  /-- The credentials indexed to an email of another. -/
  creds : ∀ T' ∈ m.tenants, T' ≠ T → ∀ o, hasPrefix o (tenantPrefix T') = true → ∀ c,
    m'.creds.lookup c = some o ↔ m.creds.lookup c = some o
  /-- The accounts live under an email of another. -/
  live : U.Separates m.tenants → ∀ T' ∈ m.tenants, T' ≠ T → ∀ e,
    hasPrefix e (tenantPrefix T') = true → ∀ tag, m'.live.on tag e = m.live.on tag e

namespace Frame

variable {U : UserTable}

theorem refl (T : String) (m : Manager) : Frame U T m m :=
  ⟨rfl, rfl, rfl, rfl, fun _ _ => rfl, fun _ _ _ => Iff.rfl, fun _ _ _ _ _ _ => Iff.rfl,
    fun _ _ _ _ _ _ _ => rfl⟩

theorem trans (h : Frame U T m m') (h' : Frame U T m' m'') : Frame U T m m'' := by
  have htenants : m'.tenants = m.tenants := by rw [Manager.tenants, Manager.tenants, h.reg]
  refine ⟨h'.reg.trans h.reg, h'.config.trans h.config,
    h'.forceInbounds.trans h.forceInbounds, h'.running.trans h.running,
    fun T' hT => (h'.users T' hT).trans (h.users T' hT),
    fun T' hT e => (h'.emailTo T' hT e).trans (h.emailTo T' hT e),
    fun T' hT' hT o ho c => ?_, fun hU T' hT' hT e he tag => ?_⟩
  · exact (h'.creds T' (htenants ▸ hT') hT o ho c).trans (h.creds T' hT' hT o ho c)
  · exact (h'.live (htenants ▸ hU) T' (htenants ▸ hT') hT e he tag).trans
      (h.live hU T' hT' hT e he tag)

theorem not_hasPrefix (h : Coherent m) (hT : T ∈ m.tenants) (hT' : T' ∈ m.tenants) (hne : T' ≠ T)
    {e : String} (he : hasPrefix e (tenantPrefix T') = true) :
    ¬ hasPrefix e (tenantPrefix T) = true :=
  fun he' => hne (h.prefixFree.eq_of_hasPrefix hT' hT he he')

/-- **A change of a tenant's set, however far it gets.** Those who go are
of the set, those who come have the tenant's prefix and credentials that
were nobody's or its own. -/
theorem changed (h : Coherent m) (hT : T ∈ m.tenants) {gone done : List (String × User)}
    (hgone : ∀ p ∈ gone, (m.usersOf T).lookup p.1 = some p.2)
    (hdone : ∀ p ∈ done, p.2.email = p.1 ∧ hasPrefix p.1 (tenantPrefix T) = true)
    (hfree : ∀ p ∈ done, ∀ c ∈ userCredentials p.2, ∀ o, m.creds.lookup c = some o →
      hasPrefix o (tenantPrefix T) = true)
    (active : Bool) : Frame X.table T m (m.changed X env active T gone done) := by
  have hgone' : ∀ p ∈ gone, p.2.email = p.1 ∧ hasPrefix p.1 (tenantPrefix T) = true :=
    fun p hp => h.keyed T p.1 p.2 (hgone p hp)
  -- what is touched has the form of an email of the tenant
  have hlive : Live.Touches (fun e => ∃ e', hasPrefix e' (tenantPrefix T) = true ∧
      X.table.key e = X.table.key e') m.live (m.changed X env active T gone done).live := by
    have hremoved : Live.Touches (fun e => ∃ e', hasPrefix e' (tenantPrefix T) = true ∧
        X.table.key e = X.table.key e') m.live (m.live.removeAll X env gone) :=
      Live.touches_removeAll m.live fun p hp e hkey =>
        ⟨p.2.email, (hgone' p hp).1 ▸ (hgone' p hp).2, hkey⟩
    cases active with
    | false => exact hremoved
    | true =>
      refine hremoved.trans (Live.touches_syncs _ T fun u hu e hkey => ⟨u.email, ?_, hkey⟩)
      obtain ⟨p, hp, rfl⟩ := List.mem_map.1 hu
      exact (hdone p hp).1 ▸ (hdone p hp).2
  refine ⟨rfl, rfl, rfl, hlive.running, fun _ _ => rfl, fun T' hne e => ?_,
    fun T' hT' hne o ho c => ?_, fun hU T' hT' hne e he tag => hlive.others e ?_ tag⟩
  · -- an email that goes or comes is the tenant's
    show (GoMap.insertKeys (GoMap.eraseKeys m.emailTo _) _ T).lookup e = some T' ↔ _
    rw [GoMap.lookup_insertKeys, GoMap.lookup_eraseKeys]
    have hown : hasPrefix e (tenantPrefix T) = true → ¬ m.emailTo.lookup e = some T' :=
      fun he hto => hne (h.eq_of_mem hT he ((h.indexed e T').1 hto).2).symm
    split_ifs with h₁ h₂
    · obtain ⟨p, hp, rfl⟩ := List.mem_map.1 h₁
      exact iff_of_false (fun heq => hne (Option.some.inj heq).symm) (hown (hdone p hp).2)
    · obtain ⟨p, hp, rfl⟩ := List.mem_map.1 h₂
      exact iff_of_false (by simp) (hown (hgone' p hp).2)
    · rfl
  · -- a credential that goes or comes was the tenant's or nobody's
    have hno := not_hasPrefix h hT hT' hne ho
    show (indexAll (GoMap.eraseKeys m.creds _) done).lookup c = some o ↔ _
    rcases lookup_indexAll done (GoMap.eraseKeys m.creds
      (gone.flatMap fun p => userCredentials p.2)) c with ⟨p, hp, hc, heq⟩ | ⟨-, heq⟩
    · rw [heq]
      refine iff_of_false (fun howner => hno ?_) fun howner => hno (hfree p hp c hc o howner)
      rw [← Option.some.inj howner]
      exact (hdone p hp).2
    · rw [heq, GoMap.lookup_eraseKeys]
      split_ifs with hc
      · obtain ⟨p, hp, hcp⟩ := List.mem_flatMap.1 hc
        exact iff_of_false (by simp) fun howner => hno (h.own_of_mem (hgone p hp) hcp howner)
      · rfl
  · rintro ⟨e', he', hkey⟩
    exact hne (hU T' hT' T hT e e' he he' hkey)

variable (X env) in
/-- **`SetTenantUsers`**, whatever comes of it. -/
theorem setTenantUsers (h : Coherent m) (T : String) (us : List User) :
    Frame X.table T m (m.setTenantUsers X env T us).1 := by
  rcases Manager.setTenantUsers_cases X env m T us with
    ⟨err, heq⟩ | ⟨tn, gone, done, rest, hset, hend⟩
  · rw [heq]
    exact refl T m
  · have hchanged : Frame X.table T m (m.changed X env (tn.status = .active) T gone done) :=
      changed h hset.mem_tenants (fun p hp => ((hset.mem_gone p).1 hp).1)
        (fun p hp => Coherent.keyed_newSet (hset.lookup_of_mem_done hp))
        (fun p hp => hset.free p.1 p.2 (hset.lookup_of_mem_done hp)) _
    rcases hend with ⟨err, heq, -⟩ | ⟨-, heq⟩
    · rw [heq]
      exact hchanged
    · -- the set recorded is the tenant's own
      rw [heq]
      exact { hchanged with users := fun T' hT => AList.lookup_insert_ne hT }

theorem takeOn (h : Coherent m) (hT : T ∈ m.tenants) (active : Bool) (v : User)
    (hfree : m.takenByOther T (m.buildUser T v) = false) :
    Frame X.table T m (m.takeOn X env active T (m.buildUser T v)) := by
  have hpre : hasPrefix (m.buildUser T v).email (tenantPrefix T) = true :=
    hasPrefix_namespacedEmail T v.email
  have hchanged : Frame X.table T m (m.changed X env active T []
      [((m.buildUser T v).email, m.buildUser T v)]) := by
    refine changed h hT (fun p hp => absurd hp (List.not_mem_nil)) (fun p hp => ?_)
      (fun p hp => ?_) active
    · obtain rfl := List.mem_singleton.1 hp
      exact ⟨rfl, hpre⟩
    · obtain rfl := List.mem_singleton.1 hp
      exact fun c hc o => Coherent.owner_of_free hpre hfree hc
  have hsame : m.takeOn X env active T (m.buildUser T v) =
      { m.changed X env active T [] [((m.buildUser T v).email, m.buildUser T v)] with
        users := m.users.insert T
          ((m.usersOf T).insert (m.buildUser T v).email (m.buildUser T v)) } := by
    cases active <;> rfl
  rw [hsame]
  exact { hchanged with users := fun T' hT' => AList.lookup_insert_ne hT' }

/-- **`AddTenantUsers`**, wherever it stops. -/
theorem addTenantUsers (h : Coherent m) (T : String) (us : List User) :
    Frame X.table T m (m.addTenantUsers X env T us).1 := by
  rcases Manager.addTenantUsers_cases X env m T us with ⟨err, heq⟩ | ⟨tn, hget, heq⟩
  · rw [heq]
    exact refl T m
  · have hopen : Frame X.table T m (m.opened T) :=
      { refl T m with users := fun T' hT => AList.lookup_insert_ne hT }
    rw [heq]
    exact (Manager.mergeUsers_rule (m := m.opened T)
      (I := fun m' => Frame X.table T m m' ∧ Coherent m' ∧ T ∈ m'.tenants)
      (fun m' v _ hm' hfree => ⟨hm'.1.trans (takeOn hm'.2.1 hm'.2.2 _ v hfree),
        hm'.2.1.takeOn hm'.2.2 _ v hfree, hm'.2.2⟩)
      ⟨hopen, h.opened T, Manager.mem_tenants_of_get hget⟩).1

end Frame

end NodeAgent
