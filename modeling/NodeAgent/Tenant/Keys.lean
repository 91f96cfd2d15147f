import NodeAgent.Tenant.Helpers.Index
/-!
# A key belongs to whom the history says

The registry finds the tenant of a key through two maps that nine
operations maintain, some of which return early when a write fails. What
they come to is said in terms of the history alone: a key is the tenant's
it was registered with, from then until the tenant is deleted
(`Logged.Holds`).
-/

namespace NodeAgent

/-! ## The decision on a key -/

@[simp] theorem Tenant.decision_tenant (t : Tenant) (now : Int64) :
    (t.decision now).tenant = some t := by
  unfold Tenant.decision
  split_ifs <;> rfl

theorem Tenant.decision_unauthenticated_iff {t : Tenant} {now : Int64} :
    (t.decision now).code = .unauthenticated ↔ t.status = .deleted := by
  unfold Tenant.decision
  split_ifs <;> simp [*]

namespace Registry

variable {r : Registry} {key id : String} {now : Int64}

theorem authorize_of_resolve {t : Tenant} (h : r.resolve key = some t) :
    r.authorize key now = t.decision now := by
  obtain ⟨id, hid, ht⟩ := Option.bind_eq_some_iff.1 h
  simp only [authorize, hid, ht]

theorem authorize_of_resolve_none (h : r.resolve key = none) :
    r.authorize key now = ⟨false, .unauthenticated, .none, none⟩ := by
  unfold authorize
  cases hid : r.byKey.lookup (hashKey key) with
  | none => rfl
  | some id =>
    have hnone : r.byID.lookup id = none := by
      rw [resolve, hid] at h
      exact h
    simp only [hnone]

/-- **With inverse indexes a key leads to the tenant whose hash it
has.** -/
theorem IndexesAgree.resolvesTo_iff (h : r.IndexesAgree) :
    (r.authorize key now).ResolvesTo id ↔
      (r.get id).map Tenant.apiKeyHash = some (hashKey key) := by
  rw [← h.byKey_iff]
  constructor
  · intro ⟨hcode, hid⟩
    cases hres : r.resolve key with
    | none => exact absurd (by rw [authorize_of_resolve_none hres]) hcode
    | some t =>
      obtain ⟨id', hid', ht⟩ := Option.bind_eq_some_iff.1 hres
      rw [authorize_of_resolve hres, Tenant.decision_tenant, Option.map_some,
        Option.some.injEq, r.keyed id' t ht] at hid
      rw [hid', hid]
  · intro hid
    obtain ⟨t, ht, -⟩ := Option.map_eq_some_iff.1 ((h.byKey_iff _ id).1 hid)
    have hres : r.resolve key = some t := by rw [resolve, hid]; exact ht
    rw [authorize_of_resolve hres]
    refine ⟨fun hcode => h.live id t ht (Tenant.decision_unauthenticated_iff.1 hcode), ?_⟩
    rw [Tenant.decision_tenant, Option.map_some, r.keyed id t ht]

end Registry

/-! ## The master key -/

theorem hashKey_ne_empty (key : String) : hashKey key ≠ "" := by
  intro h
  have hlen : ((Sha256.sum256 key.toUTF8.toList).flatMap fun b =>
      [hexDigit (b.toNat / 16), hexDigit (b.toNat % 16)]).length = 0 := by
    rw [← String.length_ofList]
    exact congrArg String.length h
  simp [List.length_flatMap] at hlen

/-- **The master scope is that of the master key alone**, and every other
key is handed on to the registry. -/
theorem Authenticator.authenticate_master_iff {masterKey key : String} {reg : Registry}
    {now : Int64} (hinj : hashKey key = hashKey masterKey → key = masterKey) :
    ((newAuthenticator masterKey).authenticate reg key now).1 = .master ↔
      masterKey ≠ "" ∧ key = masterKey := by
  unfold authenticate newAuthenticator constantTimeEqual
  by_cases hempty : masterKey = ""
  · simp [hempty]
  · by_cases hkey : key = masterKey
    · simp [hempty, hkey, hashKey_ne_empty]
    · have hne : hashKey key ≠ hashKey masterKey := fun h => hkey (hinj h)
      simp [hempty, hkey, hne]

theorem Authenticator.authenticate_of_not_master {a : Authenticator} {key : String}
    {reg : Registry} {now : Int64} (h : (a.authenticate reg key now).1 ≠ .master) :
    a.authenticate reg key now = (.tenant, reg.authorize key now) := by
  unfold authenticate at h ⊢
  split_ifs with hmaster
  · rw [if_pos hmaster] at h
    exact absurd rfl h
  · rfl

/-! ## The history -/

namespace Logged

variable {s : Logged} {id key : String}

/-- **The registry is what its history says**: its indexes are inverse to
each other, and a tenant is there with the hash of a key exactly if the
history has it registered with such a key. -/
structure Explained (s : Logged) : Prop where
  agree : s.reg.IndexesAgree
  hash_iff : ∀ id hash, (s.reg.get id).map Tenant.apiKeyHash = some hash ↔
    ∃ key, Holds s.log id key ∧ hashKey key = hash

theorem explained_start : start.Explained where
  agree := Registry.indexesAgree_empty _
  hash_iff := by
    intro id hash
    have hnone : start.reg.get id = none := rfl
    rw [hnone]
    simp [Holds, start]

theorem holds_step {s : Logged} {e : RegistryEvent} :
    Holds (s.step e).log id key ↔
      Creates id key (e.call, (s.reg.exec e).2) ∨
        Holds s.log id key ∧ ¬ Deletes id (e.call, (s.reg.exec e).2) :=
  History.since_concat

/-- **Every call is explained by its entry.** -/
theorem Explained.step (h : s.Explained) (e : RegistryEvent) : (s.step e).Explained := by
  refine ⟨h.agree.exec e, fun id hash => ?_⟩
  simp only [holds_step]
  show ((s.reg.exec e).1.get id).map Tenant.apiKeyHash = some hash ↔ _
  rcases Registry.exec_cases s.reg e with
    ⟨hkeeps, hentry⟩ | ⟨p, hcall, hreply, hreg⟩ | ⟨id', hcall, hreply, hdrop⟩
  · rw [hkeeps.hash, h.hash_iff]
    simp [(hentry id).1, (hentry id).2]
  · rw [hcall, hreply, hreg.get]
    simp only [Creates, Deletes, not_false_eq_true, and_true]
    by_cases hid : id = p.id
    · -- nobody was registered under this id, so nobody held it
      subst hid
      have hnobody : ∀ key, ¬ Holds s.log p.id key := by
        intro key hkey
        have hsome := (h.hash_iff p.id (hashKey key)).2 ⟨key, hkey, rfl⟩
        rw [hreg.free] at hsome
        cases hsome
      simp [hnobody, Registry.CreateParams.tenant]
    · rw [if_neg hid, h.hash_iff]
      simp [Ne.symm hid]
  · rw [hcall, hreply, hdrop.get]
    simp only [Creates, Deletes, false_or]
    by_cases hid : id = id'
    · simp [hid]
    · rw [if_neg hid, h.hash_iff]
      simp [Ne.symm hid]

theorem explained_run (es : List RegistryEvent) : (run es).Explained :=
  List.foldlRecOn es step explained_start fun _ h e _ => h.step e

theorem Holds.mem_keysUsed (h : Holds s.log id key) : key ∈ s.keysUsed := by
  obtain ⟨⟨call, reply⟩, hmem, hcreates⟩ := History.Since.exists_mem h
  unfold Creates at hcreates
  split at hcreates
  · next p t heq =>
      refine List.mem_filterMap.2 ⟨_, hmem, ?_⟩
      rw [(Prod.mk.inj heq).1]
      exact congrArg some hcreates.2
  · exact hcreates.elim

end Logged

/-- **A key resolves to whom the history says.** After any sequence of
calls, whichever of their writes failed, and if the hash does not confuse
the keys in play: the master scope is that of the non-empty master key,
any other key is decided on by the registry, and the registry resolves a
key to the tenant that was registered with it and not deleted since. The
two indexes are inverse to each other throughout, so no key leads to two
tenants, nor to one that is gone. -/
theorem key_resolves_by_history (es : List RegistryEvent) (masterKey key : String) (now : Int64)
    (hinj : Set.InjOn hashKey {k | k ∈ key :: masterKey :: (Logged.run es).keysUsed}) :
    let s := Logged.run es
    let a := Authenticator.newAuthenticator masterKey
    ((a.authenticate s.reg key now).1 = .master ↔ masterKey ≠ "" ∧ key = masterKey) ∧
      ((a.authenticate s.reg key now).1 ≠ .master →
        a.authenticate s.reg key now = (.tenant, s.reg.authorize key now)) ∧
      (∀ id, (s.reg.authorize key now).ResolvesTo id ↔ Logged.Holds s.log id key) ∧
      (∀ hash id, s.reg.byKey.lookup hash = some id ↔
        (s.reg.get id).map Tenant.apiKeyHash = some hash) ∧
      (∀ id id', (s.reg.authorize key now).ResolvesTo id →
        (s.reg.authorize key now).ResolvesTo id' → id = id') ∧
      (∀ id, s.reg.get id = none → ¬ (s.reg.authorize key now).ResolvesTo id) := by
  have hs := Logged.explained_run es
  refine ⟨Authenticator.authenticate_master_iff fun h => ?_,
    Authenticator.authenticate_of_not_master, fun id => ?_, hs.agree.byKey_iff,
    fun id id' h h' => ?_, fun id hnone h => ?_⟩
  · exact hinj (by simp) (by simp) h
  · rw [hs.agree.resolvesTo_iff, hs.hash_iff]
    constructor
    · rintro ⟨k, hk, hhash⟩
      have hused : k ∈ (Logged.run es).keysUsed := hk.mem_keysUsed
      rw [← hinj (by simp [hused]) (by simp) hhash]
      exact hk
    · exact fun hk => ⟨key, hk, rfl⟩
  · exact Option.some.inj (h.2.symm.trans h'.2)
  · rw [hs.agree.resolvesTo_iff, hnone] at h
    cases h

/-- A tenant registered with the key `k`, deleted, and registered again
with the key `k2`: the new key is its own and the old one nobody's. -/
theorem key_after_registered_again :
    let create (key : String) : RegistryEvent :=
      ⟨.createTenant ⟨"a", key, 100, 0, 0, 0⟩, fun _ => true, .given⟩
    let s := Logged.run [create "k", ⟨.delete "a", fun _ => true, .given⟩, create "k2"]
    (∀ id, (s.reg.authorize "k2" 0).ResolvesTo id ↔ Logged.Holds s.log id "k2") ∧
      (s.reg.authorize "k2" 0).tenant.map Tenant.id = some "a" ∧
      (s.reg.authorize "k" 0).code = .unauthenticated := by
  intro create s
  have hkeys : ∀ k ∈ "k2" :: "master" :: s.keysUsed, ∀ k' ∈ "k2" :: "master" :: s.keysUsed,
      hashKey k = hashKey k' → k = k' := by decide +kernel
  refine ⟨(key_resolves_by_history _ "master" "k2" 0 fun k hk k' hk' => hkeys k hk k' hk').2.2.1,
    ?_, ?_⟩
  · decide +kernel
  · decide +kernel

end NodeAgent
