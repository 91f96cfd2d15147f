import NodeAgent.Tenant.Model.Run
/-!
# What one call to the registry can do

A call either keeps everybody's key (`Keeps`), or it registers a tenant
under a key nobody has, or it drops one together with its key:
`Registry.exec_cases`. From it follows, once for all calls, that the two
indexes of the registry stay inverse to each other.
-/

namespace NodeAgent

namespace Registry

variable {r r' : Registry} {e : RegistryEvent}

/-- **The two indexes are inverse to each other**, and nobody registered
is deleted. -/
structure IndexesAgree (r : Registry) : Prop where
  byKey_iff : ∀ hash id,
    r.byKey.lookup hash = some id ↔ (r.get id).map Tenant.apiKeyHash = some hash
  live : ∀ id t, r.get id = some t → t.status ≠ .deleted

theorem indexesAgree_empty (o : Order String) : (newRegistry o ∅).IndexesAgree where
  byKey_iff := by
    intro hash id
    simp [newRegistry, get]
  live := by
    intro id t h
    simp [newRegistry, get] at h

/-! ## The operations on the key index -/

@[simp] theorem byKey_saveTenant (r : Registry) (saved : Bool) (t : Tenant) :
    (r.saveTenant saved t).1.byKey = r.byKey := by
  unfold saveTenant
  split <;> rfl

@[simp] theorem byKey_modify (r : Registry) (saved : Bool) (id : String) (f : Tenant → Tenant) :
    (r.modify saved id f).1.byKey = r.byKey := by
  unfold modify
  cases r.byID.lookup id with
  | none => rfl
  | some t => exact byKey_saveTenant ..

@[simp] theorem byKey_enforce (r : Registry) (o : Order String) (saved : String → Bool)
    (now : Int64) : (r.enforce o saved now).1.byKey = r.byKey := by
  refine enforce_rule (I := fun acc => acc.1.byKey = r.byKey) rfl (fun acc t hacc _ => ?_) o
  exact (byKey_saveTenant ..).trans hacc

/-! ## One call -/

/-- **Nobody's key has changed**, and nobody has been marked deleted. -/
structure Keeps (r r' : Registry) : Prop where
  byKey : r'.byKey = r.byKey
  hash : ∀ id, (r'.get id).map Tenant.apiKeyHash = (r.get id).map Tenant.apiKeyHash
  live : (∀ id t, r.get id = some t → t.status ≠ .deleted) →
    ∀ id t, r'.get id = some t → t.status ≠ .deleted

/-- Nothing was changed. -/
structure Untouched (r r' : Registry) : Prop where
  byKey : r'.byKey = r.byKey
  get : ∀ id, r'.get id = r.get id

theorem Untouched.keeps (h : r.Untouched r') : r.Keeps r' where
  byKey := h.byKey
  hash := fun id => by rw [h.get]
  live := fun hlive id t ht => hlive id t ((h.get id).symm.trans ht)

variable {f : Tenant → Tenant} {id : String}

theorem update_fields {call : Call} (h : call.update = some (id, f)) (t : Tenant) :
    (f t).id = t.id ∧ (f t).apiKeyHash = t.apiKeyHash ∧
      (t.status ≠ .deleted → (f t).status ≠ .deleted) := by
  cases call <;> simp only [Call.update, Option.some.injEq, Prod.mk.injEq, reduceCtorEq] at h
  all_goals
    obtain ⟨-, rfl⟩ := h
    simp [Tenant.bill, Tenant.requota, Tenant.suspendedFor, Tenant.resumed, Tenant.renewed]

theorem exec_of_update (h : e.call.update = some (id, f)) :
    r.exec e = answer (r.modify (e.saved id) id f) := by
  unfold exec
  cases hcall : e.call <;>
    simp only [hcall, Call.update, Option.some.injEq, Prod.mk.injEq, reduceCtorEq] at h
  all_goals
    obtain ⟨rfl, rfl⟩ := h
    rfl

theorem get_exec_update (h : e.call.update = some (id, f))
    (k : String) : (r.exec e).1.get k = if k = id then (r.get id).map f else r.get k := by
  rw [exec_of_update h]
  exact get_modify (fun t => (update_fields h t).1) r (e.saved id) id k

theorem keeps_of_update (h : e.call.update = some (id, f)) :
    r.Keeps (r.exec e).1 := by
  rw [exec_of_update h]
  have hid : ∀ t, (f t).id = t.id := fun t => (update_fields h t).1
  have hget := get_modify hid r (e.saved id) id
  refine ⟨byKey_modify .., fun k => ?_, fun hlive k t ht => ?_⟩
  · show ((r.modify (e.saved id) id f).1.get k).map _ = _
    rw [hget]
    split_ifs with hk
    · rw [hk]
      cases r.get id with
      | none => rfl
      | some t => simp [(update_fields h t).2.1]
    · rfl
  · have ht' : (r.modify (e.saved id) id f).1.get k = some t := ht
    rw [hget] at ht'
    split_ifs at ht' with hk
    · obtain ⟨t₀, ht₀, rfl⟩ := Option.map_eq_some_iff.1 ht'
      exact (update_fields h t₀).2.2 (hlive id t₀ ht₀)
    · exact hlive k t ht'

theorem keeps_enforce (r : Registry) (o : Order String) (saved : String → Bool) (now : Int64) :
    r.Keeps (r.enforce o saved now).1 := by
  refine ⟨byKey_enforce .., fun k => ?_, fun hlive k t ht => ?_⟩
  · rw [get_enforce]
    cases r.get k with
    | none => rfl
    | some t =>
      simp only [Option.map_some, Tenant.enforced]
      split <;> rfl
  · rw [get_enforce] at ht
    obtain ⟨t', ht', rfl⟩ := Option.map_eq_some_iff.1 ht
    unfold Tenant.enforced
    split
    · simp
    · exact hlive k t' ht'

/-- A tenant was registered, under an id and a key that were free. -/
structure Registered (r r' : Registry) (p : CreateParams) : Prop where
  free : r.get p.id = none
  keyFree : r.byKey.lookup (hashKey p.apiKey) = none
  get : ∀ k, r'.get k = if k = p.id then some p.tenant else r.get k
  byKey : r'.byKey = r.byKey.insert (hashKey p.apiKey) p.id

/-- A tenant was dropped, and its key with it. -/
structure Dropped (r r' : Registry) (id : String) : Prop where
  get : ∀ k, r'.get k = if k = id then none else r.get k
  byKey : ∃ t, r.get id = some t ∧ r'.byKey = r.byKey.erase t.apiKeyHash

/-- **A registration is refused and changes no index, or it goes
through.** -/
theorem createTenant_outcome (r : Registry) (saved : Bool) (p : CreateParams) :
    (∃ err, (r.createTenant saved p).2 = .error err) ∧ r.Untouched (r.createTenant saved p).1 ∨
      (r.createTenant saved p).2 = .ok p.tenant ∧
        r.Registered (r.createTenant saved p).1 p := by
  unfold createTenant
  split_ifs with hid hkey
  · exact Or.inl ⟨⟨_, rfl⟩, ⟨rfl, fun _ => rfl⟩⟩
  · exact Or.inl ⟨⟨_, rfl⟩, ⟨rfl, fun _ => rfl⟩⟩
  · cases saved with
    | false => exact Or.inl ⟨⟨_, rfl⟩, ⟨rfl, fun _ => rfl⟩⟩
    | true =>
      refine Or.inr ⟨rfl, ⟨?_, ?_, fun k => get_put _ p.tenant k, rfl⟩⟩
      · simpa [Registry.get] using hid
      · simpa using hkey

theorem delete_outcome (r : Registry) (deleted : Bool) (id : String) :
    (∃ err, (r.delete deleted id).2 = some err) ∧ r.Untouched (r.delete deleted id).1 ∨
      (r.delete deleted id).2 = none ∧ r.Dropped (r.delete deleted id).1 id := by
  unfold delete
  cases hid : r.byID.lookup id with
  | none => exact Or.inl ⟨⟨_, rfl⟩, ⟨rfl, fun _ => rfl⟩⟩
  | some t =>
    cases deleted with
    | false => exact Or.inl ⟨⟨_, rfl⟩, ⟨rfl, fun _ => rfl⟩⟩
    | true =>
      exact Or.inr ⟨rfl, ⟨fun k => GoMap.lookup_erase_eq r.byID id k, t, hid, rfl⟩⟩

/-- **What one call can do**: keep everybody's key, register a tenant, or
drop one; and its entry in the history says which. -/
theorem exec_cases (r : Registry) (e : RegistryEvent) :
    (r.Keeps (r.exec e).1 ∧
        ∀ id, (∀ key, ¬ Logged.Creates id key (e.call, (r.exec e).2)) ∧
          ¬ Logged.Deletes id (e.call, (r.exec e).2)) ∨
      (∃ p, e.call = .createTenant p ∧ (r.exec e).2 = .tenant (.ok p.tenant) ∧
        r.Registered (r.exec e).1 p) ∨
      (∃ id, e.call = .delete id ∧ (r.exec e).2 = .deleted none ∧ r.Dropped (r.exec e).1 id) := by
  cases hcall : e.call with
  | createTenant p =>
    have hexec : r.exec e = answer (r.createTenant (e.saved p.id) p) := by simp [exec, hcall]
    rw [hexec]
    rcases createTenant_outcome r (e.saved p.id) p with ⟨⟨err, herr⟩, hsame⟩ | ⟨hok, hreg⟩
    · refine Or.inl ⟨hsame.keeps, fun id => ?_⟩
      simp [answer, herr, Logged.Creates, Logged.Deletes]
    · exact Or.inr (Or.inl ⟨p, rfl, by rw [← hok]; rfl, hreg⟩)
  | delete id =>
    have hexec : r.exec e =
        ((r.delete (e.saved id) id).1, .deleted (r.delete (e.saved id) id).2) := by
      simp [exec, hcall]
    rw [hexec]
    rcases delete_outcome r (e.saved id) id with ⟨⟨err, herr⟩, hsame⟩ | ⟨hok, hdrop⟩
    · refine Or.inl ⟨hsame.keeps, fun id' => ?_⟩
      simp [herr, Logged.Creates, Logged.Deletes]
    · exact Or.inr (Or.inr ⟨id, rfl, by rw [← hok], hdrop⟩)
  | get id =>
    have hexec : r.exec e = (r, .found (r.get id)) := by simp [exec, hcall]
    rw [hexec]
    exact Or.inl ⟨Untouched.keeps ⟨rfl, fun _ => rfl⟩,
      fun id => by simp [Logged.Creates, Logged.Deletes]⟩
  | enforce now =>
    have hexec : r.exec e = ((r.enforce e.order e.saved now).1,
        .changes (r.enforce e.order e.saved now).2) := by simp [exec, hcall]
    rw [hexec]
    exact Or.inl ⟨keeps_enforce .., fun id => by simp [Logged.Creates, Logged.Deletes]⟩
  | _ =>
    refine Or.inl ⟨keeps_of_update (by rw [hcall]; rfl), fun id => ?_⟩
    simp [Logged.Creates, Logged.Deletes]

/-! ## The indexes stay inverse -/

/-- **Every call keeps the two indexes inverse to each other.** -/
theorem IndexesAgree.exec (h : r.IndexesAgree) (e : RegistryEvent) : (r.exec e).1.IndexesAgree := by
  rcases exec_cases r e with ⟨hkeeps, -⟩ | ⟨p, -, -, hreg⟩ | ⟨id, -, -, hdrop⟩
  · refine ⟨fun hash id => ?_, hkeeps.live h.live⟩
    rw [hkeeps.byKey, hkeeps.hash, h.byKey_iff]
  · -- the new key was nobody's, and the new id had no key
    refine ⟨fun hash id => ?_, fun id t ht => ?_⟩
    · rw [hreg.byKey, hreg.get, GoMap.lookup_insert_eq]
      have hfree := h.byKey_iff (hashKey p.apiKey) id
      have hnone := h.byKey_iff hash p.id
      rw [hreg.keyFree] at hfree
      rw [hreg.free] at hnone
      by_cases hid : id = p.id
      · subst hid
        by_cases hhash : hash = hashKey p.apiKey
        · simp [hhash, CreateParams.tenant]
        · simp [hhash, hnone, CreateParams.tenant, Ne.symm hhash]
      · by_cases hhash : hash = hashKey p.apiKey
        · subst hhash
          simpa [hid, Ne.symm hid] using hfree
        · simp [hid, hhash, h.byKey_iff]
    · rw [hreg.get] at ht
      split_ifs at ht with hid
      · cases ht
        simp [CreateParams.tenant]
      · exact h.live id t ht
  · obtain ⟨t, ht, hbyKey⟩ := hdrop.byKey
    have hown := h.byKey_iff t.apiKeyHash id
    rw [ht] at hown
    refine ⟨fun hash k => ?_, fun k t' ht' => ?_⟩
    · rw [hbyKey, hdrop.get, GoMap.lookup_erase_eq]
      by_cases hk : k = id
      · subst hk
        by_cases hhash : hash = t.apiKeyHash
        · simp [hhash]
        · simp [hhash, h.byKey_iff, ht, Ne.symm hhash]
      · by_cases hhash : hash = t.apiKeyHash
        · -- the dropped key led to the dropped tenant, not to this one
          have hother := h.byKey_iff t.apiKeyHash k
          rw [hown.2 rfl] at hother
          subst hhash
          simpa [hk, Ne.symm hk] using hother
        · simp [hk, hhash, h.byKey_iff]
    · rw [hdrop.get] at ht'
      split_ifs at ht' with hk
      exact h.live k t' ht'

end Registry

end NodeAgent
