import NodeAgent.Tenant.Decisions
/-!
# What a call writes

A call that writes the record of a tenant, and gets the write through,
leaves the record as the tenant is in memory; one that writes no record of
it leaves both alone, or deletes both (`Registry.leaves_of_attempted`).
What a failed write leaves behind is all that memory and store can differ
in.
-/

namespace NodeAgent

namespace Registry

variable {r : Registry} {e : RegistryEvent} {id : String}

variable {f : Tenant → Tenant}

theorem writes_of_update {id : String} (h : e.call.update = some (id, f)) :
    r.writes e = r.modifyWrites (e.saved id) id f := by
  unfold writes
  cases hcall : e.call <;>
    simp only [hcall, Call.update, Option.some.injEq, Prod.mk.injEq, reduceCtorEq] at h
  all_goals
    obtain ⟨rfl, rfl⟩ := h
    rfl

/-- Whether a call writes the record of a tenant, and whether the write
goes through. Deleting it is not writing it. -/
def attempted (r : Registry) (e : RegistryEvent) (id : String) : Option Bool :=
  match e.call with
  | .createTenant p =>
    if p.id = id ∧ r.get id = none ∧ r.byKey.lookup (hashKey p.apiKey) = none then
      some (e.saved id)
    else none
  | .get _ | .delete _ => none
  | .enforce now =>
    if id ∈ (r.enforce e.order e.saved now).2.map (fun c => c.tenant.id) then some (e.saved id)
    else none
  | call =>
    match call.update with
    | none => none
    | some (id', _) => if id' = id ∧ (r.get id).isSome then some (e.saved id) else none

theorem attempted_of_update {id' : String} (h : e.call.update = some (id', f)) :
    r.attempted e id = if id' = id ∧ (r.get id).isSome then some (e.saved id) else none := by
  unfold attempted
  cases hcall : e.call <;>
    simp only [hcall, Call.update, Option.some.injEq, Prod.mk.injEq, reduceCtorEq] at h
  all_goals
    obtain ⟨rfl, -⟩ := h
    rfl

theorem attempted_cases (r : Registry) (e : RegistryEvent) (id : String) :
    r.attempted e id = none ∨ r.attempted e id = some (e.saved id) := by
  unfold attempted
  cases e.call
  all_goals
    dsimp only [Call.update]
    first
      | exact Or.inl rfl
      | exact (ite_eq_or_eq _ _ _).symm

variable {d : String → Option Tenant}

theorem enforce_writes_get (r : Registry) (o : Order String) (saved : String → Bool) (now : Int64)
    (d : String → Option Tenant) (id : String) :
    (((r.enforce o saved now).2.filter fun c => saved c.tenant.id).map
        fun c => Write.save c.tenant).foldl (RecordStore.update Tenant.id) d id =
      if id ∈ (r.enforce o saved now).2.map (fun c => c.tenant.id) ∧ saved id = true then
        (r.enforce o saved now).1.get id
      else d id := by
  have hmaps : ((r.enforce o saved now).2.filter fun c => saved c.tenant.id).map
        (fun c => Write.save c.tenant) =
      (((r.enforce o saved now).2.filter fun c => saved c.tenant.id).map Change.tenant).map
        (Write.save (K := String)) := by
    rw [List.map_map]
    rfl
  have hnodup : ((((r.enforce o saved now).2.filter fun c => saved c.tenant.id).map
      Change.tenant).map Tenant.id).Nodup := by
    rw [List.map_map]
    exact (List.filter_sublist.map _).nodup (enforce_changes_nodup ..)
  obtain ⟨hmem, hnot⟩ := RecordStore.update_saves hnodup d
  rw [hmaps]
  split_ifs with hdue
  · obtain ⟨t, ht, hdue'⟩ := (mem_enforce_iff ..).1 hdue.1
    have hchange := enforce_changes_of ht o saved now
    rw [if_pos hdue'] at hchange
    have hin : (⟨t.enforced now, t.dueReason now⟩ : Change) ∈ (r.enforce o saved now).2 :=
      (List.mem_filter.1 (hchange ▸ List.mem_singleton_self _)).1
    have hid : (t.enforced now).id = id := (Tenant.enforced_id now t).trans (r.keyed id t ht)
    have hwritten := hmem (t.enforced now) (List.mem_map_of_mem (f := Change.tenant)
      (List.mem_filter.2 ⟨hin, by rw [hid]; exact hdue.2⟩))
    rw [hid] at hwritten
    rw [hwritten, get_enforce, ht]
    rfl
  · refine hnot id fun hin => hdue ?_
    rw [List.map_map] at hin
    obtain ⟨c, hc, hid⟩ := List.mem_map.1 hin
    have hid' : c.tenant.id = id := hid
    obtain ⟨hc, hsaved⟩ := List.mem_filter.1 hc
    exact ⟨List.mem_map.2 ⟨c, hc, hid⟩, hid' ▸ hsaved⟩

/-- **The call leaves the record of a tenant as the tenant is in memory**,
over the records `d`. -/
def Leaves (d : String → Option Tenant) (r : Registry) (e : RegistryEvent) (id : String) : Prop :=
  (r.writes e).foldl (RecordStore.update Tenant.id) d id = (r.exec e).1.get id

theorem leaves_createTenant {p : CreateParams} (hcall : e.call = .createTenant p)
    (h : r.attempted e id ≠ some false) (hd : r.attempted e id = none → d id = r.get id) :
    Leaves d r e id := by
  have hexec : (r.exec e).1 = (r.createTenant (e.saved p.id) p).1 := by
    simp [exec, hcall, answer]
  simp only [attempted, hcall] at h hd
  rw [Leaves, hexec]
  by_cases hfree : r.get p.id = none ∧ r.byKey.lookup (hashKey p.apiKey) = none
  · have hbyID : r.byID.lookup p.id = none := hfree.1
    cases hsaved : e.saved p.id with
    | false =>
      -- the write that fails is one of the tenant's record
      have hne : p.id ≠ id := by
        rintro rfl
        simp [hfree, hsaved] at h
      have hwrites : r.writes e = [] := by simp [writes, hcall, hfree, hsaved]
      have hget : (r.createTenant false p).1.get id = r.get id := by
        simp [createTenant, saveTenant, hbyID, hfree.2]
      rw [hwrites, hget]
      exact hd (by simp [hne])
    | true =>
      have hwrites : r.writes e = [.save p.tenant] := by simp [writes, hcall, hfree, hsaved]
      have hget : (r.createTenant true p).1.get id =
          if id = p.id then some p.tenant else r.get id := by
        simp only [createTenant, saveTenant, hbyID, hfree.2, Option.isSome_none,
          Bool.false_eq_true, if_false, if_true]
        exact get_put _ p.tenant id
      rw [hwrites, hget]
      show Function.update d p.id (some p.tenant) id = _
      rw [Function.update_apply]
      split_ifs with hid
      · rfl
      · exact hd (by simp [Ne.symm hid])
  · have htaken : (r.get p.id).isSome ∨ (r.byKey.lookup (hashKey p.apiKey)).isSome := by
      simpa only [← Option.ne_none_iff_isSome, ← not_and_or] using hfree
    have hwrites : r.writes e = [] := by simp only [writes, hcall, if_pos htaken]
    have hget : (r.createTenant (e.saved p.id) p).1 = r := by
      rcases htaken with hid | hkey
      · simp [createTenant, show (r.byID.lookup p.id).isSome from hid]
      · unfold createTenant
        split_ifs <;> rfl
    have hno : ¬ (p.id = id ∧ r.get id = none ∧ r.byKey.lookup (hashKey p.apiKey) = none) := by
      rintro ⟨rfl, hboth⟩
      exact hfree hboth
    rw [hwrites, hget]
    exact hd (if_neg hno)

theorem leaves_delete {id' : String} (hcall : e.call = .delete id')
    (hd : r.attempted e id = none → d id = r.get id) : Leaves d r e id := by
  have hnone : r.attempted e id = none := by simp [attempted, hcall]
  have hexec : (r.exec e).1 = (r.delete (e.saved id') id').1 := by simp [exec, hcall]
  rw [Leaves, hexec]
  cases hget : r.get id' with
  | none =>
    have hkept : (r.delete (e.saved id') id').1 = r := by
      simp [delete, show r.byID.lookup id' = none from hget]
    have hwrites : r.writes e = [] := by simp [writes, hcall, hget]
    rw [hkept, hwrites]
    exact hd hnone
  | some t =>
    cases hsaved : e.saved id' with
    | false =>
      have hkept : (r.delete false id').1 = r := by
        simp [delete, show r.byID.lookup id' = some t from hget]
      have hwrites : r.writes e = [] := by simp [writes, hcall, hget, hsaved]
      rw [hkept, hwrites]
      exact hd hnone
    | true =>
      have hwrites : r.writes e = [.delete id'] := by simp [writes, hcall, hget, hsaved]
      have hdrop : (r.delete true id').1.get id = if id = id' then none else r.get id := by
        simp only [delete, show r.byID.lookup id' = some t from hget]
        exact GoMap.lookup_erase_eq r.byID id' id
      rw [hwrites, hdrop, ← hd hnone]
      exact Function.update_apply ..

theorem leaves_enforce {now : Int64} (hcall : e.call = .enforce now)
    (h : r.attempted e id ≠ some false) (hd : r.attempted e id = none → d id = r.get id) :
    Leaves d r e id := by
  have hexec : (r.exec e).1 = (r.enforce e.order e.saved now).1 := by simp [exec, hcall]
  have hwrites : r.writes e =
      ((r.enforce e.order e.saved now).2.filter fun c => e.saved c.tenant.id).map
        fun c => .save c.tenant := by simp only [writes, hcall]
  rw [Leaves, hexec, hwrites, enforce_writes_get]
  simp only [attempted, hcall] at h hd
  by_cases hdue : id ∈ (r.enforce e.order e.saved now).2.map (fun c => c.tenant.id)
  · rw [if_pos hdue, ne_eq, Option.some.injEq, Bool.not_eq_false] at h
    rw [if_pos ⟨hdue, h⟩]
  · rw [if_neg hdue] at hd
    rw [if_neg fun hboth => hdue hboth.1, hd rfl, get_enforce]
    cases ht : r.get id with
    | none => rfl
    | some t =>
      have hnot : ¬ t.Due now := fun hdue' => hdue ((mem_enforce_iff ..).2 ⟨t, ht, hdue'⟩)
      rw [Option.map_some, Tenant.enforced, if_neg hnot]

theorem leaves_update {id' : String} (hupd : e.call.update = some (id', f))
    (h : r.attempted e id ≠ some false) (hd : r.attempted e id = none → d id = r.get id) :
    Leaves d r e id := by
  rw [attempted_of_update hupd] at h hd
  rw [Leaves, writes_of_update hupd, get_exec_update hupd, modifyWrites]
  by_cases hid : id = id'
  · subst hid
    cases ht : r.get id with
    | none =>
      rw [ht] at hd
      rw [if_pos rfl]
      exact hd (by simp)
    | some t =>
      have hsaved : e.saved id = true := by simpa [ht] using h
      have hkey : (f t).id = id := ((update_fields hupd t).1).trans (r.keyed id t ht)
      rw [if_pos rfl, hsaved]
      show Function.update d (f t).id (some (f t)) id = some (f t)
      rw [hkey, Function.update_self]
  · have hne : ¬ (id' = id ∧ (r.get id).isSome) := fun hboth => hid hboth.1.symm
    rw [if_neg hne] at hd
    rw [if_neg hid, ← hd rfl]
    cases ht : r.get id' with
    | none => rfl
    | some t =>
      have hkey : (f t).id = id' := ((update_fields hupd t).1).trans (r.keyed id' t ht)
      cases e.saved id' with
      | false => rfl
      | true =>
        show Function.update d (f t).id (some (f t)) id = d id
        rw [hkey, Function.update_of_ne hid]

/-- **The store has the tenant as it is in memory**, after a call that
wrote it, and after one that did not if it had before. -/
theorem leaves_of_attempted (h : r.attempted e id ≠ some false)
    (hd : r.attempted e id = none → d id = r.get id) : Leaves d r e id := by
  cases hcall : e.call with
  | createTenant p => exact leaves_createTenant hcall h hd
  | get id' =>
    have hnone : r.attempted e id = none := by simp [attempted, hcall]
    have hexec : (r.exec e).1 = r := by simp [exec, hcall]
    have hwrites : r.writes e = [] := by simp [writes, hcall]
    rw [Leaves, hexec, hwrites]
    exact hd hnone
  | delete id' => exact leaves_delete hcall hd
  | enforce now => exact leaves_enforce hcall h hd
  | _ => exact leaves_update (by rw [hcall]; rfl) h hd

/-- **Where every write goes through, the writes are what the call does to
the tenants in memory.** -/
theorem get_exec (he : e.AllSaved) (r : Registry) (k : String) :
    (r.exec e).1.get k = (r.writes e).foldl (RecordStore.update Tenant.id) r.get k := by
  refine (leaves_of_attempted ?_ fun _ => rfl).symm
  rcases attempted_cases r e k with h | h
  · simp [h]
  · simp [h, he k]

end Registry

end NodeAgent
