import NodeAgent.Tenant.Model.Registry
/-!
# What the registry's operations leave under each id

All of it is about `Registry.get`: an operation on one tenant makes of its
entry what its update function makes of the tenant, and leaves the others;
`enforce` changes every entry on its own, whichever order it scans them in.
-/

namespace NodeAgent

namespace Tenant

/-- A tenant with another quota, credit limit and expiry. -/
def requota (quotaBytes creditLimitBytes expireAt : Int64) (t : Tenant) : Tenant :=
  { t with quotaBytes := quotaBytes, creditLimitBytes := creditLimitBytes, expireAt := expireAt }

/-- A tenant once suspended. -/
def suspendedFor (reason : Reason) (t : Tenant) : Tenant :=
  { t with status := .suspended, reason := reason }

/-- A tenant once reactivated. -/
def resumed (t : Tenant) : Tenant :=
  { t with status := .active, reason := .none }

/-- A tenant at the start of a new period. -/
def renewed (t : Tenant) : Tenant :=
  { t with usedBytes := 0, periodID := t.periodID + 1, status := .active, reason := .none }

/-- A tenant after a difference has been added to its usage. -/
def bill (d : Int64) (t : Tenant) : Tenant :=
  { t with usedBytes := t.usedBytes + if d < 0 then 0 else d }

@[simp] theorem bill_zero (t : Tenant) : t.bill 0 = t := by
  simp [bill]

end Tenant

namespace Registry

variable {r : Registry} {saved : Bool} {id k : String} {t : Tenant}

theorem get_put (r : Registry) (t : Tenant) (k : String) :
    (r.put t).get k = if k = t.id then some t else r.get k :=
  GoMap.lookup_insert_eq r.byID t.id k t

@[simp] theorem get_saveTenant (r : Registry) (saved : Bool) (t : Tenant) (k : String) :
    (r.saveTenant saved t).1.get k = r.get k := by
  unfold saveTenant
  split <;> rfl

variable {f : Tenant → Tenant}

/-- **An operation on one tenant changes that tenant's entry**, and no
other, whether or not its write goes through. -/
theorem get_modify (hf : ∀ t, (f t).id = t.id) (r : Registry) (saved : Bool) (id k : String) :
    (r.modify saved id f).1.get k = if k = id then (r.get id).map f else r.get k := by
  unfold modify
  cases hget : r.byID.lookup id with
  | none =>
    have hnone : r.get id = none := hget
    by_cases hk : k = id
    · rw [if_pos hk, hk, hnone]
      rfl
    · rw [if_neg hk]
  | some t =>
    have hsome : r.get id = some t := hget
    have hid : (f t).id = id := by rw [hf, r.keyed id t hget]
    show ((r.put (f t)).saveTenant saved (f t)).1.get k = _
    rw [get_saveTenant, get_put, hid, hsome]
    rfl

variable (r saved id f) in
theorem modify_error_iff :
    (∃ err, (r.modify saved id f).2 = .error err) ↔ r.get id = none ∨ saved = false := by
  unfold modify get
  cases r.byID.lookup id with
  | none => simp
  | some t => cases saved <;> simp [saveTenant]

theorem get_modify_ne_none (hf : ∀ t, (f t).id = t.id) (r : Registry)
    (saved : Bool) (id k : String) :
    (r.modify saved id f).1.get k ≠ none ↔ r.get k ≠ none := by
  rw [get_modify hf]
  split_ifs with hk
  · rw [hk]
    simp
  · rfl

theorem get_addUsage (r : Registry) (saved : Bool) (id : String) (d : Int64) (k : String) :
    (r.addUsage saved id d).1.get k =
      if k = id then (r.get id).map (Tenant.bill d) else r.get k :=
  get_modify (f := Tenant.bill d) (fun _ => rfl) r saved id k

theorem createTenant_cases (r : Registry) (saved : Bool) (p : CreateParams) :
    (∀ k, (r.createTenant saved p).1.get k = r.get k) ∨
      r.get p.id = none ∧
        ∀ k, (r.createTenant saved p).1.get k = if k = p.id then some p.tenant else r.get k := by
  unfold createTenant
  split_ifs with hid hkey
  · exact Or.inl fun _ => rfl
  · exact Or.inl fun _ => rfl
  · have hnone : r.get p.id = none := by simpa [get] using hid
    cases saved with
    | false => exact Or.inl fun _ => rfl
    | true =>
      refine Or.inr ⟨hnone, fun k => ?_⟩
      exact get_put _ p.tenant k

theorem delete_cases (r : Registry) (deleted : Bool) (id : String) :
    (∃ err, r.delete deleted id = (r, some err)) ∧ (r.get id = none ∨ deleted = false) ∨
      (r.delete deleted id).2 = none ∧ r.get id ≠ none ∧
        ∀ k, (r.delete deleted id).1.get k = if k = id then none else r.get k := by
  unfold delete
  cases hid : r.byID.lookup id with
  | none => exact Or.inl ⟨⟨_, rfl⟩, Or.inl hid⟩
  | some t =>
    cases deleted with
    | false => exact Or.inl ⟨⟨_, rfl⟩, Or.inr rfl⟩
    | true =>
      refine Or.inr ⟨rfl, fun hnone => ?_, fun k => GoMap.lookup_erase_eq r.byID id k⟩
      cases hid.symm.trans hnone

end Registry

/-! ## Enforcement -/

/-- **An active tenant that is expired or over its limit.** -/
def Tenant.Due (t : Tenant) (now : Int64) : Prop :=
  t.status = .active ∧ t.dueReason now ≠ .none

instance (t : Tenant) (now : Int64) : Decidable (t.Due now) :=
  inferInstanceAs (Decidable (_ ∧ _))

/-- A tenant after enforcement. -/
def Tenant.enforced (now : Int64) (t : Tenant) : Tenant :=
  if t.Due now then { t with status := .suspended, reason := t.dueReason now } else t

@[simp] theorem Tenant.enforced_usedBytes (now : Int64) (t : Tenant) :
    (t.enforced now).usedBytes = t.usedBytes := by
  unfold Tenant.enforced
  split <;> rfl

@[simp] theorem Tenant.enforced_id (now : Int64) (t : Tenant) : (t.enforced now).id = t.id := by
  unfold Tenant.enforced
  split <;> rfl

theorem Tenant.enforced_active_iff {now : Int64} {t : Tenant} :
    (t.enforced now).status = .active ↔ t.status = .active ∧ ¬ t.Due now := by
  unfold Tenant.enforced
  split_ifs with h
  · simp [h]
  · simp [h]

namespace Registry

/-- **One turn of the scan**: a tenant that is due is replaced by what
enforcement makes of it, written, and reported. -/
theorem enforceOne_eq (saved : String → Bool) (now : Int64) (acc : Registry × List Change)
    (p : String × Tenant) :
    enforceOne saved now acc p =
      if p.2.Due now then
        (((acc.1.put (p.2.enforced now)).saveTenant (saved p.2.id) (p.2.enforced now)).1,
          acc.2 ++ [⟨p.2.enforced now, p.2.dueReason now⟩])
      else acc := by
  unfold enforceOne Tenant.enforced Tenant.Due
  by_cases hact : p.2.status = .active
  · by_cases hdue : p.2.dueReason now = .none
    · simp [hdue]
    · simp [hact, hdue]
  · simp [hact]

theorem enforce_rule {I : Registry × List Change → Prop} {r : Registry} {saved : String → Bool}
    {now : Int64} (hI : I (r, []))
    (hstep : ∀ (acc : Registry × List Change) (t : Tenant), I acc → t.Due now →
      I (((acc.1.put (t.enforced now)).saveTenant (saved t.id) (t.enforced now)).1,
        acc.2 ++ [⟨t.enforced now, t.dueReason now⟩]))
    (o : Order String) : I (r.enforce o saved now) := by
  refine List.foldlRecOn (GoMap.range o r.byID) (enforceOne saved now) hI fun acc hacc p _ => ?_
  rw [enforceOne_eq]
  split_ifs with hdue
  · exact hstep acc p.2 hacc hdue
  · exact hacc

theorem get_foldl_enforceOne (saved : String → Bool) (now : Int64) (l : List (String × Tenant))
    (acc : Registry × List Change) (hnodup : (l.map Prod.fst).Nodup)
    (hl : ∀ p ∈ l, p.2.id = p.1 ∧ acc.1.get p.1 = some p.2) (k : String) :
    (l.foldl (enforceOne saved now) acc).1.get k =
      if k ∈ l.map Prod.fst then (acc.1.get k).map (Tenant.enforced now) else acc.1.get k := by
  induction l generalizing acc with
  | nil => simp
  | cons p l ih =>
    rw [List.map_cons, List.nodup_cons] at hnodup
    obtain ⟨hid, hget⟩ := hl p (List.mem_cons_self ..)
    have hstep : ∀ k, (enforceOne saved now acc p).1.get k =
        if k = p.1 then some (p.2.enforced now) else acc.1.get k := by
      intro k
      rw [enforceOne_eq]
      by_cases hdue : p.2.Due now
      · rw [if_pos hdue, get_saveTenant, get_put, Tenant.enforced_id, hid]
      · rw [if_neg hdue, Tenant.enforced, if_neg hdue]
        split_ifs with hk
        · rw [hk, hget]
        · rfl
    have hrest : ∀ q ∈ l, q.2.id = q.1 ∧ (enforceOne saved now acc p).1.get q.1 = some q.2 := by
      intro q hq
      obtain ⟨hqid, hqget⟩ := hl q (List.mem_cons_of_mem _ hq)
      have hne : q.1 ≠ p.1 := fun h => hnodup.1 (h ▸ List.mem_map_of_mem hq)
      exact ⟨hqid, by rw [hstep, if_neg hne, hqget]⟩
    rw [List.foldl_cons, ih (enforceOne saved now acc p) hnodup.2 hrest, hstep]
    by_cases hk : k = p.1
    · subst hk
      rw [if_neg hnodup.1, if_pos rfl, if_pos (by simp), hget]
      rfl
    · simp only [hk, if_false, List.map_cons, List.mem_cons, false_or]

/-- **Enforcement changes every entry on its own**, in any order of the
scan. -/
theorem get_enforce (r : Registry) (o : Order String) (saved : String → Bool) (now : Int64)
    (k : String) :
    (r.enforce o saved now).1.get k = (r.get k).map (Tenant.enforced now) := by
  rw [enforce, get_foldl_enforceOne saved now (GoMap.range o r.byID) (r, [])
    (GoMap.range_nodup o r.byID)
    fun p hp => ⟨r.keyed _ _ (GoMap.mem_range.1 hp), GoMap.mem_range.1 hp⟩, GoMap.range_keys]
  simp only [Order.mem_run]
  by_cases hk : k ∈ r.byID.keys
  · rw [if_pos hk]
  · have hnone : r.get k = none := GoMap.notMem_keys_iff.1 hk
    rw [if_neg hk, hnone]
    rfl

/-- **What an enforcement reports**: the tenants that were due, as it left
them, in the order of the scan. -/
theorem enforce_changes (r : Registry) (o : Order String) (saved : String → Bool) (now : Int64) :
    (r.enforce o saved now).2 =
      ((GoMap.range o r.byID).filter fun p => p.2.Due now).map
        fun p => ⟨p.2.enforced now, p.2.dueReason now⟩ := by
  have hall : ∀ (l : List (String × Tenant)) (acc : Registry × List Change),
      (l.foldl (enforceOne saved now) acc).2 =
        acc.2 ++ (l.filter fun p => p.2.Due now).map
          fun p => ⟨p.2.enforced now, p.2.dueReason now⟩ := by
    intro l
    induction l with
    | nil => simp
    | cons p l ih =>
      intro acc
      rw [List.foldl_cons, ih, enforceOne_eq, List.filter_cons]
      by_cases hdue : p.2.Due now
      · simp [hdue]
      · simp [hdue]
  simpa [enforce] using hall (GoMap.range o r.byID) (r, [])

theorem mem_enforce_iff (r : Registry) (o : Order String) (saved : String → Bool) (now : Int64)
    (k : String) :
    k ∈ (r.enforce o saved now).2.map (fun c => c.tenant.id) ↔
      ∃ t, r.get k = some t ∧ t.Due now := by
  simp only [enforce_changes, List.mem_map, List.mem_filter, GoMap.mem_range, decide_eq_true_eq,
    exists_exists_and_eq_and, Tenant.enforced_id]
  constructor
  · rintro ⟨p, ⟨hget, hdue⟩, rfl⟩
    rw [r.keyed p.1 p.2 hget]
    exact ⟨p.2, hget, hdue⟩
  · rintro ⟨t, hget, hdue⟩
    exact ⟨(k, t), ⟨hget, hdue⟩, r.keyed k t hget⟩

end Registry

end NodeAgent
