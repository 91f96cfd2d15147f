import NodeAgent.Tenant.Keys
/-!
# The gate and the enforcement loop decide alike

`Authorize` refuses a request, and `Enforce` suspends a tenant, each by a
ladder of comparisons of its own. They agree: after an `Enforce` exactly
the tenants are active whose keys were let through before it, and whoever
was refused while active is suspended for the reason given with the
refusal.
-/

namespace NodeAgent

namespace Tenant

variable {t : Tenant} {now : Int64}

/-- **Who is let through is active and not due.** -/
theorem decision_allowed_iff :
    (t.decision now).allowed = true ↔ t.status = .active ∧ ¬ t.Due now := by
  unfold decision Due dueReason
  cases hst : t.status <;> split_ifs <;> simp_all

theorem enforced_active_iff_allowed :
    (t.enforced now).status = .active ↔ (t.decision now).allowed = true := by
  rw [enforced_active_iff, decision_allowed_iff]

theorem due_iff_refused :
    t.Due now ↔ t.status = .active ∧ (t.decision now).allowed = false := by
  rw [← Bool.not_eq_true, decision_allowed_iff]
  constructor
  · exact fun h => ⟨h.1, fun hn => hn.2 h⟩
  · rintro ⟨hact, h⟩
    by_contra hdue
    exact h ⟨hact, hdue⟩

/-- **One reason for both.** -/
theorem decision_reason (h : t.Due now) : (t.decision now).reason = t.dueReason now := by
  obtain ⟨hact, hdue⟩ := h
  unfold decision
  unfold dueReason at hdue ⊢
  split_ifs at hdue ⊢ <;> simp_all

theorem not_due_enforced : ¬ (t.enforced now).Due now := by
  unfold enforced
  split_ifs with hdue
  · exact fun h => nomatch h.1
  · exact hdue

end Tenant

namespace Registry

variable {r : Registry} {id : String} {t : Tenant}

theorem enforced_id_of_mem_range {o : Order String} {p : String × Tenant} {now : Int64}
    (hp : p ∈ GoMap.range o r.byID) : (p.2.enforced now).id = p.1 := by
  rw [Tenant.enforced_id, r.keyed p.1 p.2 (GoMap.mem_range.1 hp)]

theorem enforce_changes_nodup (r : Registry) (o : Order String) (saved : String → Bool)
    (now : Int64) : ((r.enforce o saved now).2.map fun c => c.tenant.id).Nodup := by
  have hids : (r.enforce o saved now).2.map (fun c => c.tenant.id) =
      ((GoMap.range o r.byID).filter fun p => p.2.Due now).map Prod.fst := by
    rw [enforce_changes, List.map_map]
    exact List.map_congr_left fun p hp => enforced_id_of_mem_range (List.mem_filter.1 hp).1
  rw [hids]
  exact (GoMap.range_nodup o r.byID).sublist (List.filter_sublist.map _)

/-- **Of each tenant at most one change is reported**, and one exactly if
it was due. -/
theorem enforce_changes_of (h : r.get id = some t) (o : Order String) (saved : String → Bool)
    (now : Int64) :
    (r.enforce o saved now).2.filter (fun c => c.tenant.id = id) =
      if t.Due now then [⟨t.enforced now, t.dueReason now⟩] else [] := by
  have hswap : (((GoMap.range o r.byID).filter fun p => p.2.Due now).filter
        fun p => (p.2.enforced now).id = id) =
      ((GoMap.range o r.byID).filter fun p => p.1 = id).filter fun p => p.2.Due now := by
    rw [List.filter_filter, List.filter_filter]
    refine List.filter_congr fun p hp => ?_
    rw [enforced_id_of_mem_range hp, Bool.and_comm]
  rw [enforce_changes, List.filter_map]
  show List.map _ (List.filter
    (fun p : String × Tenant => decide ((p.2.enforced now).id = id)) _) = _
  rw [hswap, GoMap.range_filter_key h]
  by_cases hdue : t.Due now <;> simp [hdue]

/-- **A second enforcement at the same time finds nobody**, whichever
writes of the first failed. -/
theorem enforce_twice (r : Registry) (o o' : Order String) (saved saved' : String → Bool)
    (now : Int64) : ((r.enforce o saved now).1.enforce o' saved' now).2 = [] := by
  rw [enforce_changes, List.map_eq_nil_iff, List.filter_eq_nil_iff]
  intro p hp
  have hget : (r.enforce o saved now).1.get p.1 = some p.2 := GoMap.mem_range.1 hp
  rw [get_enforce] at hget
  obtain ⟨t, -, ht⟩ := Option.map_eq_some_iff.1 hget
  rw [← ht]
  simpa using Tenant.not_due_enforced

end Registry

/-- **`Authorize` and `Enforce` agree.** Take any registry, any order and
outcome of the writes of an `Enforce` at `now`. A key is allowed before it
exactly if its tenant is active after it; a tenant that was active and
refused is suspended for the reason of the refusal, and reported once with
that reason. Nothing else of anybody changes, nobody else is reported, and
a second `Enforce` at `now` reports nobody. -/
theorem authorize_agrees_with_enforce (r : Registry) (o : Order String) (saved : String → Bool)
    (now : Int64) :
    let r' := (r.enforce o saved now).1
    let changes := (r.enforce o saved now).2
    (∀ key t, r.resolve key = some t → ∃ t', r'.get t.id = some t' ∧
        ((r.authorize key now).allowed = true ↔ t'.status = .active) ∧
        (t.status = .active → (r.authorize key now).allowed = false →
          t'.status = .suspended ∧ t'.reason = (r.authorize key now).reason ∧
            changes.filter (fun c => c.tenant.id = t.id) =
              [⟨t', (r.authorize key now).reason⟩])) ∧
      (∀ id, r'.get id = (r.get id).map fun t =>
        if t.status = .active ∧ (t.decision now).allowed = false then
          { t with status := .suspended, reason := (t.decision now).reason } else t) ∧
      r'.byKey = r.byKey ∧
      (∀ c ∈ changes, ∃ t, r.get c.tenant.id = some t ∧ t.status = .active ∧
        (t.decision now).allowed = false) ∧
      ∀ o' saved', (r'.enforce o' saved' now).2 = [] := by
  refine ⟨fun key t hres => ?_, fun id => ?_, r.byKey_enforce o saved now, fun c hc => ?_,
    fun o' saved' => r.enforce_twice o o' saved saved' now⟩
  · obtain ⟨id, -, hbyID⟩ := Option.bind_eq_some_iff.1 hres
    have hid : t.id = id := r.keyed id t hbyID
    have hget : r.get t.id = some t := by rw [hid]; exact hbyID
    rw [Registry.authorize_of_resolve hres]
    refine ⟨t.enforced now, by rw [Registry.get_enforce, hget]; rfl,
      Tenant.enforced_active_iff_allowed.symm, fun hact hrefused => ?_⟩
    have hdue : t.Due now := Tenant.due_iff_refused.2 ⟨hact, hrefused⟩
    have henforced : t.enforced now =
        { t with status := .suspended, reason := t.dueReason now } := if_pos hdue
    rw [Registry.enforce_changes_of hget, if_pos hdue, Tenant.decision_reason hdue, henforced]
    exact ⟨rfl, rfl, rfl⟩
  · rw [Registry.get_enforce]
    cases r.get id with
    | none => rfl
    | some t =>
      simp only [Option.map_some, Tenant.enforced, ← Tenant.due_iff_refused]
      by_cases hdue : t.Due now
      · rw [if_pos hdue, if_pos hdue, Tenant.decision_reason hdue]
      · rw [if_neg hdue, if_neg hdue]
  · obtain ⟨t, ht, hdue⟩ := (r.mem_enforce_iff o saved now c.tenant.id).1 (List.mem_map_of_mem hc)
    exact ⟨t, ht, Tenant.due_iff_refused.1 hdue⟩

end NodeAgent
