import NodeAgent.Tenant.Persistence
/-!
# Calls whose write fails

`CreateTenant` and `Delete` write first, and change nothing where that
fails. The operations on one tenant change it in place first: where their
write fails they return an error, and the change stays in memory. So a
call that fails has changed nothing exactly if there was nothing to
change.
-/

namespace NodeAgent

/-- **The call returned an error.** -/
def Reply.Failed : Reply → Prop
  | .tenant (.error _) => True
  | .deleted (some _) => True
  | _ => False

/-- **The tenant already is as the call would make it**: the usage added is
none, the quota is the one it has, it is suspended for that reason, or
active. A new period is never what a tenant has. -/
def Call.Idle : Call → Tenant → Prop
  | .addUsage _ delta, _ => delta ≤ 0
  | .setQuota _ q c x, t => t.quotaBytes = q ∧ t.creditLimitBytes = c ∧ t.expireAt = x
  | .suspend _ reason, t => t.status = .suspended ∧ t.reason = reason
  | .resume _, t => t.status = .active ∧ t.reason = .none
  | .resetPeriod _, _ => False
  | _, _ => True

theorem Tenant.bill_eq_self_iff {delta : Int64} {t : Tenant} : t.bill delta = t ↔ delta ≤ 0 := by
  have hused : t.bill delta = t ↔ (if delta < 0 then 0 else delta) = 0 := by
    rw [← Int64.add_eq_left (a := t.usedBytes)]
    exact ⟨congrArg Tenant.usedBytes, fun h => by rw [Tenant.bill, h]⟩
  rw [hused]
  split_ifs with h
  · exact iff_of_true rfl (Int64.le_of_lt h)
  · exact ⟨fun h0 => h0 ▸ Int64.le_refl 0, fun hle => Int64.le_antisymm hle (Int64.not_lt.1 h)⟩

theorem Tenant.renewed_ne (t : Tenant) : t.renewed ≠ t := by
  intro h
  have hperiod : t.periodID + 1 = t.periodID := congrArg Tenant.periodID h
  exact absurd (UInt64.add_eq_left.1 hperiod) (by decide)

theorem Call.idle_iff {call : Call} {id : String} {f : Tenant → Tenant}
    (h : call.update = some (id, f)) (t : Tenant) : call.Idle t ↔ f t = t := by
  cases call with
  | addUsage =>
    obtain ⟨-, rfl⟩ := Prod.mk.inj (Option.some.inj h)
    exact Tenant.bill_eq_self_iff.symm
  | resetPeriod =>
    obtain ⟨-, rfl⟩ := Prod.mk.inj (Option.some.inj h)
    exact iff_of_false not_false t.renewed_ne
  | setQuota | suspend | resume =>
    obtain ⟨-, rfl⟩ := Prod.mk.inj (Option.some.inj h)
    obtain ⟨⟩ := t
    simp [Call.Idle, Tenant.requota, Tenant.suspendedFor, Tenant.resumed, eq_comm]
  | _ => cases h

namespace Registry

variable {r r' : Registry} {e : RegistryEvent}

/-- **Two registries between which no later call can tell**: the same
indexes, the same decision on every key at every time, and the same
outcome of every enforcement, up to the order it reports in. -/
structure Alike (r r' : Registry) : Prop where
  same : r'.Same r
  enforced : ∀ o o' saved saved' now k,
    (r'.enforce o saved now).1.get k = (r.enforce o' saved' now).1.get k
  reported : ∀ o o' saved saved' now,
    (r'.enforce o saved now).2.Perm (r.enforce o' saved' now).2

theorem range_perm_of_lookup {m m' : GoMap String Tenant} (h : ∀ k, m'.lookup k = m.lookup k)
    (o o' : Order String) : (GoMap.range o m').Perm (GoMap.range o' m) := by
  refine (List.perm_ext_iff_of_nodup (List.Nodup.of_map _ (GoMap.range_nodup o m'))
    (List.Nodup.of_map _ (GoMap.range_nodup o' m))).2 fun p => ?_
  rw [GoMap.mem_range, GoMap.mem_range, h]

theorem Untouched.alike (h : r.Untouched r') : r.Alike r' where
  same := .of_lookups h.get fun hash => by rw [h.byKey]
  enforced := fun o o' saved saved' now k => by rw [get_enforce, get_enforce, h.get]
  reported := fun o o' saved saved' now => by
    rw [enforce_changes, enforce_changes]
    exact ((range_perm_of_lookup h.get o o').filter _).map _

theorem failed_update_iff {id : String} {f : Tenant → Tenant} (h : e.call.update = some (id, f)) :
    (r.exec e).2.Failed ↔ r.get id = none ∨ e.saved id = false := by
  rw [exec_of_update h, ← modify_error_iff r (e.saved id) id f]
  show Reply.Failed (.tenant (r.modify (e.saved id) id f).2) ↔ _
  cases (r.modify (e.saved id) id f).2 with
  | error err => exact iff_of_true trivial ⟨err, rfl⟩
  | ok t => exact iff_of_false not_false (by rintro ⟨err, h⟩; cases h)

/-- **There is nothing the call could leave behind**: it is none of the
operations on one tenant, its tenant is unknown, its write goes through,
or the tenant already is what the call makes of it. -/
def Harmless (r : Registry) (e : RegistryEvent) : Prop :=
  ∀ id f, e.call.update = some (id, f) → ∀ t, r.get id = some t →
    e.saved id = true ∨ e.call.Idle t

theorem alike_of_not_update (h : e.call.update = none) (hfailed : (r.exec e).2.Failed) :
    r.Alike (r.exec e).1 := by
  cases hcall : e.call with
  | createTenant p =>
    have hexec : r.exec e = answer (r.createTenant (e.saved p.id) p) := by simp [exec, hcall]
    rw [hexec] at hfailed ⊢
    rcases createTenant_outcome r (e.saved p.id) p with ⟨-, hsame⟩ | ⟨hok, -⟩
    · exact hsame.alike
    · rw [answer, hok] at hfailed
      exact hfailed.elim
  | delete id =>
    have hexec : r.exec e =
        ((r.delete (e.saved id) id).1, .deleted (r.delete (e.saved id) id).2) := by
      simp [exec, hcall]
    rw [hexec] at hfailed ⊢
    rcases delete_outcome r (e.saved id) id with ⟨-, hsame⟩ | ⟨hok, -⟩
    · exact hsame.alike
    · rw [hok] at hfailed
      exact hfailed.elim
  | get id => simp [exec, hcall, Reply.Failed] at hfailed
  | enforce now => simp [exec, hcall, Reply.Failed] at hfailed
  | _ =>
    rw [hcall] at h
    cases h

/-- **A failing call leaves everything as it was exactly if it is
harmless.** -/
theorem failed_call_keeps_iff (r : Registry) (e : RegistryEvent) :
    ((r.exec e).2.Failed → r.Alike (r.exec e).1) ↔ r.Harmless e := by
  cases hupdate : e.call.update with
  | none =>
    refine iff_of_true (alike_of_not_update hupdate) fun id f h => ?_
    rw [hupdate] at h
    cases h
  | some upd =>
    obtain ⟨id, f⟩ := upd
    constructor
    · intro hkeeps id' f' h' t ht
      obtain ⟨rfl, rfl⟩ := Prod.mk.inj (Option.some.inj (hupdate.symm.trans h'))
      by_contra hleft
      rw [not_or, Bool.not_eq_true] at hleft
      -- the write fails, and what the call made of the tenant stays
      have halike := hkeeps ((failed_update_iff hupdate).2 (Or.inr hleft.1))
      have hget : (r.exec e).1.get id = r.get id := halike.same.byID id
      rw [get_exec_update hupdate, if_pos rfl, ht] at hget
      exact hleft.2 ((Call.idle_iff hupdate t).2 (Option.some.inj hget))
    · intro hharmless hfailed
      refine Untouched.alike ⟨?_, fun k => ?_⟩
      · rw [exec_of_update hupdate]
        exact byKey_modify r (e.saved id) id f
      · rw [get_exec_update hupdate]
        split_ifs with hk
        · rw [hk]
          cases ht : r.get id with
          | none => rfl
          | some t =>
            rcases (failed_update_iff hupdate).1 hfailed with hnone | hsaved
            · rw [ht] at hnone
              cases hnone
            · rcases hharmless id f hupdate t ht with htrue | hidle
              · rw [hsaved] at htrue
                cases htrue
              · rw [Option.map_some, (Call.idle_iff hupdate t).1 hidle]
        · rfl

end Registry

/-- A tenant is suspended by hand, and the write of its resumption fails:
the call returns an error, and the tenant's key is let through. -/
theorem resumed_by_failed_write :
    let r := (Logged.run [⟨.createTenant ⟨"a", "k", 100, 0, 0, 0⟩, fun _ => true, .given⟩,
      ⟨.suspend "a" .manual, fun _ => true, .given⟩]).reg
    let e : RegistryEvent := ⟨.resume "a", fun _ => false, .given⟩
    (r.exec e).2.Failed ∧ (r.authorize "k" 5).allowed = false ∧
      ((r.exec e).1.authorize "k" 5).allowed = true ∧ ¬ r.Alike (r.exec e).1 := by
  intro r e
  have hbefore : (r.authorize "k" 5).allowed = false := by decide +kernel
  have hafter : ((r.exec e).1.authorize "k" 5).allowed = true := by decide +kernel
  refine ⟨trivial, hbefore, hafter, fun halike => ?_⟩
  rw [halike.same.authorize, hbefore] at hafter
  cases hafter

end NodeAgent
