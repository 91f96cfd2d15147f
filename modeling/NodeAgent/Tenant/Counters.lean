import NodeAgent.Tenant.Persistence
import Mathlib.Data.Prod.Lex
/-!
# The counters of a tenant only grow

Billing reads the period of a tenant and the bytes used in it, and orders
the pairs lexicographically. No call to the registry takes a tenant back
in that order (`Registry.grows_exec`). A restart could, by loading
an older record; it does not where the last write of the record went
through, since then the store holds the tenant as it is in memory
(`Journal.Current`). The other writes may all fail.
-/

namespace NodeAgent

namespace Tenant

variable {t : Tenant}

/-- **What billing reads of a tenant**: the period, then the bytes. -/
def counters (t : Tenant) : ℕ ×ₗ ℤ :=
  toLex (t.periodID.toNat, t.usedBytes.toInt)

/-- **A tenant whose counters have not been taken back**, and whose usage
has not become negative. -/
structure Grows (t t' : Tenant) : Prop where
  counters : t.counters ≤ t'.counters
  nonneg : 0 ≤ t.usedBytes.toInt → 0 ≤ t'.usedBytes.toInt

theorem Grows.refl (t : Tenant) : t.Grows t :=
  ⟨le_rfl, fun h => h⟩

theorem Grows.trans {t' t'' : Tenant} (h : t.Grows t') (h' : t'.Grows t'') : t.Grows t'' :=
  ⟨h.counters.trans h'.counters, h'.nonneg ∘ h.nonneg⟩

theorem Grows.of_eq {t' : Tenant} (hperiod : t'.periodID = t.periodID)
    (hused : t'.usedBytes = t.usedBytes) : t.Grows t' := by
  refine ⟨le_of_eq ?_, fun h => by rwa [hused]⟩
  unfold Tenant.counters
  rw [hperiod, hused]

theorem toInt_bill {delta : Int64} (hfits : t.usedBytes.toInt + delta.toInt.toNat < 2 ^ 63) :
    (t.bill delta).usedBytes.toInt = t.usedBytes.toInt + delta.toInt.toNat := by
  have hlow := t.usedBytes.le_toInt
  have hneg : delta < 0 ↔ delta.toInt < 0 := Int64.lt_iff_toInt_lt
  show (t.usedBytes + if delta < 0 then 0 else delta).toInt = _
  rw [Int64.toInt_add]
  split_ifs with h
  · rw [hneg] at h
    have hzero : delta.toInt.toNat = 0 := by omega
    rw [hzero] at hfits ⊢
    exact Int.bmod_eq_of_le (by simpa using hlow) (by simpa using hfits)
  · rw [hneg] at h
    have hdelta : delta.toInt = (delta.toInt.toNat : ℤ) := by omega
    rw [← hdelta] at hfits ⊢
    exact Int.bmod_eq_of_le (by omega) (by omega)

theorem grows_bill {delta : Int64} (hfits : t.usedBytes.toInt + delta.toInt.toNat < 2 ^ 63) :
    t.Grows (t.bill delta) := by
  have hsum := toInt_bill hfits
  refine ⟨Prod.Lex.toLex_le_toLex.2 (Or.inr ⟨rfl, ?_⟩), fun hnonneg => ?_⟩
  · show t.usedBytes.toInt ≤ (t.bill delta).usedBytes.toInt
    omega
  · omega

theorem grows_renewed (hfits : t.periodID.toNat + 1 < 2 ^ 64) : t.Grows t.renewed := by
  refine ⟨Prod.Lex.toLex_le_toLex.2 (Or.inl ?_), fun _ => le_rfl⟩
  show t.periodID.toNat < (t.periodID + 1).toNat
  have hone : (1 : UInt64).toNat = 1 := rfl
  rw [UInt64.toNat_add]
  omega

end Tenant

namespace Registry

variable {r : Registry} {e : RegistryEvent} {id : String} {t : Tenant}

/-- **The call keeps the counters of a tenant in range**, and does not
delete it: the bytes of its period stay below `2 ^ 63`, and the period
below the last one. -/
def Fits (id : String) (r : Registry) (e : RegistryEvent) : Prop :=
  match e.call with
  | .addUsage id' delta => id' = id →
      ∀ t ∈ r.get id, t.usedBytes.toInt + delta.toInt.toNat < 2 ^ 63
  | .resetPeriod id' => id' = id → ∀ t ∈ r.get id, t.periodID.toNat + 1 < 2 ^ 64
  | .delete id' => id' = id → e.saved id = false
  | _ => True

instance (id : String) (r : Registry) (e : RegistryEvent) : Decidable (r.Fits id e) := by
  unfold Fits
  split <;> infer_instance

theorem grows_update {f : Tenant → Tenant} (h : e.call.update = some (id, f))
    (hfits : r.Fits id e) (ht : r.get id = some t) : t.Grows (f t) := by
  unfold Fits at hfits
  cases hcall : e.call <;>
    simp only [hcall, Call.update, Option.some.injEq, Prod.mk.injEq, reduceCtorEq] at h hfits
  case addUsage =>
    obtain ⟨hid, rfl⟩ := h
    exact Tenant.grows_bill (hfits hid t ht)
  case resetPeriod =>
    obtain ⟨hid, rfl⟩ := h
    exact Tenant.grows_renewed (hfits hid t ht)
  all_goals
    obtain ⟨-, rfl⟩ := h
    exact Tenant.Grows.of_eq rfl rfl

/-- **No call takes a tenant's counters back**, whichever tenant it is on
and whichever of its writes fail. -/
theorem grows_exec (hfits : r.Fits id e) (ht : r.get id = some t) :
    ∃ t', (r.exec e).1.get id = some t' ∧ t.Grows t' := by
  cases hcall : e.call with
  | createTenant p =>
    have hexec : r.exec e = answer (r.createTenant (e.saved p.id) p) := by simp [exec, hcall]
    rw [hexec]
    rcases createTenant_outcome r (e.saved p.id) p with ⟨-, hsame⟩ | ⟨-, hreg⟩
    · exact ⟨t, (hsame.get id).trans ht, .refl t⟩
    · -- the id was free, so it is another tenant's
      have hne : id ≠ p.id := by
        rintro rfl
        cases ht.symm.trans hreg.free
      refine ⟨t, ?_, .refl t⟩
      exact (hreg.get id).trans ((if_neg hne).trans ht)
  | get id' =>
    refine ⟨t, ?_, .refl t⟩
    simpa [exec, hcall] using ht
  | delete id' =>
    have hexec : (r.exec e).1 = (r.delete (e.saved id') id').1 := by simp [exec, hcall]
    rw [hexec]
    rcases delete_outcome r (e.saved id') id' with ⟨-, hsame⟩ | ⟨hok, hdrop⟩
    · exact ⟨t, (hsame.get id).trans ht, .refl t⟩
    · have hne : id ≠ id' := by
        rintro rfl
        have hsaved : e.saved id = false := by
          unfold Fits at hfits
          rw [hcall] at hfits
          exact hfits rfl
        rw [hsaved] at hok
        simp [delete, show r.byID.lookup id = some t from ht] at hok
      refine ⟨t, ?_, .refl t⟩
      exact (hdrop.get id).trans ((if_neg hne).trans ht)
  | enforce now =>
    have hexec : (r.exec e).1 = (r.enforce e.order e.saved now).1 := by simp [exec, hcall]
    refine ⟨t.enforced now, ?_, ?_⟩
    · rw [hexec, get_enforce, ht]
      rfl
    · refine .of_eq ?_ (Tenant.enforced_usedBytes now t)
      unfold Tenant.enforced
      split <;> rfl
  | _ =>
    obtain ⟨id', f, h⟩ : ∃ id' f, e.call.update = some (id', f) := by
      rw [hcall]
      exact ⟨_, _, rfl⟩
    rw [get_exec_update h]
    split_ifs with hid
    · subst hid
      exact ⟨f t, by rw [ht]; rfl, grows_update h hfits ht⟩
    · exact ⟨t, ht, .refl t⟩

end Registry

/-! ## Restarts -/

/-- **A registry, its store, and how the latest write of each tenant's
record went.** -/
structure Journal (σ : Type) extends Backed σ where
  /-- The latest write of the tenant's record went through, if there was
  one. -/
  written : String → Bool

namespace Journal

variable {σ : Type} {S : RecordStore String Tenant σ} {rep : σ → (String → Option Tenant) → Prop}
variable {s : Journal σ} {id : String} {t : Tenant}

/-- A new store. -/
def start (S : RecordStore String Tenant σ) : Journal σ where
  toBacked := Backed.start S
  written := fun _ => true

/-- One call or one restart. -/
def step (S : RecordStore String Tenant σ) (s : Journal σ) (l : Backed.Life) : Journal σ where
  toBacked := s.toBacked.step S l
  written :=
    match l with
    | .call e => fun id => (s.reg.attempted e id).getD (s.written id)
    | .restart _ => s.written

/-- **The records written last are the tenants in memory**; the store has
some record for the others, or none. -/
def Current (rep : σ → (String → Option Tenant) → Prop) (s : Journal σ) : Prop :=
  ∃ d, rep s.disk d ∧ (∀ id t, d id = some t → t.id = id) ∧
    ∀ id, s.written id = true → d id = s.reg.get id

theorem current_start (hS : S.Represents Tenant.id rep) : (start S).Current rep :=
  ⟨fun _ => none, hS.empty, fun _ _ h => (Option.some_ne_none _ h.symm).elim, fun id _ => by
    simp [start, Backed.start, Registry.newRegistry, Registry.get]⟩

theorem keyed_writes (ws : List (Write String Tenant)) {d : String → Option Tenant}
    (hd : ∀ id t, d id = some t → t.id = id) :
    ∀ id t, ws.foldl (RecordStore.update Tenant.id) d id = some t → t.id = id := by
  induction ws generalizing d with
  | nil => exact hd
  | cons w ws ih =>
    refine ih fun id t ht => ?_
    cases w with
    | save v =>
      rw [RecordStore.update, Function.update_apply] at ht
      split_ifs at ht with hid
      · rw [← Option.some.inj ht, hid]
      · exact hd id t ht
    | delete k =>
      rw [RecordStore.update, Function.update_apply] at ht
      split_ifs at ht with hid
      exact hd id t ht

theorem Current.reopen (hS : S.Represents Tenant.id rep) (h : s.Current rep) (o : Order String) :
    ∃ r d, Registry.openStore S o s.disk = some r ∧ rep s.disk d ∧
      (∀ id t, d id = some t → t.id = id) ∧ (∀ id, r.get id = d id) ∧
      ∀ id, s.written id = true → r.get id = s.reg.get id := by
  obtain ⟨d, hrep, hkeyed, hcurrent⟩ := h
  obtain ⟨ts, hload, hnodup, hts⟩ := hS.load o hrep hkeyed
  have hget := Registry.get_ofTenants hkeyed hnodup hts (ts.foldl (fun m t => m.insert t.id t) ∅)
  exact ⟨_, d, by rw [Registry.openStore, hload]; rfl, hrep, hkeyed, hget,
    fun id hid => (hget id).trans (hcurrent id hid)⟩

/-- **Every call and every restart keep it**, whichever writes fail. -/
theorem Current.step (hS : S.Represents Tenant.id rep) (h : s.Current rep) (l : Backed.Life) :
    (s.step S l).Current rep := by
  cases l with
  | call e =>
    obtain ⟨d, hrep, hkeyed, hcurrent⟩ := h
    refine ⟨_, hS.writes (s.reg.writes e) hrep, keyed_writes _ hkeyed, fun id hid => ?_⟩
    have hid' : (s.reg.attempted e id).getD (s.written id) = true := hid
    refine Registry.leaves_of_attempted (fun hfailed => ?_) fun hnone => hcurrent id ?_
    · rw [hfailed] at hid'
      cases hid'
    · rwa [hnone] at hid'
  | restart o =>
    obtain ⟨r, d, hopen, hrep, hkeyed, hget, -⟩ := h.reopen hS o
    have hreg : (s.step S (.restart o)).reg = r := by simp [Journal.step, Backed.step, hopen]
    exact ⟨d, hrep, hkeyed, fun id _ => by rw [hreg, hget]⟩

/-- **The step leaves the tenant to be billed**: a call that keeps its
counters in range, or a restart when its latest write has gone through. -/
def Billable (id : String) (s : Journal σ) : Backed.Life → Prop
  | .call e => s.reg.Fits id e
  | .restart _ => s.written id = true

instance (id : String) (s : Journal σ) (l : Backed.Life) : Decidable (s.Billable id l) :=
  match l with
  | .call e => inferInstanceAs (Decidable (s.reg.Fits id e))
  | .restart _ => inferInstanceAs (Decidable (s.written id = true))

/-- **Such a step does not take the counters back.** -/
theorem grows_step (hS : S.Represents Tenant.id rep) (h : s.Current rep) {l : Backed.Life}
    (hl : s.Billable id l) (ht : s.reg.get id = some t) :
    ∃ t', (s.step S l).reg.get id = some t' ∧ t.Grows t' := by
  cases l with
  | call e => exact Registry.grows_exec hl ht
  | restart o =>
    obtain ⟨r, d, hopen, -, -, -, hsame⟩ := h.reopen hS o
    have hreg : (s.step S (.restart o)).reg = r := by simp [Journal.step, Backed.step, hopen]
    exact ⟨t, by rw [hreg, hsame id hl, ht], .refl t⟩

theorem Current.foldl (hS : S.Represents Tenant.id rep) (ls : List Backed.Life)
    (h : s.Current rep) : (ls.foldl (Journal.step S) s).Current rep :=
  List.foldlRecOn ls _ h fun _ hs l _ => hs.step hS l

theorem grows_foldl (hS : S.Represents Tenant.id rep) {ls : List Backed.Life} (h : s.Current rep)
    (hls : Runs.Allowed (Journal.step S) (Billable id) ls s) (ht : s.reg.get id = some t) :
    ∃ t', (ls.foldl (Journal.step S) s).reg.get id = some t' ∧ t.Grows t' := by
  induction ls generalizing s t with
  | nil => exact ⟨t, ht, .refl t⟩
  | cons l ls ih =>
    obtain ⟨t₁, ht₁, hgrows₁⟩ := grows_step hS h hls.1 ht
    obtain ⟨t₂, ht₂, hgrows₂⟩ := ih (h.step hS l) hls.2 ht₁
    exact ⟨t₂, ht₂, hgrows₁.trans hgrows₂⟩

end Journal

end NodeAgent
