import NodeAgent.Common.Words
import NodeAgent.Tenant.Decisions
/-!
# The limit in 64-bit words

A tenant's usage is the wrapped sum of what it was billed since its last
reset, and its limit the wrapped sum of quota and credit. `Authorize` and
`Enforce` compare the two words. They decide on the true sums exactly if
the words compare as the sums do: a quota and a credit that add up to
`2^63` or more, which is the natural way to say unlimited, shut the tenant
out at once.
-/

namespace NodeAgent

/-! ## What was billed since the last reset -/

namespace Logged

/-- What an entry of the history leaves billed to a tenant: a registration
or a reset starts anew, a usage adds its nonnegative part. -/
def tally (id : String) (sum : ℕ) : Call × Reply → ℕ
  | (.createTenant p, .tenant (.ok _)) => if p.id = id then 0 else sum
  | (.addUsage id' delta, _) => if id' = id then sum + delta.toInt.toNat else sum
  | (.resetPeriod id', _) => if id' = id then 0 else sum
  | _ => sum

/-- **What was billed to a tenant since its last reset**, as an integer. -/
def billed (s : Logged) (id : String) : ℕ :=
  s.log.foldl (tally id) 0

theorem billed_step (s : Logged) (e : RegistryEvent) (id : String) :
    (s.step e).billed id = tally id (s.billed id) (e.call, (s.reg.exec e).2) := by
  rw [billed, step, List.foldl_append]
  rfl

/-- The word that holds the usage is the wrapped sum. -/
def Tallied (s : Logged) : Prop :=
  ∀ id t, s.reg.get id = some t → t.usedBytes = Int64.ofNat (s.billed id)

theorem bill_usedBytes {t : Tenant} {sum : ℕ} (h : t.usedBytes = Int64.ofNat sum) (delta : Int64) :
    (t.bill delta).usedBytes = Int64.ofNat (sum + delta.toInt.toNat) := by
  have hadd : (if delta < 0 then 0 else delta) = Int64.ofNat delta.toInt.toNat := by
    split_ifs with hneg
    · have hle : delta.toInt ≤ 0 := (Int64.lt_iff_toInt_lt.1 hneg).le
      rw [Int.toNat_of_nonpos hle]
      rfl
    · exact Words.eq_ofNat_of_nonneg (not_lt.1 fun hlt => hneg (Int64.lt_iff_toInt_lt.2 hlt))
  rw [Tenant.bill, hadd, h, Int64.ofNat_add]

variable {e : RegistryEvent} {s : Logged}

theorem Tallied.update (h : s.Tallied) {id : String}
    {f : Tenant → Tenant} (hupdate : e.call.update = some (id, f))
    (hf : ∀ t, t.usedBytes = Int64.ofNat (s.billed id) →
      (f t).usedBytes = Int64.ofNat ((s.step e).billed id))
    (hother : ∀ k, k ≠ id → (s.step e).billed k = s.billed k) : (s.step e).Tallied := by
  intro k t ht
  have hget : (s.reg.exec e).1.get k = some t := ht
  rw [Registry.get_exec_update hupdate] at hget
  split_ifs at hget with hk
  · obtain ⟨t₀, ht₀, rfl⟩ := Option.map_eq_some_iff.1 hget
    rw [hk]
    exact hf t₀ (h id t₀ ht₀)
  · rw [hother k hk]
    exact h k t hget

theorem Tallied.same (h : s.Tallied) (hget : ∀ k t, (s.step e).reg.get k = some t →
      ∃ t₀, s.reg.get k = some t₀ ∧ t.usedBytes = t₀.usedBytes)
    (hbilled : ∀ k, (s.step e).billed k = s.billed k) : (s.step e).Tallied := by
  intro k t ht
  obtain ⟨t₀, ht₀, hused⟩ := hget k t ht
  rw [hused, hbilled, h k t₀ ht₀]

theorem Tallied.keep (h : s.Tallied) {id : String}
    {f : Tenant → Tenant} (hupdate : e.call.update = some (id, f))
    (hf : ∀ t, (f t).usedBytes = t.usedBytes)
    (hbilled : ∀ k, (s.step e).billed k = s.billed k) : (s.step e).Tallied := by
  refine h.update hupdate (fun t ht => ?_) fun k _ => hbilled k
  rw [hf, hbilled, ht]

theorem Tallied.create (h : s.Tallied)
    {p : Registry.CreateParams} (hcall : e.call = .createTenant p) : (s.step e).Tallied := by
  have hexec : s.reg.exec e = Registry.answer (s.reg.createTenant (e.saved p.id) p) := by
    simp [Registry.exec, hcall]
  rcases Registry.createTenant_outcome s.reg (e.saved p.id) p with
    ⟨⟨err, herr⟩, hsame⟩ | ⟨hok, hreg⟩
  · refine h.same (fun k t ht => ⟨t, ?_, rfl⟩) fun k => ?_
    · rw [← hsame.get, ← ht, Logged.step, hexec]
      rfl
    · rw [billed_step, hcall, hexec, Registry.answer, herr]
      rfl
  · intro k t ht
    rw [billed_step, hcall, hexec, Registry.answer, hok, tally]
    have hget : (Registry.answer (s.reg.createTenant (e.saved p.id) p)).1.get k = some t := by
      rw [← hexec]
      exact ht
    rw [Registry.answer, hreg.get] at hget
    split_ifs at hget with hk
    · rw [if_pos hk.symm, ← Option.some.inj hget]
      rfl
    · rw [if_neg fun heq => hk heq.symm]
      exact h k t hget

theorem Tallied.delete (h : s.Tallied) {id : String}
    (hcall : e.call = .delete id) : (s.step e).Tallied := by
  have hexec : s.reg.exec e = ((s.reg.delete (e.saved id) id).1,
      .deleted (s.reg.delete (e.saved id) id).2) := by simp [Registry.exec, hcall]
  refine h.same (fun k t ht => ⟨t, ?_, rfl⟩) fun k => by rw [billed_step, hcall]; rfl
  have hget : (s.reg.delete (e.saved id) id).1.get k = some t := by
    rw [← ht, Logged.step, hexec]
  rcases Registry.delete_outcome s.reg (e.saved id) id with ⟨-, hsame⟩ | ⟨-, hdrop⟩
  · rw [← hsame.get, hget]
  · rw [hdrop.get] at hget
    split_ifs at hget
    exact hget

theorem Tallied.step (h : s.Tallied) (e : RegistryEvent) : (s.step e).Tallied := by
  cases hcall : e.call with
  | createTenant p => exact h.create hcall
  | delete id => exact h.delete hcall
  | get id =>
    refine h.same (fun k t ht => ⟨t, ?_, rfl⟩) fun k => by rw [billed_step, hcall]; rfl
    rw [← ht, Logged.step]
    simp [Registry.exec, hcall]
  | enforce now =>
    refine h.same (fun k t ht => ?_) fun k => by rw [billed_step, hcall]; rfl
    have hget : (s.reg.enforce e.order e.saved now).1.get k = some t := by
      rw [← ht, Logged.step]
      simp [Registry.exec, hcall]
    rw [Registry.get_enforce] at hget
    obtain ⟨t₀, ht₀, rfl⟩ := Option.map_eq_some_iff.1 hget
    exact ⟨t₀, ht₀, Tenant.enforced_usedBytes now t₀⟩
  | addUsage id delta =>
    have hupdate : e.call.update = some (id, Tenant.bill delta) := by rw [hcall]; rfl
    refine h.update hupdate (fun t ht => ?_) fun k hk => ?_
    · rw [billed_step, hcall, tally, if_pos rfl]
      exact bill_usedBytes ht delta
    · rw [billed_step, hcall, tally, if_neg fun heq => hk heq.symm]
  | resetPeriod id =>
    have hupdate : e.call.update = some (id, Tenant.renewed) := by rw [hcall]; rfl
    refine h.update hupdate (fun t ht => ?_) fun k hk => ?_
    · rw [billed_step, hcall, tally, if_pos rfl]
      rfl
    · rw [billed_step, hcall, tally, if_neg fun heq => hk heq.symm]
  | setQuota id q c x =>
    have hupdate : e.call.update = some (id, Tenant.requota q c x) := by rw [hcall]; rfl
    exact h.keep hupdate (fun _ => rfl) fun k => by rw [billed_step, hcall]; rfl
  | suspend id reason =>
    have hupdate : e.call.update = some (id, Tenant.suspendedFor reason) := by rw [hcall]; rfl
    exact h.keep hupdate (fun _ => rfl) fun k => by rw [billed_step, hcall]; rfl
  | resume id =>
    have hupdate : e.call.update = some (id, Tenant.resumed) := by rw [hcall]; rfl
    exact h.keep hupdate (fun _ => rfl) fun k => by rw [billed_step, hcall]; rfl

/-- **The usage is the wrapped sum, in every state.** -/
theorem tallied_run (es : List RegistryEvent) : (run es).Tallied :=
  List.foldlRecOn (motive := fun s : Logged => s.Tallied) es step
    (fun id t ht => by cases ht) fun _ h e _ => h.step e

end Logged

/-! ## The two decisions -/

/-- **The two words compare as the sums they wrap.** Below `2^63` that is
as long as the limit is below it too. -/
def ExactAt (limit sum : ℕ) : Prop :=
  sum < 2 ^ 63 ∧ limit < 2 ^ 63 ∨
    2 ^ 63 ≤ sum ∧ (sum < limit ∨ (limit + 2 ^ 63) % 2 ^ 64 ≤ (sum + 2 ^ 63) % 2 ^ 64)

namespace Tenant

variable {t : Tenant} {now : Int64}

/-- **The limit of a tenant**, as an integer. -/
def limit (t : Tenant) : ℕ :=
  t.quotaBytes.toInt.toNat + t.creditLimitBytes.toInt.toNat

theorem effectiveLimit_eq (hq : 0 ≤ t.quotaBytes.toInt) (hc : 0 ≤ t.creditLimitBytes.toInt) :
    t.effectiveLimit = Int64.ofNat t.limit := by
  rw [effectiveLimit, limit, Int64.ofNat_add, ← Words.eq_ofNat_of_nonneg hq,
    ← Words.eq_ofNat_of_nonneg hc]

theorem limit_lt (t : Tenant) : t.limit < 2 ^ 64 := by
  have hq : t.quotaBytes.toInt < 2 ^ 63 := Int64.toInt_lt t.quotaBytes
  have hc : t.creditLimitBytes.toInt < 2 ^ 63 := Int64.toInt_lt t.creditLimitBytes
  unfold limit
  omega

theorem decision_exhausted_iff (hact : t.status = .active)
    (hlive : ¬ (0 < t.expireAt ∧ t.expireAt < now)) :
    (t.decision now).code = .resourceExhausted ↔ t.effectiveLimit ≤ t.usedBytes := by
  unfold decision
  rw [if_neg (by simp [hact]), if_neg (by simp [hact]), if_neg hlive]
  split_ifs with hover <;> simp [hover]

theorem enforced_quota_iff (hact : t.status = .active)
    (hlive : ¬ (0 < t.expireAt ∧ t.expireAt < now)) :
    ((t.enforced now).status = .suspended ∧ (t.enforced now).reason = .quota) ↔
      t.effectiveLimit ≤ t.usedBytes := by
  have hreason : t.dueReason now = if t.effectiveLimit ≤ t.usedBytes then .quota else .none := by
    rw [dueReason, if_neg hlive]
  by_cases hover : t.effectiveLimit ≤ t.usedBytes
  · rw [if_pos hover] at hreason
    have hdue : t.Due now := ⟨hact, by simp [hreason]⟩
    simp [enforced, hdue, hreason, hover]
  · rw [if_neg hover] at hreason
    have hnotdue : ¬ t.Due now := fun h => h.2 hreason
    simp [enforced, hnotdue, hact, hover]

end Tenant

/-- **Limit arithmetic is exact exactly where the words compare as the
sums.** After any calls, for an active tenant that has not expired and
whose quota and credit are not negative: its key is refused as exhausted,
and an enforcement suspends it for its quota, if and only if what it was
billed since its last reset is at least quota and credit. -/
theorem limit_exact_iff (es : List RegistryEvent) (key : String) (now : Int64) {t : Tenant}
    (hkey : (Logged.run es).reg.resolve key = some t) (hact : t.status = .active)
    (hlive : ¬ (0 < t.expireAt ∧ t.expireAt < now)) (hq : 0 ≤ t.quotaBytes.toInt)
    (hc : 0 ≤ t.creditLimitBytes.toInt) (o : Order String) (saved : String → Bool) :
    ((((Logged.run es).reg.authorize key now).code = .resourceExhausted ↔
          t.limit ≤ (Logged.run es).billed t.id) ∧
        ((∃ t', ((Logged.run es).reg.enforce o saved now).1.get t.id = some t' ∧
            t'.status = .suspended ∧ t'.reason = .quota) ↔
          t.limit ≤ (Logged.run es).billed t.id)) ↔
      ExactAt t.limit ((Logged.run es).billed t.id) := by
  have hget : (Logged.run es).reg.get t.id = some t := by
    obtain ⟨id, -, hbyID⟩ := Option.bind_eq_some_iff.1 hkey
    rw [(Logged.run es).reg.keyed id t hbyID]
    exact hbyID
  have hauthorize := Tenant.decision_exhausted_iff hact hlive
  have henforce : (∃ t', ((Logged.run es).reg.enforce o saved now).1.get t.id = some t' ∧
      t'.status = .suspended ∧ t'.reason = .quota) ↔ t.effectiveLimit ≤ t.usedBytes := by
    rw [Registry.get_enforce, hget, ← Tenant.enforced_quota_iff hact hlive]
    simp
  rw [Registry.authorize_of_resolve hkey, hauthorize, henforce, and_self,
    Tenant.effectiveLimit_eq hq hc, Logged.tallied_run es t.id t hget,
    Words.ofNat_le_ofNat_iff_le t.limit_lt]
  rfl

namespace Demo

def limited (quota credit : Int64) (deltas : List Int64) : List RegistryEvent :=
  ⟨.createTenant ⟨"a", "k", quota, credit, 0, 0⟩, fun _ => true, .given⟩ ::
    deltas.map fun d => ⟨.addUsage "a" d, fun _ => true, .given⟩

end Demo

/-- The greatest quota and a credit of one byte: the tenant is shut out
before it has used anything. -/
theorem greatest_quota_exhausted :
    let s := Logged.run (Demo.limited 9223372036854775807 1 [])
    (s.reg.resolve "k").map Tenant.limit = some (2 ^ 63) ∧ s.billed "a" = 0 ∧
      (s.reg.authorize "k" 5).code = .resourceExhausted ∧
      ((s.reg.enforce .given (fun _ => true) 5).1.get "a").map Tenant.reason = some .quota := by
  intro s
  exact ⟨by decide +kernel, by decide +kernel, by decide +kernel, by decide +kernel⟩

/-- A hundred bytes of quota, ten of credit, and hundred and ten billed in
two parts, with a negative delta between them. -/
theorem limit_exact_at_edge :
    ∃ t, (Logged.run (Demo.limited 100 10 [60, -5, 50])).reg.resolve "k" = some t ∧
      ((((Logged.run (Demo.limited 100 10 [60, -5, 50])).reg.authorize "k" 5).code =
          .resourceExhausted ↔
            t.limit ≤ (Logged.run (Demo.limited 100 10 [60, -5, 50])).billed t.id) ∧
        ((∃ t', ((Logged.run (Demo.limited 100 10 [60, -5, 50])).reg.enforce .given
            (fun _ => true) 5).1.get t.id = some t' ∧ t'.status = .suspended ∧ t'.reason = .quota) ↔
          t.limit ≤ (Logged.run (Demo.limited 100 10 [60, -5, 50])).billed t.id)) := by
  have hstate : ((Logged.run (Demo.limited 100 10 [60, -5, 50])).reg.resolve "k").map
      (fun t => (t.id, t.status, t.expireAt, t.quotaBytes, t.creditLimitBytes)) =
      some ("a", .active, 0, 100, 10) := by decide +kernel
  obtain ⟨t, ht, hfields⟩ := Option.map_eq_some_iff.1 hstate
  simp only [Prod.mk.injEq] at hfields
  obtain ⟨hid, hact, hexpire, hquota, hcredit⟩ := hfields
  refine ⟨t, ht, (limit_exact_iff _ "k" 5 ht hact ?_ ?_ ?_ .given fun _ => true).2 ?_⟩
  · rw [hexpire]
    decide
  · rw [hquota]
    decide
  · rw [hcredit]
    decide
  · have hbilled : (Logged.run (Demo.limited 100 10 [60, -5, 50])).billed "a" = 110 := by
      decide +kernel
    rw [hid, hbilled, Tenant.limit, hquota, hcredit]
    exact Or.inl ⟨by decide, by decide⟩

end NodeAgent
