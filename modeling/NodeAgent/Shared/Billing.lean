import Mathlib.Algebra.GroupWithZero.Nat
import NodeAgent.Shared.Helpers.Billing
/-!
# What a tenant is billed

A run is followed together with what its users really carried and what
polls have read of it. Three things are said about the usage a tenant ends
up with: with fixed user sets it is never more than was carried, and
exactly that as long as the core runs on; across changes of a set it is
exact if those who come and go have nothing left to bill; and across
restarts it is what was last read before each, if a counter read for the
first time cannot be taken for the old one grown on. Each is a run of the
machine of `Common/Meter.lean`, and each needs the emails that carry
traffic to be ones a poll can read.
-/

namespace NodeAgent

open Metering

/-- **A node with what has happened on it.** -/
structure Trace where
  m : Manager
  /-- The bytes a tenant's users carried while they were its users. -/
  carried : String → ℕ
  /-- Of earlier lifetimes of the core, the sum of what was last read for
  an email in each. -/
  past : String → ℕ
  /-- What was last read for an email in this lifetime of the core. -/
  read : String → Option ℕ

/-- The operations that end the lifetime of the core. A restart without a
configuration to restart from is refused. -/
def Manager.endsCore (m : Manager) : Op → Bool
  | .applyConfig _ | .stop | .coreRestart => true
  | .restartCore => m.config ≠ ""
  | _ => false

namespace Trace

/-- Nothing has happened yet. -/
def start (m : Manager) : Trace :=
  ⟨m, fun _ => 0, fun _ => 0, fun _ => none⟩

/-- What a tenant's users carry in an operation. -/
def carries (m : Manager) (T : String) : Op → ℕ
  | .traffic e up down => if m.live.core.isSome ∧ e ∈ (m.usersOf T).keys then up + down else 0
  | _ => 0

/-- What is last read for an email after an operation in the same
lifetime. -/
def reads (m : Manager) (env : Env) (e : String) (read : Option ℕ) : Op → Option ℕ
  | .poll _ => if env.stats then (m.counted e).or read else read
  | _ => read

/-- One step. -/
def step (X : Externals) (s : Trace) (l : Env × Op) : Trace where
  m := s.m.step X l
  carried := fun T => s.carried T + carries s.m T l.2
  past := fun e => if s.m.endsCore l.2 then s.past e + (s.read e).getD 0 else s.past e
  read := fun e => if s.m.endsCore l.2 then none else reads s.m l.1 e (s.read e) l.2

/-- What a tenant should have been billed once all is billed: its usage at
the start, what was left to bill then, and what was carried since. -/
def due (m₀ : Manager) (s : Trace) (T : String) : ℕ :=
  m₀.usage T + m₀.meter.pending T + s.carried T

/-- What was read for a tenant's users, lifetime by lifetime. -/
def readSum (s : Trace) (T : String) : ℕ :=
  ∑ e ∈ (s.m.usersOf T).keys.toFinset, (s.past e + (s.read e).getD 0)

/-- The ledger of the meter. -/
def ledger (s : Trace) : Ledger String String :=
  ⟨s.m.meter, s.carried, s.past, s.read⟩

end Trace

/-- Traffic and polls. -/
def Op.metering : Op → Bool
  | .traffic _ _ _ | .poll _ => true
  | _ => false

/-- The ways a core is started again or stopped. -/
def Op.restarting : Op → Bool
  | .applyConfig _ | .restartCore | .stop | .coreRestart => true
  | _ => false

/-- **What is taken for granted of a step**: traffic is carried under
emails a poll can read; in a poll every write of a tenant succeeds, and the
counters, those of the tenants included, stay below `2^63`. -/
structure Sound (m₀ : Manager) (s : Trace) (l : Env × Op) : Prop where
  readable : ∀ e up down, l.2 = .traffic e up down → Parseable e ∧ e ≠ ""
  saved : ∀ now, l.2 = .poll now → ∀ T, l.1.save T = true
  counters : ∀ now, l.2 = .poll now → ∀ e c, s.m.counted e = some c → c < 2 ^ 63
  room : ∀ now, l.2 = .poll now → ∀ T, s.due m₀ T < 2 ^ 63

variable {X : Externals} {env : Env} {m₀ : Manager} {s : Trace} {l : Env × Op} {T : String}

/-! ## Steps of the ledger -/

theorem Accountable.members_disjoint {m : Manager} (h : Accountable m) {T T' e : String}
    (he : e ∈ m.meter.members T) (he' : e ∈ m.meter.members T') : T = T' := by
  have hmem := List.mem_toFinset.1 he
  exact h.coherent.eq_of_mem (h.coherent.registered T e hmem) (h.coherent.hasPrefix_of_mem hmem)
    (List.mem_toFinset.1 he')

theorem usedBytes_eq_usage {m : Manager} (h : Accountable m) {t : Tenant}
    (ht : m.reg.get T = some t) : t.usedBytes.toInt = m.usage T := by
  have hnn := h.used T t ht
  have husage : m.usage T = t.usedBytes.toInt.toNat := by simp [Manager.usage, ht]
  omega

namespace Trace

theorem ledger_traffic (s : Trace) (env : Env) (e : String) (up down : ℕ) :
    (s.step X (env, .traffic e up down)).ledger =
      if s.m.live.core.isSome then s.ledger.step (.carry e (up + down)) else s.ledger := by
  have hmeter := meter_carry s.m e up down
  show Ledger.mk (s.m.carry e up down).meter (fun T => s.carried T + carries s.m T _)
    s.past s.read = _
  rw [hmeter]
  cases hcore : s.m.live.core.isSome with
  | false =>
    simp only [carries, hcore, Bool.false_eq_true, false_and, if_false, Nat.add_zero]
    rfl
  | true =>
    have hcarries : ∀ T, carries s.m T (.traffic e up down) =
        s.m.meter.carriedBy T (.carry e (up + down)) := by
      intro T
      simp [carries, hcore, Meter.carriedBy, Manager.meter]
    simp only [hcarries, if_true]
    rfl

theorem ledger_restart (h : s.m.endsCore l.2 = true) (hr : Restarted s.m (s.m.step X l)) :
    (s.step X l).ledger = s.ledger.step .reset := by
  have hcarries : ∀ T, carries s.m T l.2 = 0 := by
    intro T
    obtain ⟨env, op⟩ := l
    cases op with
    | traffic e up down => cases h
    | _ => rfl
  show Ledger.mk (s.m.step X l).meter (fun T => s.carried T + carries s.m T l.2)
    (fun e => if s.m.endsCore l.2 then _ else _) (fun e => if s.m.endsCore l.2 then _ else _) = _
  rw [hr.meter]
  simp only [h, if_true, hcarries]
  rfl

theorem step_restartCore_refused (h : s.m.config = "") : s.step X (env, .restartCore) = s := by
  have hm : (s.m.restartCore X env).1 = s.m := by simp [Manager.restartCore, h]
  have hends : s.m.endsCore .restartCore = false := by simp [Manager.endsCore, h]
  show Trace.mk (s.m.restartCore X env).1 (fun T => s.carried T + 0)
    (fun e => if s.m.endsCore .restartCore then _ else _)
    (fun e => if s.m.endsCore .restartCore then _ else _) = s
  simp only [hm, hends]
  rfl

/-- An event of the meter that traffic, a poll or a restart can be. -/
structure IsEvent (l : Env × Op) (e : Event String String) : Prop where
  fixed : ∀ o k, e ≠ .assign o k
  running : l.2.metering = true → e ≠ .reset
  poll : e = .poll → ∃ now, l.2 = .poll now ∧ l.1.stats = true

/-- **Traffic, polls and restarts are events of the meter**, or nothing to
it, and keep the node accountable. -/
theorem sim (h : Accountable s.m) (hs : Sound m₀ s l)
    (hroom : ∀ T, s.m.usage T + s.m.meter.pending T ≤ s.due m₀ T)
    (hop : l.2.metering = true ∨ l.2.restarting = true) :
    Accountable (s.step X l).m ∧ ((s.step X l).ledger = s.ledger ∨
      ∃ e, IsEvent l e ∧ (s.step X l).ledger = s.ledger.step e) := by
  obtain ⟨env, op⟩ := l
  have hreset : s.m.endsCore op = true → op.metering = false →
      Restarted s.m (s.m.step X (env, op)) →
      Accountable (s.step X (env, op)).m ∧ ((s.step X (env, op)).ledger = s.ledger ∨
        ∃ e, IsEvent (env, op) e ∧ (s.step X (env, op)).ledger = s.ledger.step e) := by
    intro hends hno hr
    refine ⟨h.restarted hr, Or.inr ⟨.reset, ⟨(by simp), fun hyes => ?_, (by simp)⟩,
      ledger_restart hends hr⟩⟩
    rw [hno] at hyes
    cases hyes
  cases op with
  | traffic e up down =>
    refine ⟨h.carry (hs.readable e up down rfl) up down, ?_⟩
    rw [ledger_traffic]
    cases s.m.live.core.isSome with
    | false => exact Or.inl rfl
    | true => exact Or.inr ⟨_, ⟨(by simp), (by simp), (by simp)⟩, rfl⟩
  | poll now =>
    obtain ⟨hacc, hmeter⟩ := meter_poll (X := X) h (hs.saved now rfl) (hs.counters now rfl)
      (fun T => lt_of_le_of_lt (hroom T) (hs.room now rfl T)) now
    have hledger : (s.step X (env, .poll now)).ledger =
        ⟨if env.stats then s.m.meter.apply .poll else s.m.meter, s.carried, s.past,
          fun e => if env.stats then (s.m.counted e).or (s.read e) else s.read e⟩ := by
      rw [← hmeter]
      rfl
    refine ⟨hacc, ?_⟩
    rw [hledger]
    cases hstats : env.stats with
    | false => exact Or.inl rfl
    | true => exact Or.inr ⟨.poll, ⟨(by simp), (by simp), fun _ => ⟨now, rfl, hstats⟩⟩, rfl⟩
  | applyConfig c => exact hreset rfl rfl (restarted_applyConfig s.m c)
  | stop => exact hreset rfl rfl (restarted_stop s.m)
  | coreRestart => exact hreset rfl rfl (restarted_coreRestart s.m)
  | restartCore =>
    by_cases hc : s.m.config = ""
    · rw [step_restartCore_refused hc]
      exact ⟨h, Or.inl rfl⟩
    · refine hreset (by simp [Manager.endsCore, hc]) rfl ?_
      show Restarted s.m (s.m.restartCore X env).1
      rw [Manager.restartCore, if_neg hc]
      exact restarted_applyConfig s.m s.m.config
  | _ => simp [Op.metering, Op.restarting] at hop

/-- **An answered poll bills what is pending.** -/
theorem usedBytes_after_poll (h : Accountable s.m) {now : Int64} (hs : Sound m₀ s (env, .poll now))
    (hroom : ∀ T, s.m.usage T + s.m.meter.pending T = s.due m₀ T) (hstats : env.stats = true)
    {t : Tenant} (ht : (s.m.step X (env, .poll now)).reg.get T = some t) :
    t.usedBytes.toInt = s.due m₀ T := by
  obtain ⟨hacc, hmeter⟩ := meter_poll (X := X) h (hs.saved now rfl) (hs.counters now rfl)
    (fun T => by rw [hroom]; exact hs.room now rfl T) now
  rw [if_pos hstats] at hmeter
  have husage : (s.m.collectAndEnforce X env now).1.usage T = s.m.usage T + s.m.meter.pending T :=
    congrFun (congrArg Meter.billed hmeter) T
  rw [usedBytes_eq_usage hacc ht, husage, hroom]

/-- **A run with fixed sets is a run of the ledger**, and usage and what is
pending never pass what was carried. -/
theorem ledger_path {ok : Trace → Env × Op → Prop}
    (ok' : Ledger String String → Event String String → Prop) (h₀ : Accountable m₀)
    (hok : ∀ s l, ok s l → Sound m₀ s l ∧ (l.2.metering = true ∨ l.2.restarting = true))
    (hfixed : ∀ L e, ok' L e → ∀ o k, e ≠ .assign o k)
    (hok' : ∀ s l e, ok s l → IsEvent l e → ok' s.ledger e)
    (h : Runs.Path (Trace.step X) ok (.start m₀) s) :
    Accountable s.m ∧ Runs.Path Ledger.step ok' (.start m₀.meter) s.ledger ∧
      ∀ T, s.m.usage T + s.m.meter.pending T ≤ s.due m₀ T := by
  have hle : ∀ {t : Trace}, Runs.Path Ledger.step ok' (.start m₀.meter) t.ledger →
      ∀ T, t.m.usage T + t.m.meter.pending T ≤ t.due m₀ T :=
    fun hpath T => Ledger.billed_le_of_path (hpath.mono fun L e => hfixed L e) T
  obtain ⟨hacc, hpath⟩ := h.simulate (I := fun t => Accountable t.m) (f := Trace.ledger)
    (fun t l ht hpath hl => by
      obtain ⟨hs, hop⟩ := hok t l hl
      obtain ⟨hacc, heq | ⟨e, he, heq⟩⟩ := sim (X := X) ht hs (hle hpath) hop
      · exact ⟨hacc, Or.inl heq⟩
      · exact ⟨hacc, Or.inr ⟨e, hok' t l e hl he, heq⟩⟩) h₀
  exact ⟨hacc, hpath, hle hpath⟩

end Trace

/-! ## Worked runs

On the small node, with one tenant and one user who carries traffic. -/

namespace Demo

def metered (email : String) : Manager :=
  Demo.run [.setUsers "a" [Demo.user email "secret"]] (Demo.node ["a"])

def trace (m : Manager) (ops : List Op) : Trace :=
  ops.foldl (fun s op => s.step Demo.externals (.calm, op)) (.start m)

def counterList (m : Manager) : List (String × (ℕ × ℕ)) :=
  m.live.counters.elim [] (GoMap.range .given)

def bytes : Op → ℕ
  | .traffic _ up down => up + down
  | _ => 0

theorem mem_counterList {m : Manager} {e : String} {c : ℕ} (h : m.counted e = some c) :
    ∃ p ∈ counterList m, p.1 = e ∧ p.2.1 + p.2.2 = c := by
  obtain ⟨counters, hc, h⟩ := Option.bind_eq_some_iff.1 h
  obtain ⟨n, hn, rfl⟩ := Option.map_eq_some_iff.1 h
  refine ⟨(e, n), ?_, rfl, rfl⟩
  rw [counterList, hc]
  exact GoMap.mem_range.2 hn

theorem carried_le (m : Manager) (ops : List Op) (T : String) :
    (trace m ops).carried T ≤ (ops.map bytes).sum := by
  have hfold : ∀ (ops : List Op) (s : Trace),
      (ops.foldl (fun s op => s.step Demo.externals (.calm, op)) s).carried T ≤
        s.carried T + (ops.map bytes).sum := by
    intro ops
    induction ops with
    | nil => exact fun s => le_refl _
    | cons op ops ih =>
      intro s
      have hop : Trace.carries s.m T op ≤ bytes op := by
        cases op with
        | traffic e up down =>
          show (if _ then up + down else 0) ≤ up + down
          split_ifs
          · exact le_refl _
          · exact Nat.zero_le _
        | _ => exact le_refl _
      have hrest := ih (s.step Demo.externals (.calm, op))
      have hhead : (s.step Demo.externals (.calm, op)).carried T =
        s.carried T + Trace.carries s.m T op := rfl
      rw [List.map_cons, List.sum_cons]
      exact hrest.trans (by omega)
  exact (hfold ops (.start m)).trans (by show 0 + _ ≤ _; omega)

theorem usedBytes_registry (ids : List String) {T : String} {t : Tenant}
    (h : (Demo.registry ids).get T = some t) : t.usedBytes = 0 := by
  have hfold : ∀ (ids : List String) (r : Registry),
      (∀ T t, r.get T = some t → t.usedBytes = 0) → ∀ T t,
      (ids.foldl (fun r id => r.put (Demo.tenant id)) r).get T = some t → t.usedBytes = 0 := by
    intro ids
    induction ids with
    | nil => exact fun r hr => hr
    | cons id ids ih =>
      intro r hr
      refine ih _ fun T t ht => ?_
      rw [Registry.get_put] at ht
      split_ifs at ht with hT
      · cases ht
        rfl
      · exact hr T t ht
  refine hfold ids _ (fun T t ht => ?_) T t h
  replace ht : none = some t := ht
  cases ht

theorem accountable : Accountable (metered "x") := by
  have hcounters : (metered "x").live.counters = some ∅ := rfl
  refine ⟨?_, fun c hc e he => ?_, fun e => le_refl _, fun T t ht => ?_⟩
  · have hpath : Runs.Path (Manager.step Demo.externals) CoherentStep
        (Manager.new (Demo.registry ["a"]) []) (metered "x") :=
      .snoc (Env.calm, Op.setUsers "a" [Demo.user "x" "secret"])
        (.snoc (Env.calm, Op.applyConfig "config") .refl (Demo.coherentStep _ (by simp)))
        (Demo.coherentStep _ (by simp))
    exact Coherent.of_path (Demo.prefixFree (by decide)) hpath
  · obtain rfl := Option.some.inj (hcounters.symm.trans hc)
    simp at he
  · rw [usedBytes_registry ["a"] ht]
    decide

theorem due_eq_carried (s : Trace) (T : String) : s.due (metered "x") T = s.carried T := by
  have hpending : (metered "x").meter.pending T = 0 := Finset.sum_eq_zero fun _ _ => rfl
  have husage : (metered "x").usage T = 0 := by
    unfold Manager.usage
    cases ht : (metered "x").reg.get T with
    | none => rfl
    | some t =>
      rw [Option.map_some, Option.getD_some, usedBytes_registry ["a"] ht]
      rfl
  rw [Trace.due, hpending, husage]
  omega

theorem sound (ops : List Op) {op : Op}
    (hread : ∀ e up down, op = .traffic e up down → Parseable e ∧ e ≠ "")
    (hcount : ∀ p ∈ counterList (trace (metered "x") ops).m, p.2.1 + p.2.2 < 2 ^ 63)
    (hsum : (ops.map bytes).sum < 2 ^ 63) :
    Sound (metered "x") (trace (metered "x") ops) (.calm, op) := by
  refine ⟨hread, fun _ _ _ => rfl, fun _ _ e c hc => ?_, fun _ _ T => ?_⟩
  · obtain ⟨p, hp, -, rfl⟩ := mem_counterList hc
    exact hcount p hp
  · rw [due_eq_carried]
    exact lt_of_le_of_lt (carried_le _ ops T) hsum

end Demo

/-! ## Fixed user sets -/

/-- **No over-billing, and exact when undisturbed.** With fixed user sets a
tenant's usage never passes what was carried, whatever restarts; and if
none happens, every answered poll brings it to exactly that. -/
theorem billed_at_most_carried (h₀ : Accountable m₀) :
    (∀ s, Runs.Path (Trace.step X)
        (fun s l => Sound m₀ s l ∧ (l.2.metering = true ∨ l.2.restarting = true)) (.start m₀) s →
      ∀ T t, s.m.reg.get T = some t → t.usedBytes.toInt ≤ s.due m₀ T) ∧
    (m₀.meter.Steady → ∀ s, Runs.Path (Trace.step X)
        (fun s l => Sound m₀ s l ∧ l.2.metering = true) (.start m₀) s →
      ∀ env now, Sound m₀ s (env, .poll now) → env.stats = true →
      ∀ T t, (s.m.step X (env, .poll now)).reg.get T = some t →
        t.usedBytes.toInt = s.due m₀ T) := by
  refine ⟨fun s h T t ht => ?_, fun hsteady s h env now hs hstats T t ht => ?_⟩
  · obtain ⟨hacc, -, hle⟩ := Trace.ledger_path
      (fun _ e => ∀ o k, e ≠ .assign o k) h₀ (fun _ _ hl => hl) (fun _ _ he => he)
      (fun _ _ _ _ he => he.fixed) h
    have hT := hle T
    rw [usedBytes_eq_usage hacc ht]
    omega
  · obtain ⟨hacc, hpath, -⟩ := Trace.ledger_path
      (fun _ e => e ≠ .reset ∧ ∀ o k, e ≠ .assign o k) h₀
      (fun _ _ hl => ⟨hl.1, Or.inl hl.2⟩) (fun _ _ he => he.2)
      (fun _ _ _ hl he => ⟨he.running hl.2, he.fixed⟩) h
    have heq : ∀ T, s.m.usage T + s.m.meter.pending T = s.due m₀ T := fun T =>
      Ledger.billed_eq_of_path hsteady (fun _ _ _ => h₀.members_disjoint)
        (hpath.mono fun _ _ he => ⟨he.1, fun o k hok => absurd hok (he.2 o k)⟩) T
    exact Trace.usedBytes_after_poll hacc hs heq hstats ht

/-- A user whose email has a separator in it carries a hundred bytes, and
the next poll bills none of them. -/
theorem unreadable_email_unbilled :
    let m₀ := Demo.metered "x>>>y"
    let s := Demo.trace m₀ [.traffic "ta.x>>>y" 60 40]
    "ta.x>>>y" ∈ (m₀.usersOf "a").keys ∧ m₀.usage "a" = 0 ∧ m₀.meter.pending "a" = 0 ∧
      s.carried "a" = 100 ∧
      ((s.m.step Demo.externals (.calm, .poll 1)).reg.get "a").map Tenant.usedBytes = some 0 := by
  decide

/-- A user with a plain email is billed what it carried. -/
theorem plain_email_billed :
    ∃ t, ((Demo.trace (Demo.metered "x") [.traffic "ta.x" 60 40]).m.step Demo.externals
        (.calm, .poll 1)).reg.get "a" = some t ∧
      t.usedBytes.toInt =
        (Demo.trace (Demo.metered "x") [.traffic "ta.x" 60 40]).due (Demo.metered "x") "a" := by
  have hpath : Runs.Path (Trace.step Demo.externals)
      (fun s l => Sound (Demo.metered "x") s l ∧ l.2.metering = true) (.start (Demo.metered "x"))
      (Demo.trace (Demo.metered "x") [.traffic "ta.x" 60 40]) := by
    refine .snoc _ .refl ⟨Demo.sound [] ?_ (by decide) (by decide), rfl⟩
    rintro e up down ⟨⟩
    decide
  refine ⟨_, rfl, (billed_at_most_carried Demo.accountable).2 (fun _ => le_refl _) _ hpath .calm 1
    (Demo.sound _ (fun _ _ _ h => by cases h) (by decide) (by decide)) rfl "a" _ rfl⟩

/-! ## Changing user sets -/

/-- Nothing is left to bill for an email: its counter is where it was last
seen. -/
def Manager.Settled (m : Manager) (e : String) : Prop :=
  (m.counted e).getD 0 = (m.last e).toInt.toNat

instance (m : Manager) (e : String) : Decidable (m.Settled e) :=
  inferInstanceAs (Decidable (_ = _))

/-- **A step that changes a set only by users who are settled**: traffic, a
poll, or a successful call in which everyone who leaves the set or joins it
has nothing left to bill. -/
def SettledStep (X : Externals) (m : Manager) (l : Env × Op) : Prop :=
  match l.2 with
  | .traffic _ _ _ | .poll _ => True
  | .setUsers T us => (m.setTenantUsers X l.1 T us).2 = none ∧
      ∀ e, (e ∈ (m.usersOf T).keys ↔ ∃ v ∈ us, e = namespacedEmail T v.email) ∨ m.Settled e
  | .addUsers T us => (m.addTenantUsers X l.1 T us).2 = none ∧
      ∀ v ∈ us, namespacedEmail T v.email ∈ (m.usersOf T).keys ∨
        m.Settled (namespacedEmail T v.email)
  | _ => False

/-- **Such a call is an undisturbed event of the ledger.** -/
theorem Trace.sim_replaced (h : Accountable s.m) (hr : Replaced s.m (s.m.step X l) T)
    (hop : l.2.onUsers = true)
    (hset : ∀ e, (e ∈ (s.m.usersOf T).keys ↔ e ∈ ((s.m.step X l).usersOf T).keys) ∨
      s.m.Settled e) :
    Accountable (s.step X l).m ∧ ∃ e, Ledger.Undisturbed s.ledger e ∧
      (s.step X l).ledger = s.ledger.step e := by
  refine ⟨h.replaced hr, .assign T ((s.m.step X l).usersOf T).keys.toFinset, ⟨(by simp), ?_⟩, ?_⟩
  · intro o k hok
    cases hok
    refine ⟨fun e => ?_, fun e he o' ho' => ?_⟩
    · refine (hset e).imp_left fun hiff => ?_
      rw [List.mem_toFinset, ← hiff]
      exact List.mem_toFinset
    · -- an email of the new set carries the tenant's prefix, so it is no other's
      have hmem := List.mem_toFinset.1 he
      have hT : T ∈ s.m.tenants := by
        show s.m.reg.get T ≠ none
        rw [← hr.reg]
        exact hr.coherent.registered T e hmem
      exact (h.coherent.eq_of_mem hT (hr.coherent.hasPrefix_of_mem hmem)
        (List.mem_toFinset.1 ho')).symm
  · have hghost : (∀ T, Trace.carries s.m T l.2 = 0) ∧ s.m.endsCore l.2 = false ∧
        ∀ e r, Trace.reads s.m l.1 e r l.2 = r := by
      obtain ⟨env, op⟩ := l
      cases op with
      | delete id => exact ⟨fun _ => rfl, rfl, fun _ _ => rfl⟩
      | setUsers id us => exact ⟨fun _ => rfl, rfl, fun _ _ => rfl⟩
      | addUsers id us => exact ⟨fun _ => rfl, rfl, fun _ _ => rfl⟩
      | _ => cases hop
    obtain ⟨hcarries, hends, hreads⟩ := hghost
    show Ledger.mk (s.m.step X l).meter (fun T => s.carried T + Trace.carries s.m T l.2)
      (fun e => if s.m.endsCore l.2 then _ else _)
      (fun e => if s.m.endsCore l.2 then _ else Trace.reads s.m l.1 e (s.read e) l.2) = _
    rw [hr.meter]
    simp only [hcarries, hends, hreads]
    rfl

/-- **One settled step.** -/
theorem Trace.sim_settled (h : Accountable s.m) (hs : Sound m₀ s l)
    (hroom : ∀ T, s.m.usage T + s.m.meter.pending T ≤ s.due m₀ T) (hl : SettledStep X s.m l) :
    Accountable (s.step X l).m ∧ ((s.step X l).ledger = s.ledger ∨
      ∃ e, Ledger.Undisturbed s.ledger e ∧ (s.step X l).ledger = s.ledger.step e) := by
  have hmetering : l.2.metering = true →
      Accountable (s.step X l).m ∧ ((s.step X l).ledger = s.ledger ∨
        ∃ e, Ledger.Undisturbed s.ledger e ∧ (s.step X l).ledger = s.ledger.step e) := by
    intro hop
    obtain ⟨hacc, hsame | ⟨e, he, hstep⟩⟩ := Trace.sim (X := X) h hs hroom (Or.inl hop)
    · exact ⟨hacc, Or.inl hsame⟩
    · exact ⟨hacc, Or.inr ⟨e, ⟨he.running hop, fun o k hok => absurd hok (he.fixed o k)⟩, hstep⟩⟩
  obtain ⟨env, op⟩ := l
  cases op with
  | traffic e up down => exact hmetering rfl
  | poll now => exact hmetering rfl
  | setUsers T us =>
    obtain ⟨hok, hset⟩ := hl
    obtain ⟨hr, hself⟩ := replaced_setTenantUsers h.coherent hok
    obtain ⟨hacc, hstep⟩ := Trace.sim_replaced (l := (env, .setUsers T us)) h hr rfl fun e => by
      refine (hset e).imp_left fun hiff => hiff.trans ?_
      show _ ↔ e ∈ ((s.m.setTenantUsers X env T us).1.usersOf T).keys
      rw [hself, Manager.mem_keys_newSet]
    exact ⟨hacc, Or.inr hstep⟩
  | addUsers T us =>
    obtain ⟨-, hset⟩ := hl
    have hgrown := grown_addTenantUsers X env s.m T us
    have hr := hgrown.replaced (h.coherent.addTenantUsers T us)
    obtain ⟨hacc, hstep⟩ := Trace.sim_replaced (l := (env, .addUsers T us)) h hr rfl fun e => by
      by_cases hnew : e ∈ ((s.m.addTenantUsers X env T us).1.usersOf T).keys
      · rcases hgrown.named e hnew with hold | ⟨v, hv, rfl⟩
        · exact Or.inl ⟨fun _ => hnew, fun _ => hold⟩
        · exact (hset v hv).imp_left fun hold => ⟨fun _ => hnew, fun _ => hold⟩
      · exact Or.inl ⟨fun hold => absurd (hgrown.kept e hold) hnew, fun h => absurd h hnew⟩
    exact ⟨hacc, Or.inr hstep⟩
  | _ => exact absurd hl (by simp [SettledStep])

/-- **Exactly once across changes of the sets.** If whoever leaves or joins
a set is settled, every answered poll brings the usage of every tenant to
what its users carried while they were its users. -/
theorem billed_once_across_changes (h₀ : Accountable m₀) (hsteady : m₀.meter.Steady)
    (h : Runs.Path (Trace.step X) (fun s l => Sound m₀ s l ∧ SettledStep X s.m l) (.start m₀) s)
    {now : Int64} (hpoll : Sound m₀ s (env, .poll now)) (hstats : env.stats = true) {t : Tenant}
    (ht : (s.m.step X (env, .poll now)).reg.get T = some t) :
    t.usedBytes.toInt = s.due m₀ T := by
  have heq : ∀ {t : Trace}, Runs.Path Ledger.step Ledger.Undisturbed (.start m₀.meter) t.ledger →
      ∀ T, t.m.usage T + t.m.meter.pending T = t.due m₀ T :=
    fun hpath T => Ledger.billed_eq_of_path hsteady (fun _ _ _ => h₀.members_disjoint) hpath T
  obtain ⟨hacc, hpath⟩ := h.simulate (I := fun t => Accountable t.m) (f := Trace.ledger)
    (fun s l hs hpath hl => Trace.sim_settled hs hl.1 (fun T => (heq hpath T).le) hl.2) h₀
  exact Trace.usedBytes_after_poll hacc hpoll (heq hpath) hstats ht

/-- A user who carries a hundred bytes and leaves before the next poll is
billed none of them; one who leaves after the poll and comes back is billed
them twice. All the calls succeed. -/
theorem bytes_lost_and_billed_twice :
    let m₀ := Demo.metered "x"
    let left := Demo.trace m₀ [.traffic "ta.x" 60 40, .setUsers "a" []]
    let back := Demo.trace m₀ [.traffic "ta.x" 60 40, .poll 1, .setUsers "a" [],
      .setUsers "a" [Demo.user "x" "secret"]]
    (m₀.usersOf "a").keys = ["ta.x"] ∧ (left.m.usersOf "a").keys = [] ∧
      (back.m.usersOf "a").keys = ["ta.x"] ∧
      left.due m₀ "a" = 100 ∧ back.due m₀ "a" = 100 ∧
      ((left.m.step Demo.externals (.calm, .poll 2)).reg.get "a").map Tenant.usedBytes = some 0 ∧
      ((back.m.step Demo.externals (.calm, .poll 2)).reg.get "a").map Tenant.usedBytes =
        some 200 := by
  decide

theorem Demo.settled {m : Manager}
    (h : ∀ e ∈ (Demo.counterList m).map Prod.fst ++ m.lastSeen.keys, m.Settled e) (e : String) :
    m.Settled e := by
  by_cases he : e ∈ (Demo.counterList m).map Prod.fst ++ m.lastSeen.keys
  · exact h e he
  · rw [List.mem_append, not_or] at he
    have hcounted : m.counted e = none := by
      cases hc : m.counted e with
      | none => rfl
      | some c =>
        obtain ⟨p, hp, rfl, -⟩ := Demo.mem_counterList hc
        exact absurd (List.mem_map_of_mem hp) he.1
    have hlast : m.last e = 0 := by rw [Manager.last, GoMap.notMem_keys_iff.1 he.2]; rfl
    rw [Manager.Settled, hcounted, hlast]
    rfl

/-- One user leaves and another joins right after a poll, and both are
billed what they carried. -/
theorem billed_once_after_poll :
    ∃ t, ((Demo.trace (Demo.metered "x") [.traffic "ta.x" 60 40, .poll 1,
        .setUsers "a" [Demo.user "y" "other"], .traffic "ta.y" 5 5]).m.step Demo.externals
          (.calm, .poll 2)).reg.get "a" = some t ∧
      t.usedBytes.toInt = (Demo.trace (Demo.metered "x") [.traffic "ta.x" 60 40, .poll 1,
        .setUsers "a" [Demo.user "y" "other"], .traffic "ta.y" 5 5]).due (Demo.metered "x") "a" := by
  have hsettled : ∀ e, (Demo.trace (Demo.metered "x")
      [.traffic "ta.x" 60 40, .poll 1]).m.Settled e := Demo.settled (by decide)
  have hpath : Runs.Path (Trace.step Demo.externals)
      (fun s l => Sound (Demo.metered "x") s l ∧ SettledStep Demo.externals s.m l)
      (.start (Demo.metered "x")) (Demo.trace (Demo.metered "x") [.traffic "ta.x" 60 40, .poll 1,
        .setUsers "a" [Demo.user "y" "other"], .traffic "ta.y" 5 5]) := by
    refine .snoc _ (.snoc _ (.snoc _ (.snoc _ .refl
      ⟨Demo.sound [] ?_ (by decide) (by decide), trivial⟩)
      ⟨Demo.sound [.traffic "ta.x" 60 40] (fun _ _ _ h => by cases h) (by decide) (by decide),
        trivial⟩)
      ⟨Demo.sound [.traffic "ta.x" 60 40, .poll 1] (fun _ _ _ h => by cases h) (by decide)
        (by decide), rfl, fun e => Or.inr (hsettled e)⟩)
      ⟨Demo.sound [.traffic "ta.x" 60 40, .poll 1, .setUsers "a" [Demo.user "y" "other"]] ?_
        (by decide) (by decide), trivial⟩
    · rintro e up down ⟨⟩
      decide
    · rintro e up down ⟨⟩
      decide
  have hlast : Sound (Demo.metered "x") (Demo.trace (Demo.metered "x") [.traffic "ta.x" 60 40,
      .poll 1, .setUsers "a" [Demo.user "y" "other"], .traffic "ta.y" 5 5]) (.calm, .poll 2) :=
    Demo.sound _ (fun _ _ _ h => by cases h) (by decide) (by decide)
  exact ⟨_, rfl, billed_once_across_changes Demo.accountable (fun _ => le_refl _) hpath hlast rfl
    rfl⟩

/-! ## Restarts -/

/-- **A poll that takes no new counter for an old one**: where it reads a
user's counter for the first time since the core came up, nothing was read
for that user before or the new value is below the old. -/
def RecognisedStep (s : Trace) (l : Env × Op) : Prop :=
  ∀ now, l.2 = .poll now → l.1.stats = true → ∀ T, ∀ e ∈ (s.m.usersOf T).keys, ∀ c,
    s.m.counted e = some c → s.read e = none →
    s.m.last e = 0 ∨ (c : ℤ) < (s.m.last e).toInt

/-- **What was last read in each lifetime of the core is billed**, in runs
whose polls take no new counter for an old one. -/
theorem billed_over_restarts (h₀ : Accountable m₀)
    (h : Runs.Path (Trace.step X) (fun s l => Sound m₀ s l ∧
      (l.2.metering = true ∨ l.2.restarting = true) ∧ RecognisedStep s l) (.start m₀) s)
    {t : Tenant} (ht : s.m.reg.get T = some t) :
    t.usedBytes.toInt = m₀.usage T + s.readSum T := by
  obtain ⟨hacc, hpath, -⟩ := Trace.ledger_path Ledger.Recognised h₀
    (fun _ _ hl => ⟨hl.1, hl.2.1⟩) (fun _ _ he => he.1)
    (fun s l e hl he => ⟨he.fixed, fun hpoll o k hk c hc hread => by
      obtain ⟨now, hop, hstats⟩ := he.poll hpoll
      rcases hl.2.2 now hop hstats o k (List.mem_toFinset.1 hk) c hc hread with hzero | hlt
      · left
        show (s.m.last k).toInt.toNat = 0
        rw [hzero]
        rfl
      · right
        show c < (s.m.last k).toInt.toNat
        omega⟩) h
  have heq : s.m.usage T = m₀.usage T + s.readSum T := Ledger.billed_eq_readSum_of_path hpath T
  rw [usedBytes_eq_usage hacc ht, heq]
  push_cast
  rfl

/-- A user carries fifty bytes, which a poll reads, and after a config push
eighty, which the next poll reads: eighty are billed in all. -/
theorem bytes_lost_over_restart :
    let s := Demo.trace (Demo.metered "x") [.traffic "ta.x" 30 20, .poll 1, .applyConfig "config",
      .traffic "ta.x" 50 30, .poll 2]
    s.readSum "a" = 130 ∧ (s.m.reg.get "a").map Tenant.usedBytes = some 80 := by
  decide

/-- After the push the user carries less than before, and all of it is
billed. -/
theorem billed_over_restart :
    ∃ t, (Demo.trace (Demo.metered "x") [.traffic "ta.x" 30 20, .poll 1, .applyConfig "config",
        .traffic "ta.x" 10 5, .poll 2]).m.reg.get "a" = some t ∧
      t.usedBytes.toInt = (Demo.metered "x").usage "a" + (Demo.trace (Demo.metered "x")
        [.traffic "ta.x" 30 20, .poll 1, .applyConfig "config", .traffic "ta.x" 10 5,
          .poll 2]).readSum "a" := by
  have hpoll : ∀ (s : Trace) (now : Int64), (∀ p ∈ Demo.counterList s.m, s.read p.1 = none →
      s.m.last p.1 = 0 ∨ ((p.2.1 + p.2.2 : ℕ) : ℤ) < (s.m.last p.1).toInt) →
      RecognisedStep s (.calm, .poll now) := by
    intro s now h _ _ _ T e _ c hc hread
    obtain ⟨p, hp, rfl, rfl⟩ := Demo.mem_counterList hc
    exact h p hp hread
  have hpath : Runs.Path (Trace.step Demo.externals) (fun s l => Sound (Demo.metered "x") s l ∧
      (l.2.metering = true ∨ l.2.restarting = true) ∧ RecognisedStep s l)
      (.start (Demo.metered "x")) (Demo.trace (Demo.metered "x") [.traffic "ta.x" 30 20, .poll 1,
        .applyConfig "config", .traffic "ta.x" 10 5, .poll 2]) := by
    refine .snoc _ (.snoc _ (.snoc _ (.snoc _ (.snoc _ .refl
      ⟨Demo.sound [] ?_ (by decide) (by decide), Or.inl rfl, fun _ h => by cases h⟩)
      ⟨Demo.sound [.traffic "ta.x" 30 20] (fun _ _ _ h => by cases h) (by decide) (by decide),
        Or.inl rfl, hpoll _ 1 (by decide)⟩)
      ⟨Demo.sound [.traffic "ta.x" 30 20, .poll 1] (fun _ _ _ h => by cases h) (by decide)
        (by decide), Or.inr rfl, fun _ h => by cases h⟩)
      ⟨Demo.sound [.traffic "ta.x" 30 20, .poll 1, .applyConfig "config"] ?_ (by decide)
        (by decide), Or.inl rfl, fun _ h => by cases h⟩)
      ⟨Demo.sound [.traffic "ta.x" 30 20, .poll 1, .applyConfig "config", .traffic "ta.x" 10 5]
        (fun _ _ _ h => by cases h) (by decide) (by decide), Or.inl rfl, hpoll _ 2 (by decide)⟩
    · rintro e up down ⟨⟩
      decide
    · rintro e up down ⟨⟩
      decide
  exact ⟨_, rfl, billed_over_restarts Demo.accountable hpath rfl⟩

end NodeAgent
