import NodeAgent.Common.Meter
import NodeAgent.Shared.Coherence
import Mathlib.Algebra.BigOperators.Group.Finset.Piecewise
/-!
# The manager as a meter

The counters of the core, the last readings, the indexes and the usage in
the registry, seen as the machine of `Common/Meter.lean`: keys are emails
and owners are tenants. Where the indexes agree and every counter can be
read back, a poll of the manager is a poll of that machine, up to the range
of a 64-bit word; the other steps need no bound.
-/

namespace NodeAgent

open Words Metering

variable {X : Externals} {env : Env} {m : Manager} {T : String} {us : List User}

/-! ## Counters -/

namespace Live

/-- The counters of the running core. -/
def counters (L : Live) : Option (GoMap String (ℕ × ℕ)) :=
  L.core.map fun x => x.process.counters

theorem counters_syncUser (L : Live) (T : String) (u : User) :
    (L.syncUser X env T u).1.counters = L.counters := by
  cases hcore : L.core with
  | none => simp [Live.syncUser, hcore]
  | some x =>
    simp only [Live.syncUser, counters, hcore, Option.map_some]
    exact congrArg some (Xray.syncUser_frame X env x u).1

theorem counters_syncs (T : String) (us : List User) (L : Live) :
    (L.syncs X env T us).counters = L.counters :=
  Live.syncs_rule (I := fun L' => L'.counters = L.counters)
    (fun u _ L' hL' => (counters_syncUser L' T u).trans hL') rfl

theorem counters_removeFromCore (L : Live) (u : User) :
    (L.removeFromCore X env u).counters = L.counters := by
  cases hcore : L.core with
  | none => simp [Live.removeFromCore, hcore]
  | some x =>
    obtain ⟨tags, -, heq⟩ := Xray.updateUsers_removal X env (withInbounds u []) rfl x
    obtain ⟨-, hcounters, -⟩ := Xray.removeAt_fold_frame X env u.email tags x
    simp only [Live.removeFromCore, counters, hcore, Option.map_some, heq]
    exact congrArg some hcounters

theorem counters_removeAll (l : List (String × User)) (L : Live) :
    (L.removeAll X env l).counters = L.counters := by
  induction l generalizing L with
  | nil => rfl
  | cons p l ih => exact (ih _).trans (counters_removeFromCore L p.2)

end Live

namespace Manager

/-- The bytes counted for an email; none without a core or a counter. -/
def counted (m : Manager) (email : String) : Option ℕ :=
  m.live.counters.bind fun c => (c.lookup email).map fun n => n.1 + n.2

/-- The usage of a tenant. -/
def usage (m : Manager) (T : String) : ℕ :=
  ((m.reg.get T).map fun t => t.usedBytes.toInt.toNat).getD 0

/-- **The manager as a meter.** -/
def meter (m : Manager) : Meter String String where
  members := fun T => (m.usersOf T).keys.toFinset
  count := m.counted
  seen := fun e => (m.last e).toInt.toNat
  billed := m.usage

theorem meter_congr {m m' : Manager} (hu : m'.users = m.users)
    (hc : m'.live.counters = m.live.counters) (hl : m'.lastSeen = m.lastSeen)
    (hr : ∀ T, m'.usage T = m.usage T) : m'.meter = m.meter := by
  have hof : m'.usersOf = m.usersOf := by
    funext T
    rw [usersOf, usersOf, hu]
  have hcounted : m'.counted = m.counted := by
    funext e
    rw [counted, counted, hc]
  have hlast : m'.last = m.last := by
    funext e
    rw [last, last, hl]
  unfold meter
  rw [hof, hcounted, hlast, funext hr]

end Manager

/-- **A state a poll can account for**: the indexes agree, every counter is
one that can be read back, and no reading and no usage is negative. -/
structure Accountable (m : Manager) : Prop where
  coherent : Coherent m
  parseable : ∀ c, m.live.counters = some c → ∀ e ∈ c.keys, Parseable e ∧ e ≠ ""
  seen : ∀ e, 0 ≤ (m.last e).toInt
  used : ∀ T t, m.reg.get T = some t → 0 ≤ t.usedBytes.toInt

/-! ## A poll -/

/-- **The difference of a poll is what the counter shows beyond the last
reading.** -/
theorem trafficDelta_ofNat {w : Int64} {c : ℕ} (hw : 0 ≤ w.toInt) (hc : c < 2 ^ 63) :
    Manager.trafficDelta w (Int64.ofNat c) = Int64.ofNat (owed w.toInt.toNat c) := by
  have hlt : w.toInt < 2 ^ 63 := Int64.toInt_lt w
  have hle : w ≤ Int64.ofNat c ↔ w.toInt.toNat ≤ c := by
    rw [Int64.le_iff_toInt_le, toInt_ofNat hc]
    omega
  unfold Manager.trafficDelta owed
  simp only [hle]
  split_ifs with h
  · rw [Int64.ofNat_sub c w.toInt.toNat h, ← eq_ofNat_of_nonneg hw]
  · rfl

theorem lookup_readings (h : Accountable m) (hstats : env.stats = true) (e : String) :
    (m.readings env).lookup e = (m.counted e).map Int64.ofNat := by
  rw [Manager.readings, if_pos hstats, Manager.answer]
  cases hcore : m.live.core with
  | none => simp [Manager.counted, Live.counters, hcore, Manager.currentOf]
  | some x =>
    have hcounters : m.live.counters = some x.process.counters := by
      simp [Live.counters, hcore]
    have hread := lookup_currentOf_queryStats (h.parseable _ hcounters) env.rows e
    rw [Option.elim_some, hread, Manager.counted, hcounters]
    rfl

/-- **What a poll shows for a tenant is what is pending for it.** -/
theorem delta_eq_pending (h : Accountable m) (hstats : env.stats = true)
    (hcount : ∀ e c, m.counted e = some c → c < 2 ^ 63) (hT : m.reg.get T ≠ none) :
    m.delta (m.readings env) T = Int64.ofNat (m.meter.pending T) := by
  have hlookup := lookup_readings h hstats
  have hmem : ∀ e, e ∈ (m.readings env).keys ↔ m.counted e ≠ none := by
    intro e
    rw [GoMap.mem_keys_iff, hlookup]
    cases m.counted e <;> simp
  -- an email counts if it is in the set, for what is due for it
  have hshare : ∀ e, m.share (m.readings env) T e =
      if e ∈ m.meter.members T then Int64.ofNat (m.meter.due e) else 0 := by
    intro e
    have hiff : m.emailTo.lookup e = some T ↔ e ∈ m.meter.members T := by
      refine (h.coherent.indexed e T).trans ⟨fun h => List.mem_toFinset.2 h.2, fun h => ?_⟩
      exact ⟨hT, List.mem_toFinset.1 h⟩
    unfold Manager.share
    simp only [hiff, hlookup]
    split_ifs with he
    · show _ = Int64.ofNat ((m.counted e).elim 0 (owed (m.last e).toInt.toNat))
      cases hc : m.counted e with
      | none =>
        show Manager.trafficDelta (m.last e) (Int64.ofNat 0) = Int64.ofNat 0
        rw [trafficDelta_ofNat (h.seen e) (by omega)]
        unfold owed
        split_ifs
        · rw [Nat.zero_sub]
        · rfl
      | some c => exact trafficDelta_ofNat (h.seen e) (hcount e c hc)
    · rfl
  unfold Manager.delta Meter.pending
  rw [ofNat_sum, Finset.sum_congr rfl fun e _ => hshare e, Finset.sum_ite_mem]
  refine Finset.sum_subset Finset.inter_subset_right fun e he hno => ?_
  have hnone : m.counted e = none := by
    by_contra hsome
    exact hno (Finset.mem_inter.2 ⟨List.mem_toFinset.2 ((hmem e).2 hsome), he⟩)
  show Int64.ofNat ((m.counted e).elim 0 _) = 0
  rw [hnone]
  rfl

theorem toInt_bill {t : Tenant} {n : ℕ} (ht : 0 ≤ t.usedBytes.toInt)
    (hfit : t.usedBytes.toInt.toNat + n < 2 ^ 63) :
    (t.bill (Int64.ofNat n)).usedBytes.toInt = t.usedBytes.toInt.toNat + n := by
  have hnn : ¬ Int64.ofNat n < 0 := ofNat_nonneg (by omega)
  show (t.usedBytes + if Int64.ofNat n < 0 then 0 else Int64.ofNat n).toInt = _
  rw [if_neg hnn, eq_ofNat_of_nonneg ht, ← Int64.ofNat_add, toInt_ofNat hfit,
    toInt_ofNat (by omega)]
  push_cast
  omega

theorem meter_enforce (m : Manager) (now : Int64) : (m.enforce X env now).meter = m.meter := by
  rw [Manager.enforce_eq]
  refine Manager.meter_congr rfl (Live.counters_removeAll _ _) rfl fun T => ?_
  show (((m.reg.enforce _ _ now).1.get T).map _).getD 0 = _
  rw [Registry.get_enforce, Option.map_map, Manager.usage]
  congr 2
  funext t
  rw [Function.comp_apply, Tenant.enforced_usedBytes]

theorem Accountable.enforce (h : Accountable m) (now : Int64) :
    Accountable (m.enforce X env now) := by
  have hframe := Manager.enforce_frame X env m now
  refine ⟨h.coherent.congr hframe.1 hframe.2, ?_, ?_, ?_⟩
  · rw [Manager.enforce_eq]
    intro c hc
    rw [show Live.counters _ = _ from Live.counters_removeAll _ _] at hc
    exact h.parseable c hc
  · rw [Manager.enforce_eq]
    exact h.seen
  · rw [Manager.enforce_eq]
    intro T t ht
    replace ht : (m.reg.enforce _ _ now).1.get T = some t := ht
    rw [Registry.get_enforce] at ht
    obtain ⟨t', ht', rfl⟩ := Option.map_eq_some_iff.1 ht
    rw [Tenant.enforced_usedBytes]
    exact h.used T t' ht'

theorem meter_poll_of_none (hcore : m.live.core = none) : m.meter.apply .poll = m.meter := by
  have hnone : ∀ e, m.counted e = none := fun e => by simp [Manager.counted, Live.counters, hcore]
  have hzero : ∀ T, m.meter.pending T = 0 := fun T => Finset.sum_eq_zero fun e _ => by
    show (m.counted e).elim 0 _ = 0
    rw [hnone]
    rfl
  show Meter.mk m.meter.members m.counted (fun e => (m.counted e).getD (m.meter.seen e))
    (fun T => m.usage T + m.meter.pending T) = _
  simp only [hnone, hzero, Option.getD_none, Nat.add_zero]
  rfl

theorem toInt_bill_delta (h : Accountable m) (hstats : env.stats = true)
    (hcount : ∀ e c, m.counted e = some c → c < 2 ^ 63) {t : Tenant} (ht : m.reg.get T = some t)
    (hfit : m.usage T + m.meter.pending T < 2 ^ 63) :
    (t.bill (m.delta (m.readings env) T)).usedBytes.toInt =
      t.usedBytes.toInt.toNat + m.meter.pending T := by
  have hT : m.usage T = t.usedBytes.toInt.toNat := by simp [Manager.usage, ht]
  rw [delta_eq_pending h hstats hcount (by rw [ht]; simp)]
  exact toInt_bill (h.used T t ht) (by rw [← hT]; exact hfit)

theorem lookup_seenAfter_eq (h : Accountable m) (hstats : env.stats = true) (e : String) :
    ((Manager.seenAfter env m (m.answer env)).lookup e).getD 0 =
      ((m.counted e).map Int64.ofNat).getD (m.last e) := by
  have hread := lookup_readings h hstats e
  rw [Manager.readings, if_pos hstats] at hread
  rw [Manager.lookup_seenAfter, hread]
  cases m.counted e <;> rfl

theorem toInt_seenAfter (h : Accountable m) (hstats : env.stats = true)
    (hcount : ∀ e c, m.counted e = some c → c < 2 ^ 63) (e : String) :
    0 ≤ (((Manager.seenAfter env m (m.answer env)).lookup e).getD 0).toInt ∧
      (((Manager.seenAfter env m (m.answer env)).lookup e).getD 0).toInt.toNat =
        (m.counted e).getD (m.meter.seen e) := by
  rw [lookup_seenAfter_eq h hstats e]
  cases hc : m.counted e with
  | none => exact ⟨h.seen e, rfl⟩
  | some c =>
    rw [Option.map_some, Option.getD_some, toInt_ofNat (hcount e c hc)]
    exact ⟨Int.natCast_nonneg c, rfl⟩

theorem pending_of_get_none (h : Accountable m) (hT : m.reg.get T = none) :
    m.meter.pending T = 0 :=
  Finset.sum_eq_zero fun e he =>
    absurd hT (h.coherent.registered T e (List.mem_toFinset.1 he))

/-- **The accounting of an answered poll.** -/
theorem meter_accounted (h : Accountable m) (hstats : env.stats = true)
    (hcount : ∀ e c, m.counted e = some c → c < 2 ^ 63)
    (hfit : ∀ T, m.usage T + m.meter.pending T < 2 ^ 63) {r : Registry}
    (hr : ∀ T, r.get T = (m.reg.get T).map (Tenant.bill (m.delta (m.readings env) T))) :
    let m' := { m with reg := r, lastSeen := Manager.seenAfter env m (m.answer env) }
    Accountable m' ∧ m'.meter = m.meter.apply .poll := by
  have hbilled : ∀ T t, m.reg.get T = some t → ∃ t', r.get T = some t' ∧
      t'.usedBytes.toInt = t.usedBytes.toInt.toNat + m.meter.pending T :=
    fun T t ht => ⟨_, by rw [hr, ht]; rfl, toInt_bill_delta h hstats hcount ht (hfit T)⟩
  have hlast := toInt_seenAfter h hstats hcount
  refine ⟨⟨?_, h.parseable, fun e => (hlast e).1, ?_⟩, ?_⟩
  · refine h.coherent.congr ⟨rfl, rfl, rfl⟩ (Set.ext fun T => ?_)
    show r.get T ≠ none ↔ m.reg.get T ≠ none
    rw [hr]
    simp
  · intro T t' ht'
    replace ht' : r.get T = some t' := ht'
    have hT : m.reg.get T ≠ none := by
      intro hnone
      rw [hr, hnone] at ht'
      cases ht'
    obtain ⟨t, ht⟩ := Option.ne_none_iff_exists'.1 hT
    obtain ⟨t'', ht'', hused⟩ := hbilled T t ht
    obtain rfl : t' = t'' := Option.some.inj (ht'.symm.trans ht'')
    omega
  · show Meter.mk m.meter.members m.counted _ _ =
      ⟨m.meter.members, m.counted, fun e => (m.counted e).getD (m.meter.seen e),
        fun T => m.usage T + m.meter.pending T⟩
    simp only [Meter.mk.injEq, true_and]
    refine ⟨funext fun e => (hlast e).2, funext fun T => ?_⟩
    show ((r.get T).map fun t => t.usedBytes.toInt.toNat).getD 0 = _
    cases hT : m.reg.get T with
    | none =>
      rw [hr, hT, pending_of_get_none h hT]
      simp [Manager.usage, hT]
    | some t =>
      obtain ⟨t', ht', hused⟩ := hbilled T t hT
      have hT' : m.usage T = t.usedBytes.toInt.toNat := by simp [Manager.usage, hT]
      rw [ht', hT', Option.map_some, Option.getD_some, hused]
      omega

/-- **A poll is a poll of the meter**, if it is answered; if not, it is
nothing to it. -/
theorem meter_poll (h : Accountable m) (hsave : ∀ T, env.save T = true)
    (hcount : ∀ e c, m.counted e = some c → c < 2 ^ 63)
    (hfit : ∀ T, m.usage T + m.meter.pending T < 2 ^ 63) (now : Int64) :
    Accountable (m.collectAndEnforce X env now).1 ∧
      (m.collectAndEnforce X env now).1.meter =
        if env.stats then m.meter.apply .poll else m.meter := by
  by_cases hcore : m.live.core = none
  · have hsame : (m.collectAndEnforce X env now).1 = m := by
      simp [Manager.collectAndEnforce, hcore]
    rw [hsame, meter_poll_of_none hcore, ite_self]
    exact ⟨h, rfl⟩
  · cases hstats : env.stats with
    | false =>
      have heq : (m.collectAndEnforce X env now).1 = m.enforce X env now := by
        rcases Manager.collectAndEnforce_cases X env m now with
          ⟨hnone, -⟩ | ⟨-, ⟨-, heq⟩ | ⟨htrue, -⟩⟩
        · exact absurd hnone hcore
        · rw [heq]
        · rw [hstats] at htrue
          cases htrue
      rw [heq, meter_enforce]
      exact ⟨h.enforce now, rfl⟩
    | true =>
      obtain ⟨r, heq, hr⟩ := Manager.collectAndEnforce_ok X env hcore (fun T hrep => by
        obtain ⟨e, -, hto⟩ := hrep
        exact ⟨((h.coherent.indexed e T).1 hto).1, hsave T⟩) now
      obtain ⟨hacc, hmeter⟩ := meter_accounted h hstats hcount hfit hr
      rw [if_pos hstats] at heq
      rw [heq, meter_enforce]
      exact ⟨hacc.enforce now, hmeter⟩

/-! ## Traffic and restarts -/

/-- The node after a user has carried traffic. -/
def Manager.carry (m : Manager) (e : String) (up down : ℕ) : Manager :=
  m.mapCore fun x => { x with process := x.process.carry e up down }

/-- **Traffic is carried in the meter**, if there is a core to carry it. -/
theorem meter_carry (m : Manager) (e : String) (up down : ℕ) :
    (m.carry e up down).meter =
      if m.live.core.isSome then m.meter.apply (.carry e (up + down)) else m.meter := by
  cases hcore : m.live.core with
  | none =>
    have hsame : m.carry e up down = m := by
      obtain ⟨reg, ⟨core, placedFor⟩, users, emailTo, creds, force, lastSeen, config⟩ := m
      obtain rfl : core = none := hcore
      rfl
    rw [hsame]
    rfl
  | some x =>
    have hcount : (m.carry e up down).counted =
        Function.update m.counted e (some ((m.counted e).getD 0 + (up + down))) := by
      have hold : ∀ k, m.counted k = (x.process.counters.lookup k).map fun n => n.1 + n.2 :=
        fun k => by simp [Manager.counted, Live.counters, hcore]
      have hnew : ∀ k, (m.carry e up down).counted k =
          ((x.process.carry e up down).counters.lookup k).map fun n => n.1 + n.2 :=
        fun k => by simp [Manager.counted, Live.counters, Manager.carry, Manager.mapCore, hcore]
      funext k
      rw [hnew, Process.carry, GoMap.lookup_insert_eq, Function.update_apply]
      split_ifs
      · rw [hold, Option.map_some]
        cases x.process.counters.lookup e with
        | none => simp
        | some n =>
          show some (n.1 + up + (n.2 + down)) = some (n.1 + n.2 + (up + down))
          congr 1
          omega
      · exact (hold k).symm
    show Meter.mk m.meter.members (m.carry e up down).counted m.meter.seen m.usage = _
    rw [hcount]
    rfl

theorem Accountable.carry (h : Accountable m) {e : String} (he : Parseable e ∧ e ≠ "")
    (up down : ℕ) : Accountable (m.carry e up down) := by
  refine ⟨h.coherent.congr ⟨rfl, rfl, rfl⟩ rfl, fun c hc k hk => ?_, h.seen, h.used⟩
  cases hcore : m.live.core with
  | none => simp [Live.counters, Manager.carry, Manager.mapCore, hcore] at hc
  | some x =>
    have hold : m.live.counters = some x.process.counters := by simp [Live.counters, hcore]
    obtain rfl : (x.process.carry e up down).counters = c := by
      simpa [Live.counters, Manager.carry, Manager.mapCore, hcore] using hc
    rw [Process.carry, GoMap.mem_keys_iff] at hk
    obtain ⟨n, hn⟩ := hk
    rw [GoMap.lookup_insert_eq] at hn
    by_cases hke : k = e
    · rw [hke]
      exact he
    · rw [if_neg hke] at hn
      exact h.parseable _ hold k (GoMap.mem_keys_iff.2 ⟨n, hn⟩)

/-- A state whose core, if it has one, counts from nothing, and which is
otherwise the one it was. -/
structure Restarted (m m' : Manager) : Prop where
  same : Manager.SameIndexes m m'
  reg : m'.reg = m.reg
  lastSeen : m'.lastSeen = m.lastSeen
  counters : ∀ c, m'.live.counters = some c → c = ∅

variable {m' : Manager}

/-- **A restart sets the counters back**, and nothing else. -/
theorem Restarted.meter (h : Restarted m m') :
    m'.meter = m.meter.apply .reset := by
  have hof : m'.usersOf = m.usersOf := funext h.same.usersOf
  have hlast : m'.last = m.last := by
    funext e
    rw [Manager.last, Manager.last, h.lastSeen]
  have husage : m'.usage = m.usage := by
    funext T
    rw [Manager.usage, Manager.usage, h.reg]
  have hcounted : m'.counted = fun _ => none := by
    funext e
    unfold Manager.counted
    cases hc : m'.live.counters with
    | none => rfl
    | some c => simp [h.counters c hc]
  show Meter.mk (fun T => (m'.usersOf T).keys.toFinset) m'.counted
    (fun e => (m'.last e).toInt.toNat) m'.usage = _
  rw [hof, hlast, husage, hcounted]
  rfl

theorem Accountable.restarted (h : Accountable m) (hr : Restarted m m') :
    Accountable m' := by
  refine ⟨h.coherent.congr hr.same ?_, fun c hc e he => ?_, fun e => ?_, fun T t ht => ?_⟩
  · rw [Manager.tenants, Manager.tenants, hr.reg]
  · rw [hr.counters c hc] at he
    simp at he
  · rw [Manager.last, hr.lastSeen]
    exact h.seen e
  · rw [hr.reg] at ht
    exact h.used T t ht

theorem restarted_stop (m : Manager) : Restarted m m.stop :=
  ⟨⟨rfl, rfl, rfl⟩, rfl, rfl, fun c hc => by cases hc⟩

theorem restarted_coreRestart (m : Manager) : Restarted m (m.mapCore Xray.restart) := by
  refine ⟨⟨rfl, rfl, rfl⟩, rfl, rfl, fun c hc => ?_⟩
  cases hcore : m.live.core with
  | none => simp [Live.counters, Manager.mapCore, hcore] at hc
  | some x =>
    simp only [Live.counters, Manager.mapCore, hcore, Option.map_some, Option.some.injEq] at hc
    exact hc.symm

theorem restarted_applyConfig (m : Manager) (configJSON : String) :
    Restarted m (m.applyConfig X env configJSON).1 := by
  rcases Manager.applyConfig_cases X env m configJSON with ⟨err, heq⟩ | ⟨x, hx, heq⟩
  · rw [heq]
    exact restarted_stop m
  · obtain ⟨L, err, hadd, hL⟩ := Manager.addTenantsToCore_rule X env
      (fun L => L.counters = some ∅) ((env.order .tenants).run m.users.keys)
      { m with live := { m.live with core := some x }, config := configJSON }
      (fun T e u L _ _ hL => (Live.counters_syncUser L T u).trans hL)
      (congrArg some hx.counters)
    rw [heq, hadd]
    refine ⟨⟨rfl, rfl, rfl⟩, rfl, rfl, fun c hc => ?_⟩
    exact (Option.some.inj (hL.symm.trans hc)).symm

/-! ## Changes of a user set -/

/-- A tenant's set has been replaced, by a call that left the counters and
the registry alone and forgot the last readings of those who went. -/
structure Replaced (m m' : Manager) (T : String) : Prop where
  others : ∀ T', T' ≠ T → m'.usersOf T' = m.usersOf T'
  reg : m'.reg = m.reg
  counters : m'.live.counters = m.live.counters
  forgotten : ∀ e, m'.last e =
    if e ∈ (m.usersOf T).keys ∧ e ∉ (m'.usersOf T).keys then 0 else m.last e
  coherent : Coherent m'

/-- **A replaced set is an assignment of keys.** -/
theorem Replaced.meter (h : Replaced m m' T) :
    m'.meter = m.meter.apply (.assign T (m'.usersOf T).keys.toFinset) := by
  have hmembers : (fun T' => (m'.usersOf T').keys.toFinset) =
      Function.update m.meter.members T (m'.usersOf T).keys.toFinset := by
    funext T'
    by_cases hT : T' = T
    · rw [hT, Function.update_self]
    · rw [Function.update_of_ne hT, h.others T' hT]
      rfl
  have hcounted : m'.counted = m.counted := by
    funext e
    rw [Manager.counted, Manager.counted, h.counters]
  have husage : m'.usage = m.usage := by
    funext T'
    rw [Manager.usage, Manager.usage, h.reg]
  have hseen : (fun e => (m'.last e).toInt.toNat) = fun e =>
      if e ∈ m.meter.members T \ (m'.usersOf T).keys.toFinset then 0 else m.meter.seen e := by
    funext e
    have hmem : e ∈ m.meter.members T \ (m'.usersOf T).keys.toFinset ↔
        e ∈ (m.usersOf T).keys ∧ e ∉ (m'.usersOf T).keys := by
      rw [Finset.mem_sdiff, List.mem_toFinset]
      exact and_congr_left fun _ => List.mem_toFinset
    rw [h.forgotten]
    simp only [hmem]
    split_ifs
    · rfl
    · rfl
  show Meter.mk (fun T' => (m'.usersOf T').keys.toFinset) m'.counted
    (fun e => (m'.last e).toInt.toNat) m'.usage = _
  rw [hmembers, hcounted, husage, hseen]
  rfl

theorem Accountable.replaced (h : Accountable m) (hr : Replaced m m' T) :
    Accountable m' := by
  refine ⟨hr.coherent, fun c hc => ?_, fun e => ?_, fun T' t ht => ?_⟩
  · rw [hr.counters] at hc
    exact h.parseable c hc
  · rw [hr.forgotten]
    split_ifs
    · exact le_refl _
    · exact h.seen e
  · rw [hr.reg] at ht
    exact h.used T' t ht

theorem counters_changed (m : Manager) (active : Bool) (T : String)
    (gone done : List (String × User)) :
    (m.changed X env active T gone done).live.counters = m.live.counters := by
  cases active with
  | false => exact Live.counters_removeAll gone m.live
  | true => exact (Live.counters_syncs T _ _).trans (Live.counters_removeAll gone m.live)

theorem replaced_setTenantUsers (h : Coherent m) (hok : (m.setTenantUsers X env T us).2 = none) :
    Replaced m (m.setTenantUsers X env T us).1 T ∧
      (m.setTenantUsers X env T us).1.usersOf T = m.newSet T us := by
  rcases Manager.setTenantUsers_cases X env m T us with
    ⟨err, heq⟩ | ⟨tn, gone, done, rest, hset, ⟨err, heq, -⟩ | ⟨rfl, heq⟩⟩
  · rw [heq] at hok
    cases hok
  · rw [heq] at hok
    cases hok
  · have hof := m.usersOf_insert T (m.newSet T us)
    have hself : (m.setTenantUsers X env T us).1.usersOf T = m.newSet T us := by
      rw [heq]
      exact (congrFun hof T).trans (Function.update_self ..)
    refine ⟨⟨fun T' hT => ?_, by rw [heq]; rfl, ?_, fun e => ?_, by rw [heq]; exact h.set_done hset _⟩,
      hself⟩
    · rw [heq]
      exact (congrFun hof T').trans (Function.update_of_ne hT ..)
    · rw [heq]
      exact counters_changed m _ T gone done
    · rw [hself, heq]
      simp only [← hset.mem_gone_keys_iff]
      show ((GoMap.eraseKeys m.lastSeen (gone.map Prod.fst)).lookup e).getD 0 = _
      rw [GoMap.lookup_eraseKeys]
      split_ifs
      · rfl
      · rfl

/-- **A set that has grown**, by users that were named; nothing else the
meter sees has changed. -/
structure Grown (m : Manager) (T : String) (us : List User) (m' : Manager) : Prop where
  others : ∀ T', T' ≠ T → m'.usersOf T' = m.usersOf T'
  reg : m'.reg = m.reg
  counters : m'.live.counters = m.live.counters
  lastSeen : m'.lastSeen = m.lastSeen
  kept : ∀ e ∈ (m.usersOf T).keys, e ∈ (m'.usersOf T).keys
  named : ∀ e ∈ (m'.usersOf T).keys,
    e ∈ (m.usersOf T).keys ∨ ∃ v ∈ us, e = namespacedEmail T v.email

theorem Grown.takeOn (h : Grown m T us m') {v : User} (hv : v ∈ us)
    (active : Bool) : Grown m T us (m'.takeOn X env active T (m'.buildUser T v)) := by
  have hof := Manager.usersOf_takeOn X env m' active T (m'.buildUser T v)
  have hmem : ∀ e, e ∈ ((m'.takeOn X env active T (m'.buildUser T v)).usersOf T).keys ↔
      e = (m'.buildUser T v).email ∨ e ∈ (m'.usersOf T).keys := by
    intro e
    rw [hof, Function.update_self, ← AList.mem_keys, AList.mem_insert, AList.mem_keys]
  refine ⟨fun T' hT => ?_, h.reg, ?_, h.lastSeen, fun e he => ?_, fun e he => ?_⟩
  · rw [hof, Function.update_of_ne hT]
    exact h.others T' hT
  · refine Eq.trans ?_ h.counters
    cases active with
    | false => rfl
    | true => exact Live.counters_syncUser m'.live T _
  · exact (hmem e).2 (Or.inr (h.kept e he))
  · rcases (hmem e).1 he with rfl | he
    · exact Or.inr ⟨v, hv, rfl⟩
    · exact h.named e he

variable (X env) in
theorem grown_addTenantUsers (m : Manager) (T : String) (us : List User) :
    Grown m T us (m.addTenantUsers X env T us).1 := by
  rcases Manager.addTenantUsers_cases X env m T us with ⟨err, heq⟩ | ⟨tn, -, heq⟩
  · rw [heq]
    exact ⟨fun _ _ => rfl, rfl, rfl, rfl, fun _ h => h, fun _ h => Or.inl h⟩
  · have hopen : Grown m T us (m.opened T) := by
      refine ⟨fun T' _ => congrFun (m.usersOf_opened T) T', rfl, rfl, rfl, fun e he => ?_,
        fun e he => ?_⟩
      · rw [Manager.usersOf_opened]
        exact he
      · rw [Manager.usersOf_opened] at he
        exact Or.inl he
    rw [heq]
    exact Manager.mergeUsers_rule (I := Grown m T us) (fun m' v hv hm' _ => hm'.takeOn hv _) hopen

theorem Grown.replaced (h : Grown m T us m') (hc : Coherent m') :
    Replaced m m' T := by
  refine ⟨h.others, h.reg, h.counters, fun e => ?_, hc⟩
  rw [if_neg fun hgone => hgone.2 (h.kept e hgone.1), Manager.last, h.lastSeen]
  rfl

end NodeAgent
