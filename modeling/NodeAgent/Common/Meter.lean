import NodeAgent.Common.Runs
import Mathlib.Algebra.BigOperators.Group.Finset.Basic
import Mathlib.Algebra.Order.BigOperators.Group.Finset
/-!
# Billing from cumulative counters

Keys carry traffic, each under a cumulative counter that may be set back to
nothing at any moment. A poll bills every owner for what its keys' counters
show beyond the value last seen, and remembers the new value; a counter
below the value last seen is taken to have been set back, and billed whole.

Three things are proved of this machine, of any keys and owners: it never
bills more than was carried; it bills exactly that if no counter is set
back, also across changes of who owns which key, if those happen when
nothing is left to bill; and across set-backs it bills the last value read
before each, if the first value read afterwards cannot be taken for the
old counter grown on.
-/

namespace Metering

variable {K O : Type} [DecidableEq K] [DecidableEq O]

/-- What a counter shows beyond the value last seen. -/
def owed (last count : ℕ) : ℕ :=
  if last ≤ count then count - last else count

theorem owed_self (c : ℕ) : owed c c = 0 := by
  simp [owed]

theorem owed_of_le {l c : ℕ} (h : l ≤ c) : owed l c = c - l :=
  if_pos h

theorem owed_add_le (l c n : ℕ) : owed l (c + n) ≤ owed l c + n := by
  unfold owed
  split_ifs <;> omega

/-- **The machine.** -/
structure Meter (K O : Type) where
  /-- The keys of an owner. -/
  members : O → Finset K
  /-- The counter of a key, if it has one. -/
  count : K → Option ℕ
  /-- The value last seen for a key. -/
  seen : K → ℕ
  /-- What an owner has been billed. -/
  billed : O → ℕ

/-- What can happen. -/
inductive Event (K O : Type)
  /-- A key carries traffic. -/
  | carry (k : K) (n : ℕ)
  /-- Every owner is billed. -/
  | poll
  /-- All counters are set back. -/
  | reset
  /-- An owner's keys are replaced; those it loses are forgotten. -/
  | assign (o : O) (s : Finset K)

namespace Meter

/-- What the next poll bills for a key. -/
def due (m : Meter K O) (k : K) : ℕ :=
  (m.count k).elim 0 (owed (m.seen k))

/-- What the next poll bills an owner. -/
def pending (m : Meter K O) (o : O) : ℕ :=
  ∑ k ∈ m.members o, m.due k

/-- One event. -/
def apply (m : Meter K O) : Event K O → Meter K O
  | .carry k n =>
    { m with count := Function.update m.count k (some ((m.count k).getD 0 + n)) }
  | .poll =>
    { m with
      seen := fun k => (m.count k).getD (m.seen k)
      billed := fun o => m.billed o + m.pending o }
  | .reset => { m with count := fun _ => none }
  | .assign o s =>
    { m with
      members := Function.update m.members o s
      seen := fun k => if k ∈ m.members o \ s then 0 else m.seen k }

/-- What an owner's keys carry in an event. -/
def carriedBy (m : Meter K O) (o : O) : Event K O → ℕ
  | .carry k n => if k ∈ m.members o then n else 0
  | _ => 0

/-- No counter is below the value last seen. -/
def Steady (m : Meter K O) : Prop :=
  ∀ k, m.seen k ≤ (m.count k).getD 0

/-- A key has nothing left to bill. -/
def Settled (m : Meter K O) (k : K) : Prop :=
  (m.count k).getD 0 = m.seen k

variable {m : Meter K O} {o : O} {k : K}

omit [DecidableEq K] [DecidableEq O] in
theorem due_of_settled (h : m.Settled k) : m.due k = 0 := by
  unfold due
  cases hc : m.count k with
  | none => rfl
  | some c =>
    rw [Settled, hc, Option.getD_some] at h
    rw [Option.elim_some, ← h, owed_self]

/-- **After a poll nothing is pending.** -/
theorem pending_poll (m : Meter K O) (o : O) : (m.apply .poll).pending o = 0 := by
  refine Finset.sum_eq_zero fun k _ => ?_
  show (m.count k).elim 0 (owed ((m.count k).getD (m.seen k))) = 0
  cases m.count k with
  | none => rfl
  | some c => exact owed_self c

theorem pending_carry (m : Meter K O) (k : K) (n : ℕ) (o : O) :
    (m.apply (.carry k n)).pending o =
      ∑ j ∈ m.members o, if j = k then owed (m.seen k) ((m.count k).getD 0 + n) else m.due j := by
  refine Finset.sum_congr rfl fun j _ => ?_
  show (Function.update m.count k (some ((m.count k).getD 0 + n)) j).elim 0 (owed (m.seen j)) = _
  by_cases hj : j = k
  · subst hj
    rw [Function.update_self, if_pos rfl]
    rfl
  · rw [Function.update_of_ne hj, if_neg hj]
    rfl

omit [DecidableEq K] [DecidableEq O] in
theorem owed_carry_le (m : Meter K O) (k : K) (n : ℕ) :
    owed (m.seen k) ((m.count k).getD 0 + n) ≤ m.due k + n := by
  unfold due
  cases m.count k with
  | none =>
    show owed (m.seen k) (0 + n) ≤ 0 + n
    unfold owed
    split_ifs <;> omega
  | some c => exact owed_add_le (m.seen k) c n

omit [DecidableEq K] [DecidableEq O] in
theorem owed_carry_eq (h : m.seen k ≤ (m.count k).getD 0) (n : ℕ) :
    owed (m.seen k) ((m.count k).getD 0 + n) = m.due k + n := by
  unfold due
  cases hc : m.count k with
  | none =>
    rw [hc, Option.getD_none] at h
    show owed (m.seen k) (0 + n) = 0 + n
    rw [owed_of_le (by omega)]
    omega
  | some c =>
    rw [hc, Option.getD_some] at h
    show owed (m.seen k) (c + n) = owed (m.seen k) c + n
    rw [owed_of_le (by omega), owed_of_le h]
    omega

theorem sum_ite_key (s : Finset K) (k : K) (f : K → ℕ) (a : ℕ) :
    (∑ j ∈ s, if j = k then a else f j) + (if k ∈ s then f k else 0) =
      (∑ j ∈ s, f j) + if k ∈ s then a else 0 := by
  by_cases hk : k ∈ s
  · rw [if_pos hk, if_pos hk, ← Finset.add_sum_erase s _ hk, ← Finset.add_sum_erase s f hk,
      if_pos rfl]
    have hrest : (∑ j ∈ s.erase k, if j = k then a else f j) = ∑ j ∈ s.erase k, f j :=
      Finset.sum_congr rfl fun j hj => if_neg (Finset.ne_of_mem_erase hj)
    rw [hrest]
    omega
  · rw [if_neg hk, if_neg hk]
    have hsame : (∑ j ∈ s, if j = k then a else f j) = ∑ j ∈ s, f j :=
      Finset.sum_congr rfl fun j hj => if_neg (ne_of_mem_of_not_mem hj hk)
    rw [hsame]

/-! ## Step by step -/

/-- **No event but a change of keys makes an owner owe more than was
carried.** -/
theorem apply_le (m : Meter K O) (o : O) {e : Event K O} (he : ∀ o s, e ≠ .assign o s) :
    (m.apply e).billed o + (m.apply e).pending o ≤
      m.billed o + m.pending o + m.carriedBy o e := by
  cases e with
  | carry k n =>
    have hsum := sum_ite_key (m.members o) k m.due (owed (m.seen k) ((m.count k).getD 0 + n))
    have hle := owed_carry_le m k n
    rw [pending_carry]
    show m.billed o + _ ≤ m.billed o + ∑ j ∈ m.members o, m.due j +
      if k ∈ m.members o then n else 0
    split_ifs at hsum ⊢ <;> omega
  | poll =>
    rw [pending_poll]
    exact le_refl _
  | reset =>
    have hzero : (m.apply .reset).pending o = 0 := Finset.sum_eq_zero fun _ _ => rfl
    rw [hzero]
    exact Nat.add_le_add_right (Nat.le_add_right _ _) 0
  | assign o' s => exact absurd rfl (he o' s)

theorem Steady.apply (h : m.Steady) {e : Event K O} (hreset : e ≠ .reset) :
    (m.apply e).Steady := by
  intro j
  have hj := h j
  cases e with
  | carry k n =>
    show m.seen j ≤ (Function.update m.count k (some ((m.count k).getD 0 + n)) j).getD 0
    by_cases hjk : j = k
    · subst hjk
      rw [Function.update_self, Option.getD_some]
      omega
    · rw [Function.update_of_ne hjk]
      exact hj
  | poll =>
    show (m.count j).getD (m.seen j) ≤ (m.count j).getD 0
    cases hc : m.count j with
    | none => rw [hc] at hj; exact hj
    | some c => exact le_refl _
  | reset => exact absurd rfl hreset
  | assign o' s =>
    show (if j ∈ m.members o' \ s then 0 else m.seen j) ≤ (m.count j).getD 0
    split_ifs
    · exact Nat.zero_le _
    · exact hj

theorem due_assign {s : Finset K} (hk : k ∉ m.members o \ s) :
    (m.apply (.assign o s)).due k = m.due k := by
  show (m.count k).elim 0 (owed (if k ∈ m.members o \ s then 0 else m.seen k)) = _
  rw [if_neg hk]
  rfl

omit [DecidableEq O] in
theorem sum_due_eq {s t : Finset K} (h : ∀ k, (k ∈ t ↔ k ∈ s) ∨ m.Settled k) :
    ∑ k ∈ s, m.due k = ∑ k ∈ t, m.due k := by
  have hs : ∑ k ∈ s ∩ t, m.due k = ∑ k ∈ s, m.due k := by
    refine Finset.sum_subset Finset.inter_subset_left fun j hj hno => ?_
    refine due_of_settled ((h j).resolve_left fun hiff => hno ?_)
    exact Finset.mem_inter.2 ⟨hj, hiff.2 hj⟩
  have ht : ∑ k ∈ s ∩ t, m.due k = ∑ k ∈ t, m.due k := by
    refine Finset.sum_subset Finset.inter_subset_right fun j hj hno => ?_
    refine due_of_settled ((h j).resolve_left fun hiff => hno ?_)
    exact Finset.mem_inter.2 ⟨hiff.1 hj, hj⟩
  exact hs.symm.trans ht

/-- **Keys that change hands when settled change what nobody owes.** -/
theorem pending_assign (hdisj : ∀ o o' k, k ∈ m.members o → k ∈ m.members o' → o = o') {o' : O}
    {s : Finset K} (hsettled : ∀ k, (k ∈ m.members o' ↔ k ∈ s) ∨ m.Settled k) (o : O) :
    (m.apply (.assign o' s)).pending o = m.pending o := by
  show ∑ k ∈ Function.update m.members o' s o, _ = _
  by_cases ho : o = o'
  · subst ho
    rw [Function.update_self]
    have hnew : ∑ k ∈ s, (m.apply (.assign o s)).due k = ∑ k ∈ s, m.due k :=
      Finset.sum_congr rfl fun j hj => due_assign fun h => (Finset.mem_sdiff.1 h).2 hj
    exact hnew.trans (sum_due_eq hsettled)
  · rw [Function.update_of_ne ho]
    refine Finset.sum_congr rfl fun j hj => due_assign fun h => ho ?_
    exact hdisj o o' j hj (Finset.mem_sdiff.1 h).1

/-- **Without set-backs, and if keys change hands only when settled, an
owner owes exactly what was carried.** -/
theorem apply_eq (hsteady : m.Steady) (o : O)
    (hdisj : ∀ o o' k, k ∈ m.members o → k ∈ m.members o' → o = o') {e : Event K O}
    (hreset : e ≠ .reset)
    (hsettled : ∀ o' s, e = .assign o' s →
      ∀ k, (k ∈ m.members o' ↔ k ∈ s) ∨ m.Settled k) :
    (m.apply e).billed o + (m.apply e).pending o =
      m.billed o + m.pending o + m.carriedBy o e := by
  cases e with
  | carry k n =>
    have hsum := sum_ite_key (m.members o) k m.due (owed (m.seen k) ((m.count k).getD 0 + n))
    rw [owed_carry_eq (hsteady k)] at hsum
    rw [pending_carry, owed_carry_eq (hsteady k)]
    show m.billed o + _ = m.billed o + ∑ j ∈ m.members o, m.due j +
      if k ∈ m.members o then n else 0
    split_ifs at hsum ⊢ <;> omega
  | poll =>
    rw [pending_poll]
    rfl
  | reset => exact absurd rfl hreset
  | assign o' s =>
    rw [pending_assign hdisj (hsettled o' s rfl)]
    rfl

end Meter

/-! ## Run by run

What a run adds up to is kept beside the machine: the traffic the keys of
each owner carried, and for each key the last value a poll read since the
counters were last set back, and the sum of those of earlier times. -/

/-- The machine with what has happened so far. -/
structure Ledger (K O : Type) where
  meter : Meter K O
  /-- What the keys of an owner carried while they were its own. -/
  carried : O → ℕ
  /-- The sum of a key's last readings before each set-back. -/
  past : K → ℕ
  /-- A key's last reading since. -/
  read : K → Option ℕ

namespace Ledger

/-- Nothing has happened yet. -/
def start (m : Meter K O) : Ledger K O :=
  ⟨m, fun _ => 0, fun _ => 0, fun _ => none⟩

/-- One event. -/
def step (l : Ledger K O) (e : Event K O) : Ledger K O where
  meter := l.meter.apply e
  carried := fun o => l.carried o + l.meter.carriedBy o e
  past :=
    match e with
    | .reset => fun k => l.past k + (l.read k).getD 0
    | _ => l.past
  read :=
    match e with
    | .reset => fun _ => none
    | .poll => fun k => (l.meter.count k).or (l.read k)
    | _ => l.read

variable {m : Meter K O} {l : Ledger K O}

/-- **Never more is billed or pending than was carried**, however counters
are set back. -/
theorem billed_le_of_path
    (h : Runs.Path Ledger.step (fun _ e => ∀ o s, e ≠ .assign o s) (start m) l) (o : O) :
    l.meter.billed o + l.meter.pending o ≤ m.billed o + m.pending o + l.carried o := by
  refine h.invariant
    (I := fun l => l.meter.billed o + l.meter.pending o ≤
      m.billed o + m.pending o + l.carried o) (fun l e hl he => ?_) (le_refl _)
  have hstep := l.meter.apply_le o he
  show (l.meter.apply e).billed o + (l.meter.apply e).pending o ≤
    m.billed o + m.pending o + (l.carried o + l.meter.carriedBy o e)
  omega

/-- The events of a run without set-backs in which keys change hands only
when settled, and belong to one owner at a time. -/
def Undisturbed (l : Ledger K O) (e : Event K O) : Prop :=
  e ≠ .reset ∧ ∀ o s, e = .assign o s →
    (∀ k, (k ∈ l.meter.members o ↔ k ∈ s) ∨ l.meter.Settled k) ∧
      ∀ k ∈ s, ∀ o', k ∈ l.meter.members o' → o' = o

/-- **Exactly what was carried is billed or pending** in such a run. -/
theorem billed_eq_of_path (hsteady : m.Steady)
    (hdisj : ∀ o o' k, k ∈ m.members o → k ∈ m.members o' → o = o')
    (h : Runs.Path Ledger.step Undisturbed (start m) l) (o : O) :
    l.meter.billed o + l.meter.pending o = m.billed o + m.pending o + l.carried o := by
  refine (h.invariant
    (I := fun l => l.meter.Steady ∧
      (∀ o o' k, k ∈ l.meter.members o → k ∈ l.meter.members o' → o = o') ∧
      l.meter.billed o + l.meter.pending o = m.billed o + m.pending o + l.carried o)
    (fun l e hl he => ?_) ⟨hsteady, hdisj, rfl⟩).2.2
  obtain ⟨hs, hd, heq⟩ := hl
  have heq' := l.meter.apply_eq hs o hd he.1 fun o' s has => (he.2 o' s has).1
  refine ⟨hs.apply he.1, ?_, ?_⟩
  · cases e with
    | assign o' s =>
      -- the new keys are nobody else's
      have hnew := (he.2 o' s rfl).2
      intro o₁ o₂ k h₁ h₂
      replace h₁ : k ∈ Function.update l.meter.members o' s o₁ := h₁
      replace h₂ : k ∈ Function.update l.meter.members o' s o₂ := h₂
      rw [Function.update_apply] at h₁ h₂
      split_ifs at h₁ h₂ with ho₁ ho₂ ho₂
      · rw [ho₁, ho₂]
      · rw [ho₁, hnew k h₁ o₂ h₂]
      · rw [ho₂, hnew k h₂ o₁ h₁]
      · exact hd o₁ o₂ k h₁ h₂
    | _ => exact hd
  · show (l.meter.apply e).billed o + (l.meter.apply e).pending o =
      m.billed o + m.pending o + (l.carried o + l.meter.carriedBy o e)
    omega

/-- The events of a run with fixed keys in which the first reading of a
key's counter after a set-back cannot be taken for the old one grown on. -/
def Recognised (l : Ledger K O) (e : Event K O) : Prop :=
  (∀ o s, e ≠ .assign o s) ∧
    (e = .poll → ∀ o, ∀ k ∈ l.meter.members o, ∀ c, l.meter.count k = some c →
      l.read k = none → l.meter.seen k = 0 ∨ c < l.meter.seen k)

/-- What an owner's keys were last read at, over all set-backs. -/
def readSum (l : Ledger K O) (o : O) : ℕ :=
  ∑ k ∈ l.meter.members o, (l.past k + (l.read k).getD 0)

/-- A key that has been read since the last set-back was last seen at that
reading, and its counter has grown from there. -/
def Current (l : Ledger K O) : Prop :=
  ∀ k r, l.read k = some r → l.meter.seen k = r ∧ ∃ c, l.meter.count k = some c ∧ r ≤ c

theorem Current.step (h : l.Current) {e : Event K O} (he : ∀ o s, e ≠ .assign o s) :
    (l.step e).Current := by
  intro j r hr
  cases e with
  | carry k n =>
    obtain ⟨hseen, c, hc, hle⟩ := h j r hr
    refine ⟨hseen, ?_⟩
    show ∃ c, Function.update l.meter.count k (some ((l.meter.count k).getD 0 + n)) j = some c ∧
      r ≤ c
    by_cases hj : j = k
    · subst hj
      rw [Function.update_self, hc]
      exact ⟨_, rfl, Nat.le_add_right_of_le hle⟩
    · rw [Function.update_of_ne hj]
      exact ⟨c, hc, hle⟩
  | poll =>
    replace hr : (l.meter.count j).or (l.read j) = some r := hr
    show (l.meter.count j).getD (l.meter.seen j) = r ∧ ∃ c, l.meter.count j = some c ∧ r ≤ c
    cases hc : l.meter.count j with
    | none =>
      -- a key read since then still has its counter
      rw [hc] at hr
      obtain ⟨-, c, hc', -⟩ := h j r hr
      rw [hc] at hc'
      cases hc'
    | some c =>
      rw [hc] at hr
      cases hr
      exact ⟨rfl, r, rfl, le_refl r⟩
  | reset => cases hr
  | assign o s => exact absurd rfl (he o s)

omit [DecidableEq K] [DecidableEq O] in
/-- **A poll bills a key what its reading has grown by**, if a counter that
was set back is recognised. -/
theorem read_add_due (h : l.Current) {k : K}
    (hfirst : ∀ c, l.meter.count k = some c → l.read k = none →
      l.meter.seen k = 0 ∨ c < l.meter.seen k) :
    (l.read k).getD 0 + l.meter.due k = ((l.meter.count k).or (l.read k)).getD 0 := by
  unfold Meter.due
  cases hc : l.meter.count k with
  | none => rfl
  | some c =>
    show (l.read k).getD 0 + owed (l.meter.seen k) c = c
    cases hr : l.read k with
    | none =>
      show 0 + owed (l.meter.seen k) c = c
      unfold owed
      rcases hfirst c hc hr with h0 | hlt
      · rw [h0]; simp
      · rw [if_neg (by omega)]; omega
    | some r =>
      obtain ⟨hseen, c', hc', hle⟩ := h k r hr
      obtain rfl : c = c' := Option.some.inj (hc.symm.trans hc')
      rw [hseen, owed_of_le hle]
      show r + (c - r) = c
      omega

theorem readSum_poll (h : l.Current) (he : Recognised l .poll) (o : O) :
    (l.step .poll).readSum o = l.readSum o + l.meter.pending o := by
  show ∑ k ∈ l.meter.members o, (l.past k + ((l.meter.count k).or (l.read k)).getD 0) = _
  rw [readSum, Meter.pending, ← Finset.sum_add_distrib]
  refine Finset.sum_congr rfl fun k hk => ?_
  rw [← read_add_due h (he.2 rfl o k hk), Nat.add_assoc]

/-- **The last reading before each set-back is billed** in such a run. -/
theorem billed_eq_readSum_of_path
    (h : Runs.Path Ledger.step Recognised (start m) l) (o : O) :
    l.meter.billed o = m.billed o + l.readSum o := by
  refine (h.invariant
    (I := fun l => l.Current ∧ l.meter.billed o = m.billed o + l.readSum o)
    (fun l e hl he => ⟨hl.1.step he.1, ?_⟩) ⟨fun k r hr => (by cases hr), ?_⟩).2
  · obtain ⟨hcurrent, hsum⟩ := hl
    cases e with
    | carry k n => exact hsum
    | poll =>
      show l.meter.billed o + l.meter.pending o = _
      rw [readSum_poll hcurrent he, hsum, Nat.add_assoc]
    | reset =>
      -- the last readings pass from `read` to `past`
      exact hsum
    | assign o' s => exact absurd rfl (he.1 o' s)
  · show m.billed o = m.billed o + ∑ k ∈ m.members o, (0 + 0)
    simp

end Ledger

end Metering
