import Mathlib.Algebra.Group.Pi.Basic
import Mathlib.Algebra.Order.Group.Int
import Mathlib.Algebra.Ring.Int.Defs
import Mathlib.Tactic.Common
/-!
# Readings of a counter that starts again

A `Source` counts something, in several directions at once, and may start
again from nothing at any moment. A `Reading` is what somebody else knows
of it: the values last seen, what was seen and is still to be reported,
and whether the source is gone. A sample is taken as growth, or as a new
start of which nothing is counted. `Covered` is the invariant under which
no more is ever reported than the source has counted, also when a sample
is used only some time after it was read.
-/

namespace Gauge

variable {ι : Type}

/-- **A source**: what it counted before it last started again, and what
its counters show. -/
structure Source (ι : Type) where
  past : ι → ℕ
  count : ι → ℕ

namespace Source

/-- Nothing counted yet. -/
def fresh : Source ι where
  past := fun _ => 0
  count := fun _ => 0

/-- All it has ever counted. -/
def total (src : Source ι) (i : ι) : ℕ :=
  src.past i + src.count i

/-- It counts some more. -/
def carry (src : Source ι) (n : ι → ℕ) : Source ι where
  past := src.past
  count := fun i => src.count i + n i

/-- It starts again. -/
def restart (src : Source ι) : Source ι where
  past := src.total
  count := fun _ => 0

/-- **What `src` was read at is still accounted for in `now`**: the
counters have only grown, or have started again since. -/
def Leads (src now : Source ι) : Prop :=
  ∀ i, src.total i ≤ now.past i + min (src.count i) (now.count i)

variable {src now : Source ι}

theorem leads_refl (src : Source ι) : src.Leads src := by
  intro i
  rw [min_self]
  exact le_refl _

theorem Leads.carry (h : src.Leads now) (n : ι → ℕ) : src.Leads (now.carry n) := by
  intro i
  have hi := h i
  show _ ≤ now.past i + min _ (now.count i + n i)
  omega

theorem Leads.restart (h : src.Leads now) : src.Leads now.restart := by
  intro i
  have hi := h i
  show _ ≤ now.past i + now.count i + min _ 0
  omega

end Source

/-- **A reading of a source.** -/
structure Reading (ι : Type) where
  seen : ι → ℕ
  /-- Seen, and not reported yet. -/
  due : ι → ℕ
  /-- The source is known to be gone. -/
  gone : Bool

/-- **A sample `s` has been taken**: all of it, where nothing was known;
else nothing, or in a direction that has not gone back what it has
grown. -/
structure Taken (r : Option (Reading ι)) (s : ι → ℕ) (r' : Reading ι) : Prop where
  seen : r'.seen = s
  gone : r'.gone = false
  due : match r with
    | none => ∀ i, r'.due i ≤ s i
    | some r => ∀ i, r'.due i ≤ r.due i ∨ r.seen i ≤ s i ∧ r'.due i ≤ r.due i + (s i - r.seen i)

/-- **A pull has reported `v`**: nothing, or at most what was due, of
which nothing is left; a reading of a source that is gone is dropped. -/
inductive Pulled : Option (Reading ι) → (ι → ℤ) → Option (Reading ι) → Prop
  | idle (r : Option (Reading ι)) : Pulled r 0 r
  | reset {q : Reading ι} {v : ι → ℤ} (hv : ∀ i, 0 ≤ v i ∧ v i ≤ q.due i) (hgone : q.gone = false) :
      Pulled (some q) v (some { q with due := fun _ => 0 })
  | drop {q : Reading ι} {v : ι → ℤ} (hv : ∀ i, 0 ≤ v i ∧ v i ≤ q.due i) (hgone : q.gone = true) :
      Pulled (some q) v none

variable {v : ι → ℤ}

theorem Pulled.nonneg {r r' : Option (Reading ι)} (h : Pulled r v r') (i : ι) :
    0 ≤ v i := by
  cases h with
  | idle => exact le_refl _
  | reset hv hgone => exact (hv i).1
  | drop hv hgone => exact (hv i).1

variable {r' : Option (Reading ι)}

theorem Pulled.of_none (h : Pulled none v r') :
    v = 0 ∧ r' = none := by
  cases h
  exact ⟨rfl, rfl⟩

theorem Pulled.of_some {q : Reading ι} (h : Pulled (some q) v r') :
    (∃ q', r' = some q' ∧ q'.seen = q.seen ∧ q'.gone = q.gone ∧ ∀ i, q'.due i ≤ q.due i) ∨
      r' = none ∧ q.gone = true := by
  cases h with
  | idle => exact Or.inl ⟨q, rfl, rfl, rfl, fun i => le_refl _⟩
  | reset hv hgone => exact Or.inl ⟨_, rfl, rfl, rfl, fun i => Nat.zero_le _⟩
  | drop hv hgone => exact Or.inr ⟨rfl, hgone⟩

theorem Pulled.trans {r r' r'' : Option (Reading ι)} {v w : ι → ℤ} (h : Pulled r v r')
    (h' : Pulled r' w r'') : Pulled r (v + w) r'' := by
  cases h with
  | idle =>
    rw [zero_add]
    exact h'
  | reset hv hgone =>
    cases h' with
    | idle =>
      rw [add_zero]
      exact .reset hv hgone
    | reset hw hgone' =>
      refine .reset (fun i => ?_) hgone
      have hvi := hv i
      have hwi := hw i
      rw [Pi.add_apply]
      push_cast at hwi
      omega
    | drop hw hgone' =>
      rw [hgone] at hgone'
      cases hgone'
  | drop hv hgone =>
    cases h' with
    | idle =>
      rw [add_zero]
      exact .drop hv hgone

/-- What may have been reported or be due in a direction. -/
def limit (r : Option (Reading ι)) (src : Source ι) (i : ι) : ℕ :=
  match r with
  | none => src.past i
  | some r => src.past i + if r.gone then 0 else min (r.seen i) (src.count i)

/-- **No more is reported or due than the source has counted**, and what
it counts now is taken only as far as it was seen. -/
def Covered (reported : ι → ℤ) (r : Option (Reading ι)) (src : Source ι) : Prop :=
  ∀ i, reported i + (r.elim 0 fun r => r.due i) ≤ limit r src i

namespace Covered

variable {reported : ι → ℤ} {r : Option (Reading ι)} {q q' : Reading ι}
  {src now : Source ι}

theorem fresh : Covered (fun _ => 0) none (Source.fresh : Source ι) := by
  intro i
  exact le_refl _

theorem limit_le (r : Option (Reading ι)) (src : Source ι) (i : ι) : limit r src i ≤ src.total i := by
  unfold limit Source.total
  cases r with
  | none => exact Nat.le_add_right _ _
  | some q =>
    dsimp only
    split_ifs <;> omega

/-- **No more is reported than was counted**, what is due included. -/
theorem booked_le (h : Covered reported (some q) src) (i : ι) :
    reported i + q.due i ≤ src.total i :=
  (h i).trans (by exact_mod_cast limit_le (some q) src i)

theorem reported_le (h : Covered reported r src) (i : ι) : reported i ≤ src.total i := by
  cases r with
  | none =>
    have hi := (h i).trans (Int.ofNat_le.2 (limit_le none src i))
    simpa using hi
  | some q =>
    have hi := h.booked_le i
    omega

theorem carry (h : Covered reported r src) (n : ι → ℕ) : Covered reported r (src.carry n) := by
  intro i
  have hi := h i
  cases r with
  | none => exact hi
  | some q =>
    simp only [Option.elim, limit, Source.carry] at hi ⊢
    split_ifs at hi ⊢
    · exact hi
    · push_cast at hi ⊢
      omega

theorem restart (h : Covered reported r src) : Covered reported r src.restart := by
  intro i
  have hi := h i
  cases r with
  | none =>
    simp only [Option.elim, limit, Source.restart, Source.total] at hi ⊢
    push_cast at hi ⊢
    omega
  | some q =>
    simp only [Option.elim, limit, Source.restart, Source.total] at hi ⊢
    split_ifs at hi ⊢ <;> push_cast at hi ⊢ <;> omega

theorem retire (h : Covered reported (some q) src) (hq : q'.due = q.due)
    (hzero : ∀ i, src.count i = 0) : Covered reported (some q') src := by
  intro i
  have hi := h i
  simp only [Option.elim, limit, hzero i, hq] at hi ⊢
  split_ifs at hi ⊢ <;> push_cast at hi ⊢ <;> omega

theorem pulled (h : Covered reported r src)
    (hpull : Pulled r v r') : Covered (reported + v) r' src := by
  intro i
  have hi := h i
  rw [Pi.add_apply]
  cases hpull with
  | idle =>
    rw [Pi.zero_apply, add_zero]
    exact hi
  | reset hv hgone =>
    have hvi := hv i
    simp only [Option.elim, limit] at hi ⊢
    push_cast at hi ⊢
    omega
  | drop hv hgone =>
    have hvi := hv i
    simp only [Option.elim, limit, hgone, if_true] at hi ⊢
    push_cast at hi ⊢
    omega

theorem forget (h : Covered reported (some q) src) (hgone : q.gone = true) :
    Covered reported none src := by
  intro i
  have hi := h i
  simp only [Option.elim, limit, hgone, if_true] at hi ⊢
  push_cast at hi ⊢
  omega

/-- **A sample that was read at `src` is taken now.** -/
theorem sample (h : Covered reported r src) (hleads : src.Leads now)
    (htaken : Taken r src.count q') : Covered reported (some q') now := by
  intro i
  have hi := h i
  have hlead := hleads i
  obtain ⟨hseen, hgone, hdue⟩ := htaken
  simp only [Option.elim, limit, hseen, hgone, Source.total] at hi hlead ⊢
  -- in each case no more is due than the source had counted when it was read
  have hbound : reported i + q'.due i ≤ (src.past i + src.count i : ℕ) := by
    cases r with
    | none =>
      have hd := hdue i
      push_cast at hi ⊢
      omega
    | some q =>
      dsimp only at hdue hi
      have hd := hdue i
      split_ifs at hi <;> push_cast at hi ⊢ <;> omega
  rw [if_neg (by decide)]
  omega

end Covered

end Gauge
