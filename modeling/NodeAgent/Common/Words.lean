import Mathlib.Algebra.BigOperators.Group.Finset.Basic
/-!
# Sums of 64-bit words

Signed 64-bit words add up in any order, wrapping around as they do, so
they form a commutative monoid and finite sums of them can be written as
such. A sum of words that stand for naturals stands for the sum of the
naturals; only reading it back needs a bound.
-/

namespace Words

instance addCommMonoidInt64 : AddCommMonoid Int64 where
  add_assoc := Int64.add_assoc
  zero_add := Int64.zero_add
  add_zero := Int64.add_zero
  add_comm := Int64.add_comm
  nsmul := nsmulRec

/-- **Wrapping a sum is summing the wrapped terms.** -/
theorem ofNat_sum {ι : Type} (s : Finset ι) (f : ι → ℕ) :
    Int64.ofNat (∑ i ∈ s, f i) = ∑ i ∈ s, Int64.ofNat (f i) := by
  classical
  induction s using Finset.induction_on with
  | empty => rfl
  | insert i s hi ih =>
    rw [Finset.sum_insert hi, Finset.sum_insert hi, Int64.ofNat_add, ih]

variable {a b : ℕ}

theorem toInt_ofNat (ha : a < 2 ^ 63) : (Int64.ofNat a).toInt = a :=
  Int64.toInt_ofNat_of_lt ha

theorem ofNat_nonneg (ha : a < 2 ^ 63) : ¬ Int64.ofNat a < 0 := by
  rw [Int64.lt_iff_toInt_lt, toInt_ofNat ha]
  show ¬ (a : ℤ) < 0
  omega

theorem eq_ofNat_of_nonneg {w : Int64} (hw : 0 ≤ w.toInt) : w = Int64.ofNat w.toInt.toNat := by
  apply Int64.toInt_inj.1
  have hlt : w.toInt < 2 ^ 63 := Int64.toInt_lt w
  rw [toInt_ofNat (by omega)]
  omega

/-- **Wrapped naturals compare as their distances from `-2^63`.** -/
theorem ofNat_le_ofNat_iff (a b : ℕ) :
    Int64.ofNat a ≤ Int64.ofNat b ↔ (a + 2 ^ 63) % 2 ^ 64 ≤ (b + 2 ^ 63) % 2 ^ 64 := by
  rw [Int64.le_iff_toInt_le, Int64.toInt_ofNat', Int64.toInt_ofNat', Int.bmod_def, Int.bmod_def,
    show Int64.size = 2 ^ 64 from rfl]
  omega

theorem ofNat_le_ofNat_iff_le {a b : ℕ} (ha : a < 2 ^ 64) :
    ((Int64.ofNat a ≤ Int64.ofNat b) ↔ a ≤ b) ↔
      b < 2 ^ 63 ∧ a < 2 ^ 63 ∨
        2 ^ 63 ≤ b ∧ (b < a ∨ (a + 2 ^ 63) % 2 ^ 64 ≤ (b + 2 ^ 63) % 2 ^ 64) := by
  rw [ofNat_le_ofNat_iff]
  omega

end Words
