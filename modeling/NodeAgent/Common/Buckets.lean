import Mathlib.Data.List.Sort
import Mathlib.Data.List.TakeWhile
import Mathlib.Data.List.Flatten
/-!
# Reading a list by key

Entries are put into a bucket for each key and the buckets read one after
another. That is a stable sort of the entries whose key is within the
bound (`byKey_eq_filter`), so it leaves a list that is in order as it is.
-/

namespace Buckets

variable {α β : Type*} {key : α → ℕ} {l : List α}

/-- **A list by key**, for the keys below a bound. -/
def byKey (key : α → ℕ) (l : List α) (bound : ℕ) : List α :=
  (List.range bound).flatMap fun n => l.filter fun x => key x = n

theorem byKey_succ (key : α → ℕ) (l : List α) (bound : ℕ) :
    byKey key l (bound + 1) = byKey key l bound ++ l.filter fun x => key x = bound := by
  rw [byKey, List.range_succ, List.flatMap_append, List.flatMap_singleton]
  rfl

theorem filter_lt_succ (hl : l.Pairwise fun x y => key x ≤ key y) (n : ℕ) :
    (l.filter fun x => key x < n + 1) =
      (l.filter fun x => key x < n) ++ l.filter fun x => key x = n := by
  induction l with
  | nil => rfl
  | cons x l ih =>
    obtain ⟨hx, hl⟩ := List.pairwise_cons.1 hl
    rcases Nat.lt_or_ge (key x) n with hlt | hge
    · have hne : key x ≠ n := by omega
      have hlt' : key x < n + 1 := by omega
      rw [List.filter_cons, List.filter_cons, List.filter_cons, if_pos (decide_eq_true hlt'),
        if_pos (decide_eq_true hlt), if_neg (by simpa using hne), ih hl, List.cons_append]
    · -- what follows is at or above the key of the first
      have hnone : (l.filter fun y => key y < n) = [] :=
        List.filter_eq_nil_iff.2 fun y hy => by
          have := hx y hy
          simp only [decide_eq_true_eq]
          omega
      have ih' := ih hl
      rw [hnone, List.nil_append] at ih'
      have hiff : key x < n + 1 ↔ key x = n := by omega
      simp only [List.filter_cons, hnone, ih', hiff, hge.not_gt, decide_false,
        Bool.false_eq_true, if_false, List.nil_append]

/-- **A list in order is read as it is**, up to the bound. -/
theorem byKey_of_pairwise (hl : l.Pairwise fun x y => key x ≤ key y) (bound : ℕ) :
    byKey key l bound = l.filter fun x => key x < bound := by
  induction bound with
  | zero => simp [byKey]
  | succ bound ih => rw [byKey_succ, ih, filter_lt_succ hl]

theorem filter_insertionSort (l : List α) (n : ℕ) :
    ((l.insertionSort fun x y => key x ≤ key y).filter fun x => key x = n) =
      l.filter fun x => key x = n := by
  induction l with
  | nil => rfl
  | cons x l ih =>
    rw [List.insertionSort_cons_eq_take_drop, List.filter_append, List.filter_cons,
      List.filter_cons, ← ih]
    generalize l.insertionSort (fun x y => key x ≤ key y) = s
    have hsplit : (s.filter fun y => key y = n) =
        ((s.takeWhile fun y => ¬ key x ≤ key y).filter fun y => key y = n) ++
          (s.dropWhile fun y => ¬ key x ≤ key y).filter fun y => key y = n := by
      rw [← List.filter_append, List.takeWhile_append_dropWhile]
    by_cases hx : key x = n
    · -- the entry goes in front of those of its key
      have hnone : ((s.takeWhile fun y => ¬ key x ≤ key y).filter fun y => key y = n) = [] := by
        refine List.filter_eq_nil_iff.2 fun y hy => ?_
        have := List.mem_takeWhile_imp hy
        simp only [not_le, decide_eq_true_eq] at this ⊢
        omega
      rw [hsplit, hnone]
      simp [hx]
    · rw [hsplit]
      simp [hx]

theorem pairwise_insertionSort (key : α → ℕ) (l : List α) :
    (l.insertionSort fun x y => key x ≤ key y).Pairwise fun x y => key x ≤ key y := by
  have : Std.Total fun x y => key x ≤ key y := ⟨fun x y => Nat.le_total (key x) (key y)⟩
  have : IsTrans α fun x y => key x ≤ key y := ⟨fun _ _ _ => Nat.le_trans⟩
  exact List.pairwise_insertionSort _ l

/-- **Reading by key is a stable sort** of what is below the bound. -/
theorem byKey_eq_filter (key : α → ℕ) (l : List α) (bound : ℕ) :
    byKey key l bound =
      (l.insertionSort fun x y => key x ≤ key y).filter fun x => key x < bound := by
  rw [← byKey_of_pairwise (pairwise_insertionSort key l), byKey, byKey]
  exact List.flatMap_congr fun n _ => (filter_insertionSort l n).symm

theorem filter_byKey (p : α → Bool) (l : List α) (bound : ℕ) :
    (byKey key l bound).filter p = byKey key (l.filter p) bound := by
  rw [byKey, byKey, List.filter_flatMap]
  exact List.flatMap_congr fun n _ => List.filter_comm ..

/-! ## The contents of the entries -/

variable (contents : α → List β)

theorem flatMap_filter_of_nil {p : α → Bool} (h : ∀ x ∈ l, p x = false → contents x = []) :
    (l.filter p).flatMap contents = l.flatMap contents := by
  induction l with
  | nil => rfl
  | cons x l ih =>
    have ih' := ih fun y hy => h y (List.mem_cons_of_mem x hy)
    rw [List.filter_cons, List.flatMap_cons]
    cases hx : p x with
    | true => rw [if_pos rfl, List.flatMap_cons, ih']
    | false => rw [if_neg Bool.false_ne_true, ih', h x List.mem_cons_self hx, List.nil_append]

theorem nil_of_flatMap_filter {p : α → Bool}
    (h : (l.flatMap contents).length ≤ ((l.filter p).flatMap contents).length) :
    ∀ x ∈ l, p x = false → contents x = [] := by
  induction l with
  | nil => exact fun x hx => absurd hx List.not_mem_nil
  | cons y l ih =>
    have hle : ((l.filter p).flatMap contents).length ≤ (l.flatMap contents).length :=
      (List.filter_sublist.flatMap contents).length_le
    rw [List.filter_cons, List.flatMap_cons, List.length_append] at h
    cases hy : p y with
    | true =>
      rw [hy, if_pos rfl, List.flatMap_cons, List.length_append] at h
      refine List.forall_mem_cons.2 ⟨fun hno => ?_, ih (by omega)⟩
      cases hy.symm.trans hno
    | false =>
      rw [hy, if_neg Bool.false_ne_true] at h
      refine List.forall_mem_cons.2 ⟨fun _ => ?_, ih (by omega)⟩
      exact List.eq_nil_of_length_eq_zero (by omega)

end Buckets
