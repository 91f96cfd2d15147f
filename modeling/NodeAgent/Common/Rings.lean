import Mathlib.Data.List.DropRight
import Mathlib.Data.Nat.ModEq
/-!
# Cells written in turn

A sequence is written into a fixed number of cells, one after the other
and around again. An element is in the cell its position falls on until
the sequence has gone around once more, so the cells show the end of the
sequence, as much of it as there are cells.
-/

namespace Rings

variable {α : Type} {cells seq : List α}

/-- **The cells show the end of a sequence.** -/
def Shows (cells seq : List α) : Prop :=
  ∀ i < seq.length, seq.length ≤ i + cells.length → cells[i % cells.length]? = seq[i]?

theorem shows_nil (cells : List α) : Shows cells [] := fun i hi => absurd hi (Nat.not_lt_zero i)

theorem mod_ne_mod {i j size : ℕ} (hlt : i < j) (hturn : j < i + size) : i % size ≠ j % size := by
  intro heq
  have hdvd : size ∣ j - i := (Nat.modEq_iff_dvd' (Nat.le_of_lt hlt)).1 heq
  have hle := Nat.le_of_dvd (by omega) hdvd
  omega

/-- **The next element goes into the next cell.** -/
theorem Shows.concat (h : Shows cells seq) (hsize : 0 < cells.length) (x : α) :
    Shows (cells.set (seq.length % cells.length) x) (seq ++ [x]) := by
  intro i hi hturn
  rw [List.length_append, List.length_singleton] at hi hturn
  rw [List.length_set] at hturn ⊢
  rcases Nat.lt_succ_iff_lt_or_eq.1 hi with hlt | rfl
  · -- it is an element that was there before, in another cell
    have hne : seq.length % cells.length ≠ i % cells.length :=
      (mod_ne_mod hlt (by omega)).symm
    rw [List.getElem?_set_ne hne, List.getElem?_append_left hlt]
    exact h i hlt (by omega)
  · rw [List.getElem?_set_self (Nat.mod_lt _ hsize), List.getElem?_concat_length]

/-- **The last elements can be read off the cells**, each where its
position falls. -/
theorem Shows.mapM_eq (h : Shows cells seq) {n : ℕ} (hn : n ≤ seq.length)
    (hsize : n ≤ cells.length) {place : ℕ → ℕ}
    (hplace : ∀ j < n, place j = (seq.length - n + j) % cells.length) :
    (List.range n).mapM (fun j => cells[place j]?) = some (seq.rtake n) := by
  -- by induction on how many of them have been read
  have hread : ∀ k ≤ n, (List.range k).mapM (fun j => cells[place j]?) =
      some ((seq.rtake n).take k) := by
    intro k hk
    induction k with
    | zero => rfl
    | succ k ih =>
      have hlt : seq.length - n + k < seq.length := by omega
      have hcell : cells[place k]? = some seq[seq.length - n + k] := by
        rw [hplace k hk, h _ hlt (by omega), List.getElem?_eq_getElem hlt]
      have hlast : (seq.rtake n)[k]? = some seq[seq.length - n + k] := by
        rw [List.rtake, List.getElem?_drop, List.getElem?_eq_getElem hlt]
      rw [List.range_succ, List.mapM_append, ih (Nat.le_of_succ_le hk), List.take_add_one, hlast]
      simp only [List.mapM_cons, List.mapM_nil, hcell]
      rfl
  have hlength : (seq.rtake n).length = n := by
    rw [List.rtake, List.length_drop]
    omega
  rw [hread n (Nat.le_refl n), List.take_of_length_le (Nat.le_of_eq hlength)]

end Rings
