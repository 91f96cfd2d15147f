import Mathlib.Algebra.Order.Group.Int
import NodeAgent.Common.Rings
import NodeAgent.Xray.Model.Diagnostics
/-!
# The startup log ring is a list

The cells of a ring show the end of the lines added since it was last
reset (`Rings.Shows`); `next` is the cell the next line falls on, and
`full` says that the lines have gone around. Every call keeps this, so a
ring never reads or writes out of range, and its tail is the tail of the
list of lines.
-/

namespace NodeAgent

namespace StartupLogRing

variable {r : StartupLogRing} {added : List String}

/-- **The ring stands for the lines added.** -/
structure Keeps (r : StartupLogRing) (added : List String) : Prop where
  size : 0 < r.lines.length
  next : r.next = added.length % r.lines.length
  full : r.full = decide (r.lines.length ≤ added.length)
  shows : Rings.Shows r.lines added

theorem length_new (size : ℤ) : (new size).lines.length = (max 1 size).toNat := by
  rw [new, List.length_replicate]
  split_ifs
  · rw [max_eq_left (by omega)]
  · rw [max_eq_right (by omega)]

theorem keeps_new (size : ℤ) : (new size).Keeps [] := by
  have hsize : 0 < (new size).lines.length := by
    rw [length_new]
    omega
  refine ⟨hsize, (Nat.zero_mod _).symm, ?_, Rings.shows_nil _⟩
  exact (decide_eq_false (Nat.not_le_of_lt hsize)).symm

theorem Keeps.reset (h : r.Keeps added) : r.reset.Keeps [] := by
  have hlength : r.reset.lines.length = r.lines.length := List.length_map ..
  have hsize : 0 < r.reset.lines.length := hlength ▸ h.size
  refine ⟨hsize, (Nat.zero_mod _).symm, ?_, Rings.shows_nil _⟩
  exact (decide_eq_false (Nat.not_le_of_lt hsize)).symm

theorem full_succ (size count : ℕ) :
    (if (count % size + 1) % size = 0 then true else decide (size ≤ count)) =
      decide (size ≤ count + 1) := by
  rw [Nat.mod_add_mod]
  by_cases hle : size ≤ count
  · rw [decide_eq_true hle, ite_self, decide_eq_true (by omega)]
  · rw [decide_eq_false hle]
    by_cases heq : count + 1 = size
    · rw [heq, Nat.mod_self, if_pos rfl, decide_eq_true (Nat.le_refl size)]
    · rw [Nat.mod_eq_of_lt (by omega), if_neg (Nat.succ_ne_zero count), decide_eq_false (by omega)]

/-- **A line is added** without an index out of range. -/
theorem Keeps.add (h : r.Keeps added) (line : String) :
    ∃ r', r.add line = some r' ∧ r'.lines.length = r.lines.length ∧
      r'.Keeps (added ++ [line]) := by
  have hsize := h.size
  have hnext : r.next < r.lines.length := by
    rw [h.next]
    exact Nat.mod_lt _ hsize
  refine ⟨_, by rw [StartupLogRing.add, if_neg (by omega), if_pos hnext], List.length_set, ?_⟩
  refine ⟨?_, ?_, ?_, ?_⟩
  · simpa only [List.length_set] using hsize
  · simp only [List.length_set, List.length_append, List.length_singleton, h.next, Nat.mod_add_mod]
  · simp only [List.length_set, List.length_append, List.length_singleton, h.next, h.full]
    exact full_succ _ _
  · simp only [h.next]
    exact h.shows.concat hsize line

/-- **The tail is that of the lines.** -/
theorem Keeps.tail_eq (h : r.Keeps added) (n : ℤ) :
    r.tail n = some (added.rtake
      (if n ≤ 0 then min r.lines.length added.length
        else min n.toNat (min r.lines.length added.length))) := by
  have hsize := h.size
  -- how many lines there are to show
  have hcount : (if r.full then r.lines.length else r.next) = min r.lines.length added.length := by
    rw [h.full, h.next]
    by_cases hfull : r.lines.length ≤ added.length
    · rw [if_pos (decide_eq_true hfull), min_eq_left hfull]
    · rw [if_neg (by rwa [decide_eq_true_eq]), min_eq_right (by omega),
        Nat.mod_eq_of_lt (by omega)]
  simp only [tail, hcount]
  by_cases hnone : min r.lines.length added.length = 0
  · have hnil : added = [] := List.eq_nil_of_length_eq_zero (by omega)
    rw [if_pos hnone, hnil, List.rtake_nil]
  · have hshown : (if n ≤ 0 ∨ ((min r.lines.length added.length : ℕ) : ℤ) < n then
          min r.lines.length added.length else n.toNat) =
        if n ≤ 0 then min r.lines.length added.length
          else min n.toNat (min r.lines.length added.length) := by
      split_ifs <;> omega
    rw [if_neg hnone, hshown]
    generalize hk : (if n ≤ 0 then min r.lines.length added.length
      else min n.toNat (min r.lines.length added.length)) = k
    have hle : k ≤ min r.lines.length added.length := by
      rw [← hk]
      split_ifs <;> omega
    refine h.shows.mapM_eq (by omega) (by omega) fun j hj => ?_
    -- the place of the line, by whether the lines have gone around
    rw [h.full, h.next]
    by_cases hfull : r.lines.length ≤ added.length
    · rw [if_pos (decide_eq_true hfull), min_eq_left hfull, Nat.add_assoc, Nat.mod_add_mod]
      have hturn : added.length + (r.lines.length - k + j) =
          added.length - k + j + r.lines.length := by omega
      rw [hturn, Nat.add_mod_right]
    · rw [if_neg (by rwa [decide_eq_true_eq]), min_eq_right (by omega), Nat.zero_add]

theorem Keeps.foldlM_call (h : r.Keeps added) (calls : List RingCall) :
    ∃ r', calls.foldlM call r = some r' ∧ r'.lines.length = r.lines.length ∧
      r'.Keeps (RingCall.added calls added) := by
  induction calls generalizing r added with
  | nil => exact ⟨r, rfl, rfl, h⟩
  | cons c calls ih =>
    cases c with
    | add line =>
      obtain ⟨r', hadd, hlength, hkeeps⟩ := h.add line
      obtain ⟨r'', hrest, hlength', hkeeps'⟩ := ih hkeeps
      refine ⟨r'', ?_, hlength'.trans hlength, hkeeps'⟩
      rw [List.foldlM_cons, call, hadd]
      exact hrest
    | reset =>
      obtain ⟨r', hrest, hlength, hkeeps⟩ := ih h.reset
      exact ⟨r', hrest, hlength.trans (List.length_map ..), hkeeps⟩

/-- **The ring refines a list.** Whatever was called on a new ring, no
index was out of range, and none is when its tail is read: that is the
last lines of those added since the last reset, as many as asked for and
at most as many as there are cells, or all that are left if not asked for
a number. -/
theorem tail_refines (size : ℤ) (calls : List RingCall) (n : ℤ) :
    let added := RingCall.added calls []
    let kept := min (max 1 size).toNat added.length
    ∃ r, calls.foldlM call (new size) = some r ∧
      r.tail n = some (added.rtake (if n ≤ 0 then kept else min n.toNat kept)) := by
  intro added kept
  obtain ⟨r, hcalls, hlength, hkeeps⟩ := (keeps_new size).foldlM_call calls
  refine ⟨r, hcalls, ?_⟩
  rw [hkeeps.tail_eq n, hlength, length_new]

end StartupLogRing

end NodeAgent
