import NodeAgent.Common.Runs
import Mathlib.Data.List.Basic
/-!
# Threads over a shared state

A program of any number of threads. A step is of one thread: it reads and
writes the shared state and the thread's own, and may start other threads;
requests from outside start threads too. `Outline` is the proof rule: an
assertion about the shared state and one about each thread, such that a
step keeps the first, leaves the second true of the thread that takes it,
and does not interfere with that of any other.
-/

/-- **A program of threads.** `L` are the states of a thread, `G` those
they share; `I` are the requests, and `C` what the surroundings decide
about a step. -/
structure Threads (G L I C : Type) where
  /-- The thread a request starts. -/
  init : I → L
  /-- A step of the thread with a number: the shared state, the thread's
  own, and the threads it starts. -/
  step : ℕ → G → L → C → G × L × List L

namespace Threads

variable {G L I C : Type}

/-- The threads are numbered in the order they were started in. -/
structure State (G L : Type) where
  shared : G
  threads : List L

inductive Label (I C : Type)
  /-- A request comes in. -/
  | request (i : I)
  /-- The thread with a number takes a step. -/
  | run (k : ℕ) (c : C)

section Exec

variable (P : Threads G L I C)

/-- One step of the program. -/
def exec (s : State G L) : Label I C → State G L
  | .request i => ⟨s.shared, s.threads ++ [P.init i]⟩
  | .run k c =>
    match s.threads[k]? with
    | none => s
    | some l =>
      let r := P.step k s.shared l c
      ⟨r.1, s.threads.set k r.2.1 ++ r.2.2⟩

variable {P} {s : State G L} {k j : ℕ} {l m : L} {c : C}

theorem exec_run (h : s.threads[k]? = some l) (c : C) :
    P.exec s (.run k c) =
      ⟨(P.step k s.shared l c).1,
        s.threads.set k (P.step k s.shared l c).2.1 ++ (P.step k s.shared l c).2.2⟩ := by
  simp only [exec, h]

theorem getElem?_exec_self (h : s.threads[k]? = some l) (c : C) :
    (P.exec s (.run k c)).threads[k]? = some (P.step k s.shared l c).2.1 := by
  have hk : k < s.threads.length := (List.getElem?_eq_some_iff.1 h).1
  rw [exec_run h]
  show (s.threads.set k _ ++ _)[k]? = _
  rw [List.getElem?_append_left (by rw [List.length_set]; exact hk), List.getElem?_set_self hk]

theorem getElem?_exec_ne (h : s.threads[k]? = some l) (hj : s.threads[j]? = some m) (hne : j ≠ k)
    (c : C) : (P.exec s (.run k c)).threads[j]? = some m := by
  have hlt : j < s.threads.length := (List.getElem?_eq_some_iff.1 hj).1
  rw [exec_run h]
  show (s.threads.set k _ ++ _)[j]? = _
  rw [List.getElem?_append_left (by rw [List.length_set]; exact hlt),
    List.getElem?_set_ne (Ne.symm hne), hj]

theorem cases_exec_run (h : s.threads[k]? = some l)
    (hj : (P.exec s (.run k c)).threads[j]? = some m) :
    (j = k ∧ m = (P.step k s.shared l c).2.1) ∨ (j ≠ k ∧ s.threads[j]? = some m) ∨
      m ∈ (P.step k s.shared l c).2.2 := by
  by_cases hjk : j = k
  · rw [hjk, getElem?_exec_self h] at hj
    exact Or.inl ⟨hjk, (Option.some.inj hj).symm⟩
  · rcases Nat.lt_or_ge j s.threads.length with hlt | hge
    · have hold : s.threads[j]? = some s.threads[j] := List.getElem?_eq_getElem hlt
      rw [getElem?_exec_ne h hold hjk] at hj
      exact Or.inr (Or.inl ⟨hjk, hold.trans hj⟩)
    · rw [exec_run h] at hj
      have hnew : (s.threads.set k (P.step k s.shared l c).2.1 ++
          (P.step k s.shared l c).2.2)[j]? = some m := hj
      rw [List.getElem?_append_right (by rw [List.length_set]; exact hge)] at hnew
      exact Or.inr (Or.inr (List.mem_of_getElem? hnew))

end Exec

/-! ## Assertions about threads -/

/-- **Assertions that do not interfere.** `ok` says which steps are
considered, `Shared` is asserted of the shared state and `Own` of each
thread. -/
structure Outline (P : Threads G L I C) (ok : State G L → Label I C → Prop) (Shared : G → Prop)
    (Own : ℕ → G → L → Prop) : Prop where
  request : ∀ (s : State G L) i k, Shared s.shared → Own k s.shared (P.init i)
  shared : ∀ s k l c, s.threads[k]? = some l → ok s (.run k c) → Shared s.shared →
    Own k s.shared l → Shared (P.step k s.shared l c).1
  own : ∀ s k l c, s.threads[k]? = some l → ok s (.run k c) → Shared s.shared →
    Own k s.shared l → Own k (P.step k s.shared l c).1 (P.step k s.shared l c).2.1
  started : ∀ s k l c, s.threads[k]? = some l → ok s (.run k c) → Shared s.shared →
    Own k s.shared l → ∀ m ∈ (P.step k s.shared l c).2.2, ∀ j,
      Own j (P.step k s.shared l c).1 m
  others : ∀ s k l c j m, s.threads[k]? = some l → ok s (.run k c) → Shared s.shared →
    Own k s.shared l → s.threads[j]? = some m → j ≠ k → Own j s.shared m →
      Own j (P.step k s.shared l c).1 m

/-- The assertions hold. -/
structure Holds (Shared : G → Prop) (Own : ℕ → G → L → Prop) (s : State G L) : Prop where
  shared : Shared s.shared
  own : ∀ k l, s.threads[k]? = some l → Own k s.shared l

namespace Outline

variable {P : Threads G L I C} {ok : State G L → Label I C → Prop} {Shared : G → Prop}
variable {Own : ℕ → G → L → Prop} {s t : State G L}

/-- **A step keeps them.** -/
theorem exec (h : P.Outline ok Shared Own) {e : Label I C} (hs : Holds Shared Own s)
    (he : ok s e) : Holds Shared Own (P.exec s e) := by
  cases e with
  | request i =>
    refine ⟨hs.shared, fun k l hl => ?_⟩
    have hl' : (s.threads ++ [P.init i])[k]? = some l := hl
    rcases Nat.lt_or_ge k s.threads.length with hlt | hge
    · rw [List.getElem?_append_left hlt] at hl'
      exact hs.own k l hl'
    · rw [List.getElem?_append_right hge] at hl'
      rw [List.mem_singleton.1 (List.mem_of_getElem? hl')]
      exact h.request s i k hs.shared
  | run k c =>
    cases hk : s.threads[k]? with
    | none =>
      have hsame : P.exec s (.run k c) = s := by simp only [Threads.exec, hk]
      rw [hsame]
      exact hs
    | some l =>
      have hown := hs.own k l hk
      refine ⟨?_, fun j m hj => ?_⟩
      · rw [exec_run hk]
        exact h.shared s k l c hk he hs.shared hown
      · have hshared : (P.exec s (.run k c)).shared = (P.step k s.shared l c).1 := by
          rw [exec_run hk]
        rw [hshared]
        rcases cases_exec_run hk hj with ⟨rfl, rfl⟩ | ⟨hne, hm⟩ | hm
        · exact h.own s j l c hk he hs.shared hown
        · exact h.others s k l c j m hk he hs.shared hown hm hne (hs.own j m hm)
        · exact h.started s k l c hk he hs.shared hown m hm j

/-- **And so does a run.** -/
theorem path (h : P.Outline ok Shared Own) (hpath : Runs.Path P.exec ok s t)
    (hs : Holds Shared Own s) : Holds Shared Own t :=
  hpath.invariant (fun _ _ ht he => h.exec ht he) hs

theorem path_holds (h : P.Outline ok Shared Own) (hpath : Runs.Path P.exec ok s t)
    (hs : Holds Shared Own s) :
    Runs.Path P.exec (fun s e => ok s e ∧ Holds Shared Own s) s t := by
  induction hpath with
  | refl => exact .refl
  | snoc e hpath he ih => exact .snoc e ih ⟨he, h.path hpath hs⟩

end Outline

end Threads
