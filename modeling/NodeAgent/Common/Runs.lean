import Mathlib.Logic.Relation
/-!
# Runs of a deterministic machine

A machine is a step function from a state and a label to a state; what the
surroundings decide (failures, orders, inputs) is in the label. `Path` is
a run every step of which meets a condition on the state before it and its
label, and `Path.invariant` the rule every safety result here is proved
by.
-/

namespace Runs

variable {S L : Type}

/-- **A run from `s`, each step of which is allowed by `ok`.** -/
inductive Path (step : S → L → S) (ok : S → L → Prop) (s : S) : S → Prop
  /-- The run of no steps. -/
  | refl : Path step ok s s
  /-- One allowed step more. -/
  | snoc {t : S} (l : L) : Path step ok s t → ok t l → Path step ok s (step t l)

variable {step : S → L → S} {ok ok' : S → L → Prop} {s t : S}

/-- **What holds at the start and is kept by every allowed step holds
throughout.** -/
theorem Path.invariant {I : S → Prop} (hstep : ∀ t l, I t → ok t l → I (step t l))
    (h : Path step ok s t) (hs : I s) : I t := by
  induction h with
  | refl => exact hs
  | snoc l _ hl ih => exact hstep _ l ih hl

theorem Path.mono (himp : ∀ t l, ok t l → ok' t l) (h : Path step ok s t) :
    Path step ok' s t := by
  induction h with
  | refl => exact Path.refl
  | snoc l _ hl ih => exact Path.snoc l ih (himp _ l hl)

theorem Path.of_foldl (ls : List L) (hls : ∀ t, ∀ l ∈ ls, ok t l) :
    Path step ok s (ls.foldl step s) :=
  List.foldlRecOn ls step Path.refl fun t h l hl => h.snoc l (hls t l hl)

/-- Every step of a list is allowed where it is taken. -/
def Allowed (step : S → L → S) (ok : S → L → Prop) : List L → S → Prop
  | [], _ => True
  | l :: ls, s => ok s l ∧ Allowed step ok ls (step s l)

instance decidableAllowed (step : S → L → S) (ok : S → L → Prop) [∀ s l, Decidable (ok s l)] :
    (ls : List L) → (s : S) → Decidable (Allowed step ok ls s)
  | [], _ => inferInstanceAs (Decidable True)
  | l :: ls, s =>
    have := decidableAllowed step ok ls (step s l)
    inferInstanceAs (Decidable (ok s l ∧ Allowed step ok ls (step s l)))

theorem Allowed.and_forall {P : L → Prop} {ls : List L} (h : Allowed step ok ls s)
    (hP : ∀ l ∈ ls, P l) : Allowed step (fun s l => ok s l ∧ P l) ls s := by
  induction ls generalizing s with
  | nil => exact h
  | cons l ls ih =>
    exact ⟨⟨h.1, hP l (List.mem_cons_self ..)⟩,
      ih h.2 fun l' hl' => hP l' (List.mem_cons_of_mem _ hl')⟩

theorem Path.append {ls : List L} (h : Path step ok s t) (hls : Allowed step ok ls t) :
    Path step ok s (ls.foldl step t) := by
  induction ls generalizing t with
  | nil => exact h
  | cons l ls ih => exact ih (h.snoc l hls.1) hls.2

/-- **A run is a run of another machine**, seen through `f`, if every
allowed step is an allowed step there or cannot be seen. A step may use an
invariant `I` of the one machine, and the run of the other so far. -/
theorem Path.simulate {S' L' : Type} {step' : S' → L' → S'} {ok' : S' → L' → Prop}
    {I : S → Prop} (f : S → S')
    (hsim : ∀ t l, I t → Path step' ok' (f s) (f t) → ok t l →
      I (step t l) ∧ (f (step t l) = f t ∨ ∃ l', ok' (f t) l' ∧ f (step t l) = step' (f t) l'))
    (h : Path step ok s t) (hs : I s) : I t ∧ Path step' ok' (f s) (f t) := by
  induction h with
  | refl => exact ⟨hs, Path.refl⟩
  | snoc l _ hl ih =>
    obtain ⟨hI, hpath⟩ := ih
    obtain ⟨hI', heq | ⟨l', hl', heq⟩⟩ := hsim _ l hI hpath hl
    · exact ⟨hI', by rw [heq]; exact hpath⟩
    · exact ⟨hI', by rw [heq]; exact Path.snoc l' hpath hl'⟩

end Runs
