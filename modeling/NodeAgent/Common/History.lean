import Mathlib.Data.List.Basic
import Mathlib.Data.List.Induction
/-!
# Histories

A history is a list, its last entry the latest. `Since` is the past-time
operator of temporal logic: something opened, and nothing closed after it;
`latest` is the last entry of a kind. Both are read one entry at a time, as
a machine that appends to its history reads it. `lastWrite` is what a place
holds that some entries write: the last write counts.
-/

namespace History

variable {α : Type}

/-- **An entry that opens, and none after it that closes.** -/
def Since (opens closes : α → Prop) (l : List α) : Prop :=
  ∃ pre x post, l = pre ++ x :: post ∧ opens x ∧ ∀ y ∈ post, ¬ closes y

variable {opens closes : α → Prop} {l : List α} {x : α}

@[simp] theorem not_since_nil : ¬ Since opens closes [] := by
  rintro ⟨pre, x, post, h, -⟩
  simp at h

theorem concat_eq_append_cons {pre post : List α} {y : α} (h : l ++ [x] = pre ++ y :: post) :
    pre = l ∧ y = x ∧ post = [] ∨ ∃ post', post = post' ++ [x] ∧ l = pre ++ y :: post' := by
  rcases List.eq_nil_or_concat post with rfl | ⟨post', z, rfl⟩
  · obtain ⟨hl, hxy⟩ := List.append_inj' h rfl
    exact Or.inl ⟨hl.symm, (List.singleton_inj.1 hxy).symm, rfl⟩
  · have hsplit : l ++ [x] = (pre ++ y :: post') ++ [z] := by simpa using h
    obtain ⟨hl, hxz⟩ := List.append_inj' hsplit rfl
    rw [List.singleton_inj.1 hxz]
    exact Or.inr ⟨post', by simp, hl⟩

/-- **One entry more**: it opens, or it does not close what was open. -/
theorem since_concat :
    Since opens closes (l ++ [x]) ↔ opens x ∨ Since opens closes l ∧ ¬ closes x := by
  constructor
  · rintro ⟨pre, y, post, heq, hy, hpost⟩
    rcases concat_eq_append_cons heq with ⟨-, rfl, -⟩ | ⟨post', rfl, hl⟩
    · exact Or.inl hy
    · refine Or.inr ⟨⟨pre, y, post', hl, hy, fun w hw => hpost w (by simp [hw])⟩, ?_⟩
      exact hpost x (by simp)
  · rintro (hx | ⟨⟨pre, y, post, rfl, hy, hpost⟩, hx⟩)
    · exact ⟨l, x, [], rfl, hx, by simp⟩
    · refine ⟨pre, y, post ++ [x], by simp, hy, fun w hw => ?_⟩
      rcases List.mem_append.1 hw with hw | hw
      · exact hpost w hw
      · rw [List.mem_singleton.1 hw]
        exact hx

/-- **One entry comes before another.** -/
def Before (a b : α) (l : List α) : Prop :=
  [a, b].Sublist l

theorem before_concat {a b : α} : Before a b (l ++ [x]) ↔ Before a b l ∨ a ∈ l ∧ b = x := by
  unfold Before
  rw [List.sublist_append_iff]
  constructor
  · rintro ⟨l₁, l₂, heq, h₁, h₂⟩
    rcases l₂ with _ | ⟨y, l₂⟩
    · rw [List.append_nil] at heq
      exact Or.inl (heq ▸ h₁)
    · -- the later of the two is the new entry
      have hlen := congrArg List.length heq
      have hlen₂ := h₂.length_le
      simp only [List.length_append, List.length_cons, List.length_nil] at hlen hlen₂
      obtain rfl : l₂ = [] := List.eq_nil_of_length_eq_zero (by omega)
      obtain ⟨rfl, hb⟩ := List.append_inj' (show [a] ++ [b] = l₁ ++ [y] from heq) rfl
      have hy : y = x := by simpa using h₂
      rw [List.singleton_inj.1 hb]
      exact Or.inr ⟨List.singleton_sublist.1 h₁, hy⟩
  · rintro (h | ⟨ha, rfl⟩)
    · exact ⟨[a, b], [], rfl, h, List.nil_sublist _⟩
    · exact ⟨[a], [b], rfl, List.singleton_sublist.2 ha, List.Sublist.refl _⟩

theorem Since.exists_mem (h : Since opens closes l) : ∃ y ∈ l, opens y := by
  obtain ⟨pre, y, post, rfl, hy, -⟩ := h
  exact ⟨y, by simp, hy⟩

/-- The last entry with a property. -/
def latest (p : α → Bool) (l : List α) : Option α :=
  l.reverse.find? p

variable {p : α → Bool}

/-- **One entry more**: it is the latest of its kind. -/
theorem latest_concat (l : List α) (x : α) :
    latest p (l ++ [x]) = if p x then some x else latest p l := by
  unfold latest
  rw [List.reverse_append, List.reverse_singleton, List.singleton_append, List.find?_cons]
  cases p x <;> rfl

theorem latest_eq_none_iff : latest p l = none ↔ ∀ y ∈ l, ¬ p y := by
  unfold latest
  rw [List.find?_eq_none]
  simp only [List.mem_reverse]

theorem mem_of_latest (h : latest p l = some x) : x ∈ l ∧ p x = true :=
  ⟨List.mem_reverse.1 (List.mem_of_find?_eq_some h), List.find?_some h⟩

theorem latest_map {β : Type} (f : β → α) (l : List β) :
    latest p (l.map f) = (latest (p ∘ f) l).map f := by
  unfold latest
  rw [← List.map_reverse, List.find?_map]

theorem latest_of_imp {q : α → Bool} (h : latest q l = some x) (hp : p x = true)
    (himp : ∀ y, p y = true → q y = true) : latest p l = some x := by
  induction l using List.reverseRecOn with
  | nil => cases h
  | append_singleton l y ih =>
    rw [latest_concat] at h ⊢
    by_cases hq : q y = true
    · rw [if_pos hq] at h
      obtain rfl := Option.some.inj h
      rw [if_pos hp]
    · rw [if_neg hq] at h
      rw [if_neg fun hy => hq (himp y hy), ih h]

/-! ## The last write -/

section LastWrite

variable {β : Type} {f : α → Option β}

/-- What the entries that write a place leave there, if any does. -/
def lastWrite (f : α → Option β) (l : List α) : Option β :=
  l.foldl (fun w x => (f x).or w) none

theorem foldl_or (f : α → Option β) (l : List α) (w : Option β) :
    l.foldl (fun w x => (f x).or w) w = (lastWrite f l).or w := by
  unfold lastWrite
  induction l generalizing w with
  | nil => rfl
  | cons x l ih => rw [List.foldl_cons, List.foldl_cons, ih, ih ((f x).or none), Option.or_none,
      Option.or_assoc]

theorem lastWrite_cons (x : α) (l : List α) : lastWrite f (x :: l) = (lastWrite f l).or (f x) := by
  rw [lastWrite, List.foldl_cons, foldl_or, Option.or_none]

/-- **A write in the middle counts unless there is a later one.** -/
theorem lastWrite_append_cons (a : List α) (x : α) (b : List α) :
    lastWrite f (a ++ x :: b) = (lastWrite f b).or ((f x).or (lastWrite f a)) := by
  rw [lastWrite, List.foldl_append, List.foldl_cons, foldl_or]
  rfl

/-- **If it matters which of two entries stands in the middle**, and both
write or neither does, then it is they that are read. -/
theorem lastWrite_of_ne {a b : List α} {x y : α} (hxy : (f x).isSome = (f y).isSome)
    (hne : lastWrite f (a ++ x :: b) ≠ lastWrite f (a ++ y :: b)) :
    lastWrite f (a ++ x :: b) = f x ∧ lastWrite f (a ++ y :: b) = f y := by
  rw [lastWrite_append_cons, lastWrite_append_cons] at hne ⊢
  cases hb : lastWrite f b with
  | some z => exact absurd rfl (hb ▸ hne)
  | none =>
    cases hx : f x with
    | none =>
      have hy : f y = none := by simpa [hx] using hxy.symm
      exact absurd rfl (hb ▸ hx ▸ hy ▸ hne)
    | some u =>
      obtain ⟨v, hv⟩ := Option.isSome_iff_exists.1 (hxy ▸ hx ▸ rfl : (f y).isSome = true)
      rw [hv]
      exact ⟨rfl, rfl⟩

end LastWrite

end History
