import Mathlib.Data.List.Chain
import Mathlib.Data.List.Range
/-!
# Loops over slices

A loop that gives an error back at the first element it cannot do is a
`mapM`; `mapM_eq_some_iff` and `mapM_eq_none_iff` say when it completes.

A loop that takes elements out of the slice it ranges over is another
matter. The Go loop

    for i, x := range s { if p(x) { s = append(s[:i], s[i+1:]...) } }

runs over the length `s` had at its start, while every removal shifts the
array under it by one. So the element after a removed one is never looked
at, and the last steps of the loop look at copies of the last element that
the shifts have left behind; if that one satisfies `p`, the slice
expression `s[i+1:]` is out of range.

`removeAll_eq` says so: the loop fails on the lists that `Overruns` holds
of, and makes `skipRemove` of the others. What is left has no element that
satisfies `p` exactly if no two next to each other did.
-/

namespace Ranging

section Errors

variable {α β : Type} {f : α → Option β} {l : List α} {l' : List β}

theorem mapM_eq_some_iff : l.mapM f = some l' ↔ l.map f = l'.map some := by
  induction l generalizing l' with
  | nil => cases l' <;> simp
  | cons a l ih =>
    rw [List.mapM_cons, List.map_cons]
    constructor
    · intro h
      obtain ⟨b, hb, hrest⟩ := Option.bind_eq_some_iff.1 h
      obtain ⟨bs, hbs, hl'⟩ := Option.bind_eq_some_iff.1 hrest
      obtain rfl := Option.some.inj hl'
      rw [List.map_cons, hb, ih.1 hbs]
    · intro h
      cases l' with
      | nil => cases h
      | cons b bs =>
        obtain ⟨hb, hbs⟩ := List.cons.inj h
        rw [hb, ih.2 hbs]
        rfl

theorem mapM_eq_none_iff : l.mapM f = none ↔ ∃ a ∈ l, f a = none := by
  induction l with
  | nil => simp
  | cons a l ih =>
    rw [List.mapM_cons, List.exists_mem_cons_iff]
    cases ha : f a with
    | none => simp
    | some b => cases hl : l.mapM f <;> simp [hl, ← ih]

end Errors

variable {α : Type} (p : α → Bool)

/-- The rest of the loop, on the backing array `arr` of which the first `len`
elements are still in the slice; `none` is an index out of range. -/
def removeLoop (arr : List α) (len : ℕ) : List ℕ → Option (List α)
  | [] => some (arr.take len)
  | k :: ks =>
    match arr[k]? with
    | none => none
    | some x =>
      if p x then
        if len < k + 1 then none
        else
          removeLoop (arr.take k ++ (arr.take len).drop (k + 1) ++ arr.drop (len - 1))
            (len - 1) ks
      else removeLoop arr len ks

/-- The loop. -/
def removeAll (l : List α) : Option (List α) :=
  removeLoop p l l.length (List.range l.length)

/-- What the loop takes out: each element that satisfies `p`, unless the
one before it was taken out. -/
def skipRemove : List α → List α
  | [] => []
  | [a] => if p a then [] else [a]
  | a :: b :: l => if p a then b :: skipRemove l else a :: skipRemove (b :: l)

/-- The last element satisfies `p`, and is not the only one. -/
def Overruns (l : List α) : Prop :=
  (∃ z, l.getLast? = some z ∧ p z) ∧ 2 ≤ l.countP p

/-- No two elements next to each other satisfy `p`. -/
def Scattered (l : List α) : Prop :=
  l.IsChain fun a b => ¬ (p a ∧ p b)

variable {p} {a b z : α} {l : List α}

theorem skipRemove_cons_cons (ha : p a) : skipRemove p (a :: b :: l) = b :: skipRemove p l := by
  rw [skipRemove, if_pos ha]

theorem skipRemove_of_neg (ha : ¬ p a) : skipRemove p (a :: l) = a :: skipRemove p l := by
  cases l with
  | nil => simp [skipRemove, ha]
  | cons b l => simp [skipRemove, ha]

/-! ## The loop -/

theorem removeLoop_stale {done : List α} {r k : ℕ} (hz : ¬ p z) (hk : done.length ≤ k) (m : ℕ)
    (hm : k + m ≤ done.length + r) :
    removeLoop p (done ++ List.replicate r z) done.length (List.range' k m) = some done := by
  induction m generalizing k with
  | zero => simp [removeLoop]
  | succ m ih =>
    have hget : (done ++ List.replicate r z)[k]? = some z := by
      rw [List.getElem?_append_right hk, List.getElem?_replicate, if_pos (by omega)]
    rw [List.range'_succ, removeLoop, hget]
    simp only [if_neg hz]
    exact ih (by omega) (by omega)

theorem shift_eq {done rest : List α} {r : ℕ} (hlast : (a :: rest).getLast? = some z) :
    let arr := done ++ (a :: rest) ++ List.replicate r z
    let len := done.length + (a :: rest).length
    arr.take done.length ++ (arr.take len).drop (done.length + 1) ++ arr.drop (len - 1) =
      done ++ rest ++ List.replicate (r + 1) z := by
  intro arr len
  have hinit : a :: rest = (a :: rest).dropLast ++ [z] :=
    (List.dropLast_append_getLast? z hlast).symm
  have htake : arr.take len = done ++ (a :: rest) :=
    List.take_left' (by simp [len])
  have hdrop : arr.drop (len - 1) = z :: List.replicate r z := by
    have harr : arr = (done ++ (a :: rest).dropLast) ++ (z :: List.replicate r z) := by
      simp only [arr]
      rw [hinit]
      simp
    have hlen : len - 1 = (done ++ (a :: rest).dropLast).length := by
      simp [len]
    rw [harr, hlen, List.drop_left]
  have hfront : arr.take done.length = done := by
    simp [arr]
  rw [htake, hdrop, hfront, List.replicate_succ]
  simp [List.drop_append]

/-- The loop once `done` has been gone through and `rest` has not, and `r`
removals have left `r` copies of the last element `z`. -/
def loopAt (p : α → Bool) (z : α) (done rest : List α) (r : ℕ) : Option (List α) :=
  removeLoop p (done ++ rest ++ List.replicate r z) (done.length + rest.length)
    (List.range' done.length (rest.length + r))

theorem loopAt_nil (done : List α) (r : ℕ) :
    loopAt p z done [] r = if p z ∧ 0 < r then none else some done := by
  rw [loopAt, List.append_nil, List.length_nil, Nat.add_zero, Nat.zero_add]
  split_ifs with h
  · obtain ⟨r, rfl⟩ := Nat.exists_eq_add_one.2 h.2
    rw [List.range'_succ, removeLoop, List.getElem?_append_right le_rfl]
    simp [List.replicate_succ, h.1]
  · by_cases hz : p z
    · obtain rfl : r = 0 := by
        by_contra hr
        exact h ⟨hz, Nat.pos_of_ne_zero hr⟩
      simp [removeLoop]
    · exact removeLoop_stale hz le_rfl r le_rfl

theorem loopAt_keep (ha : ¬ p a) (done rest : List α) (r : ℕ) :
    loopAt p z done (a :: rest) r = loopAt p z (done ++ [a]) rest r := by
  have hsteps : List.range' done.length ((a :: rest).length + r) =
      done.length :: List.range' (done.length + 1) (rest.length + r) := by
    rw [List.length_cons, Nat.add_right_comm, List.range'_succ]
  have hget : (done ++ a :: rest ++ List.replicate r z)[done.length]? = some a := by
    simp
  have harr : done ++ a :: rest ++ List.replicate r z =
      done ++ [a] ++ rest ++ List.replicate r z := by
    simp
  have hlen : done.length + (a :: rest).length = (done ++ [a]).length + rest.length := by
    simp only [List.length_append, List.length_cons, List.length_nil]
    omega
  rw [loopAt, hsteps, removeLoop, hget]
  simp only [if_neg ha]
  rw [harr, hlen, loopAt, List.length_append, List.length_singleton]

theorem loopAt_remove (ha : p a) {rest : List α} (hlast : (a :: rest).getLast? = some z)
    (done : List α) (r : ℕ) :
    loopAt p z done (a :: rest) r =
      removeLoop p (done ++ rest ++ List.replicate (r + 1) z) (done.length + rest.length)
        (List.range' (done.length + 1) (rest.length + r)) := by
  have hsteps : List.range' done.length ((a :: rest).length + r) =
      done.length :: List.range' (done.length + 1) (rest.length + r) := by
    rw [List.length_cons, Nat.add_right_comm, List.range'_succ]
  have hget : (done ++ a :: rest ++ List.replicate r z)[done.length]? = some a := by
    simp
  have hin : ¬ done.length + (a :: rest).length < done.length + 1 := by
    rw [List.length_cons]
    omega
  rw [loopAt, hsteps, removeLoop, hget]
  simp only [if_pos ha, if_neg hin]
  rw [shift_eq hlast]
  rfl

theorem loopAt_skip (ha : p a) {rest : List α} (hlast : (a :: b :: rest).getLast? = some z)
    (done : List α) (r : ℕ) :
    loopAt p z done (a :: b :: rest) r = loopAt p z (done ++ [b]) rest (r + 1) := by
  have hlen : done.length + (b :: rest).length = (done ++ [b]).length + rest.length := by
    simp only [List.length_append, List.length_cons, List.length_nil]
    omega
  have hsteps : (b :: rest).length + r = rest.length + (r + 1) := by
    rw [List.length_cons]
    omega
  rw [loopAt_remove ha hlast, loopAt, hlen, hsteps, List.length_append, List.length_singleton]
  simp

theorem loopAt_last (hz : p z) (done : List α) (r : ℕ) :
    loopAt p z done [z] r = if 0 < r then none else some done := by
  rw [loopAt_remove hz List.getLast?_singleton, List.append_nil, List.length_nil, Nat.zero_add]
  split_ifs with h
  · obtain ⟨r, rfl⟩ := Nat.exists_eq_add_one.2 h
    have hget : (done ++ List.replicate (r + 1 + 1) z)[done.length + 1]? = some z := by
      rw [List.getElem?_append_right (by omega), List.getElem?_replicate, if_pos (by omega)]
    have hout : done.length + 0 < done.length + 1 + 1 := by omega
    rw [List.range'_succ, removeLoop, hget]
    simp only [if_pos hz, if_pos hout]
  · obtain rfl : r = 0 := by omega
    simp [removeLoop]

/-- **What the loop does from any point on.** -/
theorem loopAt_eq (done rest : List α) (r : ℕ) (hlast : rest = [] ∨ rest.getLast? = some z) :
    loopAt p z done rest r =
      if p z ∧ (0 < r ∨ 2 ≤ rest.countP p) then none else some (done ++ skipRemove p rest) := by
  induction rest using skipRemove.induct (p := p) generalizing done r with
  | case1 => simp [loopAt_nil, skipRemove]
  | case2 a ha =>
    obtain rfl : a = z := by simpa using hlast
    simp [loopAt_last ha, skipRemove, ha]
  | case3 a ha =>
    obtain rfl : a = z := by simpa using hlast
    simp [loopAt_keep ha, loopAt_nil, skipRemove, ha]
  | case4 a b rest ha ih =>
    -- the first removal of the loop or a later one: whether the loop overruns is now only a
    -- matter of the last element, which is still to come
    have hlast' : (a :: b :: rest).getLast? = some z := by simpa using hlast
    have hz : z ∈ b :: rest := List.mem_of_getLast? (by simpa using hlast')
    have hcount : p z → 2 ≤ (a :: b :: rest).countP p := by
      intro hpz
      have hpos : 0 < (b :: rest).countP p := List.countP_pos_iff.2 ⟨z, hz, hpz⟩
      rw [List.countP_cons_of_pos ha]
      omega
    have hrest : rest = [] ∨ rest.getLast? = some z := by
      cases rest with
      | nil => exact Or.inl rfl
      | cons c rest => exact Or.inr (by simpa using hlast')
    rw [loopAt_skip ha hlast', ih (done ++ [b]) (r + 1) hrest, skipRemove_cons_cons ha]
    by_cases hpz : p z
    · rw [if_pos ⟨hpz, Or.inl (Nat.succ_pos r)⟩, if_pos ⟨hpz, Or.inr (hcount hpz)⟩]
    · rw [if_neg fun h => hpz h.1, if_neg fun h => hpz h.1, List.append_assoc]
      rfl
  | case5 a b rest ha ih =>
    have hrest : b :: rest = [] ∨ (b :: rest).getLast? = some z := Or.inr (by simpa using hlast)
    rw [loopAt_keep ha, ih (done ++ [a]) r hrest, skipRemove_of_neg ha,
      List.countP_cons_of_neg ha, List.append_assoc]
    rfl

instance decidableOverruns (l : List α) : Decidable (Overruns p l) :=
  decidable_of_iff ((l.getLast?.any p) = true ∧ 2 ≤ l.countP p) (by
    cases h : l.getLast? <;> simp [Overruns, h])

/-- **What the loop does.** -/
theorem removeAll_eq (p : α → Bool) (l : List α) :
    removeAll p l = if Overruns p l then none else some (skipRemove p l) := by
  cases hl : l.getLast? with
  | none =>
    obtain rfl : l = [] := List.getLast?_eq_none_iff.1 hl
    simp [removeAll, removeLoop, Overruns, skipRemove]
  | some z =>
    have hloop : removeAll p l = loopAt p z [] l 0 := by
      simp [removeAll, loopAt, List.range_eq_range']
    have hover : Overruns p l ↔ p z ∧ (0 < 0 ∨ 2 ≤ l.countP p) := by
      simp [Overruns, hl]
    rw [hloop, loopAt_eq [] l 0 (Or.inr hl)]
    simp only [hover, List.nil_append]

example : removeAll (· == 0) [1, 0, 0, 0, 2] = some [1, 0, 2] := by decide

example : removeAll (· == 0) [0, 1, 0] = none := by decide

theorem overruns_map {β : Type} (f : β → α) (l : List β) :
    Overruns p (l.map f) ↔ Overruns (fun b => p (f b)) l := by
  have hcount : (l.map f).countP p = l.countP fun b => p (f b) := List.countP_map
  rw [Overruns, Overruns, List.getLast?_map, hcount]
  simp

/-! ## What is left -/

theorem skipRemove_sublist (p : α → Bool) (l : List α) : (skipRemove p l).Sublist l := by
  induction l using skipRemove.induct (p := p) with
  | case1 => exact List.Sublist.refl _
  | case2 a ha => simp [skipRemove, ha]
  | case3 a ha => simp [skipRemove, ha]
  | case4 a b l ha ih =>
    rw [skipRemove_cons_cons ha]
    exact (ih.cons_cons b).cons a
  | case5 a b l ha ih =>
    rw [skipRemove_of_neg ha]
    exact ih.cons_cons a

theorem filter_skipRemove (p : α → Bool) (l : List α) :
    (skipRemove p l).filter (fun x => !p x) = l.filter fun x => !p x := by
  induction l using skipRemove.induct (p := p) with
  | case1 => rfl
  | case2 a ha => simp [skipRemove, ha]
  | case3 a ha => simp [skipRemove, ha]
  | case4 a b l ha ih =>
    rw [skipRemove_cons_cons ha, List.filter_cons, ih]
    simp [List.filter_cons, ha]
  | case5 a b l ha ih =>
    rw [skipRemove_of_neg ha, List.filter_cons, ih]
    simp [List.filter_cons, ha]

theorem scattered_cons_of_neg (ha : ¬ p a) : Scattered p (a :: l) ↔ Scattered p l := by
  rw [Scattered, List.isChain_cons]
  simp [ha, Scattered]

theorem scattered_cons_cons_of_pos (ha : p a) : Scattered p (a :: b :: l) ↔ ¬ p b ∧ Scattered p l := by
  rw [Scattered, List.isChain_cons_cons]
  constructor
  · rintro ⟨hb, h⟩
    have hb : ¬ p b := fun hb' => hb ⟨ha, hb'⟩
    exact ⟨hb, (scattered_cons_of_neg hb).1 h⟩
  · rintro ⟨hb, h⟩
    exact ⟨fun h => hb h.2, (scattered_cons_of_neg hb).2 h⟩

theorem scattered_map {β : Type} (f : β → α) (l : List β) :
    Scattered p (l.map f) ↔ Scattered (fun b => p (f b)) l :=
  List.isChain_map f

/-- **All are taken out exactly if no two are next to each other.** -/
theorem none_left_iff (p : α → Bool) (l : List α) :
    (∀ x ∈ skipRemove p l, ¬ p x) ↔ Scattered p l := by
  induction l using skipRemove.induct (p := p) with
  | case1 => simp [skipRemove, Scattered]
  | case2 a ha => simp [skipRemove, ha, Scattered]
  | case3 a ha => simp [skipRemove, ha, Scattered]
  | case4 a b l ha ih =>
    rw [skipRemove_cons_cons ha, List.forall_mem_cons, ih, scattered_cons_cons_of_pos ha]
  | case5 a b l ha ih =>
    rw [skipRemove_of_neg ha, List.forall_mem_cons, ih, scattered_cons_of_neg ha, and_iff_right ha]

theorem skipRemove_of_scattered (h : Scattered p l) : skipRemove p l = l.filter fun x => !p x := by
  rw [← filter_skipRemove, List.filter_eq_self.2]
  intro x hx
  simpa using (none_left_iff p l).2 h x hx

theorem skipRemove_eq_self_iff : skipRemove p l = l ↔ ∀ x ∈ l, ¬ p x := by
  constructor
  · intro h
    have hleft : ∀ x ∈ skipRemove p l, ¬ p x := by
      induction l using skipRemove.induct (p := p) with
      | case1 => simp [skipRemove]
      | case2 a ha => simp [skipRemove, ha]
      | case3 a ha => simp [skipRemove, ha]
      | case4 a b l ha ih =>
        -- one element fewer is left than there was
        have hle := (skipRemove_sublist p l).length_le
        have hlen := congrArg List.length h
        rw [skipRemove_cons_cons ha, List.length_cons, List.length_cons, List.length_cons] at hlen
        omega
      | case5 a b l ha ih =>
        rw [skipRemove_of_neg ha] at h ⊢
        exact List.forall_mem_cons.2 ⟨ha, ih (List.cons.inj h).2⟩
    rwa [h] at hleft
  · intro h
    induction l with
    | nil => rfl
    | cons a l ih =>
      obtain ⟨ha, hl⟩ := List.forall_mem_cons.1 h
      rw [skipRemove_of_neg ha, ih hl]

/-! ## The loop again, with an element put in front -/

theorem getLast?_skipRemove (hl : l.getLast? = some z) (hz : ¬ p z) :
    (skipRemove p l).getLast? = some z := by
  induction l using skipRemove.induct (p := p) with
  | case1 => cases hl
  | case2 a ha =>
    obtain rfl : a = z := by simpa using hl
    exact absurd ha hz
  | case3 a ha => simpa [skipRemove, ha] using hl
  | case4 a b l ha ih =>
    rw [skipRemove_cons_cons ha]
    cases l with
    | nil => simpa [skipRemove] using hl
    | cons c l =>
      have hrest := ih (by simpa using hl)
      rw [List.getLast?_cons, hrest]
      rfl
  | case5 a b l ha ih =>
    have hrest := ih (by simpa using hl)
    rw [skipRemove_of_neg ha, List.getLast?_cons, hrest]
    rfl

theorem scattered_of_countP_le (h : l.countP p ≤ 1) : Scattered p l := by
  induction l with
  | nil => exact List.IsChain.nil
  | cons a l ih =>
    by_cases ha : p a
    · rw [List.countP_cons_of_pos ha] at h
      have hnone : ∀ x ∈ l, ¬ p x := List.countP_eq_zero.1 (by omega)
      refine List.isChain_cons.2 ⟨fun b hb => ?_, ih (by omega)⟩
      exact fun h => hnone b (List.mem_of_head? hb) h.2
    · rw [List.countP_cons_of_neg ha] at h
      exact (scattered_cons_of_neg ha).2 (ih h)

theorem not_overruns_cons (h : ¬ Overruns p l) (a : α) : ¬ Overruns p (a :: skipRemove p l) := by
  rintro ⟨⟨z, hz, hpz⟩, hcount⟩
  cases hl : l.getLast? with
  | none =>
    obtain rfl : l = [] := List.getLast?_eq_none_iff.1 hl
    have : (a :: skipRemove p []).countP p ≤ 1 := List.countP_le_length
    omega
  | some y =>
    by_cases hy : p y
    · -- the last was the only one, and is gone
      have hone : l.countP p ≤ 1 := by
        by_contra hmore
        exact h ⟨⟨y, hl, hy⟩, by omega⟩
      have hnone := (none_left_iff p l).2 (scattered_of_countP_le hone)
      have hzero : (skipRemove p l).countP p = 0 := List.countP_eq_zero.2 hnone
      rw [List.countP_cons, hzero] at hcount
      split_ifs at hcount <;> omega
    · rw [List.getLast?_cons, getLast?_skipRemove hl hy] at hz
      obtain rfl : y = z := by simpa using hz
      exact hy hpz

/-- All are taken out but for two in front, of which one is left. -/
def Settles (p : α → Bool) (l : List α) : Prop :=
  Scattered p l ∨ ∃ a b m, l = a :: b :: m ∧ p a ∧ p b ∧ Scattered p m

/-- **The loop again takes out the element in front and no other** exactly
then. -/
theorem skipRemove_cons_iff (ha : p a) :
    skipRemove p (a :: skipRemove p l) = skipRemove p l ↔ Settles p l := by
  have hagain : skipRemove p (a :: skipRemove p l) = skipRemove p l ↔
      ∀ x ∈ (skipRemove p l).tail, ¬ p x := by
    cases skipRemove p l with
    | nil => simp [skipRemove, ha]
    | cons b m =>
      rw [skipRemove_cons_cons ha, List.cons_inj_right, skipRemove_eq_self_iff]
      rfl
  rw [hagain]
  match l with
  | [] => simp [skipRemove, Settles, Scattered]
  | [b] => by_cases hb : p b <;> simp [skipRemove, hb, Settles, Scattered]
  | b :: c :: m =>
    by_cases hb : p b
    · rw [skipRemove_cons_cons hb, List.tail_cons, none_left_iff, Settles,
        scattered_cons_cons_of_pos hb]
      by_cases hc : p c
      · simp [hb, hc]
      · simp [hc]
    · rw [skipRemove_of_neg hb, List.tail_cons, none_left_iff, Settles, scattered_cons_of_neg hb]
      simp [hb]

end Ranging
