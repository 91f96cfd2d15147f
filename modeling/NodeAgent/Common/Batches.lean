import NodeAgent.Common.History
import Mathlib.Logic.Function.Basic
import Mathlib.Data.List.Nodup
/-!
# Batches of writes

A batch is a list of items, each of which sets a key of a partial function
or strikes it out. Taken in order, the last item of a key decides. A
program may group the batch instead, and make all its writes before its
strikes or after them. The three agree where no key is both written and
struck out, and the two groupings agree only there.
-/

namespace Batch

variable {ι K V W : Type}

/-- **A key a batch only writes, or only strikes out.** -/
def Unmixed (key : ι → K) (val : ι → Option V) (l : List ι) (k : K) : Prop :=
  ∀ x ∈ l, ∀ y ∈ l, key x = k → key y = k → (val x).isSome = (val y).isSome

section Unmixed

variable {key : ι → K} {val : ι → Option V} {l : List ι} {k : K}

theorem Unmixed.init {x : ι} (h : Unmixed key val (l ++ [x]) k) : Unmixed key val l k :=
  fun y hy z hz => h y (List.mem_append_left _ hy) z (List.mem_append_left _ hz)

theorem unmixed_of_nodup (h : (l.map key).Nodup) (k : K) : Unmixed key val l k := by
  intro x hx y hy hxk hyk
  rw [List.inj_on_of_nodup_map h hx hy (hxk.trans hyk.symm)]

end Unmixed

variable [DecidableEq K]

section Definitions

variable (key : ι → K) (val : ι → Option V)

/-- The last value a batch writes to a key. -/
def written (l : List ι) (k : K) : Option V :=
  History.lastWrite (fun x => if key x = k then val x else none) l

/-- A batch strikes a key out. -/
def struck (l : List ι) (k : K) : Bool :=
  l.any fun x => decide (key x = k) && (val x).isNone

/-- **A batch taken in order.** -/
def inOrder (m : K → Option V) (l : List ι) : K → Option V :=
  l.foldl (fun m x => Function.update m (key x) (val x)) m

/-- Its writes before its strikes. -/
def writesFirst (m : K → Option V) (l : List ι) (k : K) : Option V :=
  if struck key val l k then none else (written key val l k).or (m k)

/-- Its strikes before its writes. -/
def strikesFirst (m : K → Option V) (l : List ι) (k : K) : Option V :=
  (written key val l k).or (if struck key val l k then none else m k)

end Definitions

variable {key : ι → K} {val : ι → Option V} {l l' : List ι} {m : K → Option V} {k : K} {x : ι}

/-! ## One item more -/

theorem written_concat (l : List ι) (x : ι) :
    written key val (l ++ [x]) k =
      if key x = k then (val x).or (written key val l k) else written key val l k := by
  unfold written
  rw [History.lastWrite_append_cons]
  show Option.or none _ = _
  rw [Option.none_or]
  split_ifs
  · rfl
  · rw [Option.none_or]

theorem struck_concat (l : List ι) (x : ι) :
    struck key val (l ++ [x]) k =
      (struck key val l k || (decide (key x = k) && (val x).isNone)) := by
  unfold struck
  rw [List.any_append, List.any_cons, List.any_nil, Bool.or_false]

theorem inOrder_concat (m : K → Option V) (l : List ι) (x : ι) :
    inOrder key val m (l ++ [x]) k = if k = key x then val x else inOrder key val m l k := by
  unfold inOrder
  rw [List.foldl_append, List.foldl_cons, List.foldl_nil, Function.update_apply]

/-! ## What a batch leaves -/

theorem struck_iff : struck key val l k = true ↔ ∃ x ∈ l, key x = k ∧ val x = none := by
  simp [struck]

theorem written_eq_none_iff : written key val l k = none ↔ ∀ x ∈ l, key x = k → val x = none := by
  induction l using List.reverseRecOn with
  | nil => simp [written, History.lastWrite]
  | append_singleton l x ih =>
    rw [written_concat]
    by_cases hx : key x = k
    · rw [if_pos hx, Option.or_eq_none_iff, ih]
      constructor
      · rintro ⟨hval, hl⟩ y hy hyk
        rcases List.mem_append.1 hy with hy | hy
        · exact hl y hy hyk
        · rw [List.mem_singleton.1 hy]
          exact hval
      · intro h
        exact ⟨h x (by simp) hx, fun y hy => h y (List.mem_append_left _ hy)⟩
    · rw [if_neg hx, ih]
      constructor
      · intro hl y hy hyk
        rcases List.mem_append.1 hy with hy | hy
        · exact hl y hy hyk
        · exact absurd (List.mem_singleton.1 hy ▸ hyk) hx
      · exact fun h y hy => h y (List.mem_append_left _ hy)

theorem mem_of_written {v : V} (h : written key val l k = some v) :
    ∃ x ∈ l, key x = k ∧ val x = some v := by
  induction l using List.reverseRecOn with
  | nil => cases h
  | append_singleton l x ih =>
    have hinit : written key val l k = some v →
        ∃ y ∈ l ++ [x], key y = k ∧ val y = some v := by
      intro hl
      obtain ⟨y, hy, hyk⟩ := ih hl
      exact ⟨y, List.mem_append_left _ hy, hyk⟩
    rw [written_concat] at h
    split_ifs at h with hx
    · rcases Option.or_eq_some_iff.1 h with hval | ⟨-, hl⟩
      · exact ⟨x, by simp, hx, hval⟩
      · exact hinit hl
    · exact hinit h

theorem mem_of_writesFirst {v : V} (h : writesFirst key val m l k = some v) :
    (∃ x ∈ l, key x = k ∧ val x = some v) ∨ m k = some v := by
  unfold writesFirst at h
  split_ifs at h
  rcases Option.or_eq_some_iff.1 h with hw | ⟨-, hm⟩
  · exact Or.inl (mem_of_written hw)
  · exact Or.inr hm

theorem Unmixed.written_eq_none (h : Unmixed key val l k) (hstruck : struck key val l k = true) :
    written key val l k = none := by
  obtain ⟨x, hx, hxk, hval⟩ := struck_iff.1 hstruck
  refine written_eq_none_iff.2 fun y hy hyk => ?_
  have hsame := h x hx y hy hxk hyk
  rw [hval] at hsame
  rw [← Option.not_isSome_iff_eq_none, ← hsame]
  exact Bool.false_ne_true

/-- **The two groupings agree where a key is only written or only struck
out.** -/
theorem Unmixed.writesFirst_eq (h : Unmixed key val l k) :
    writesFirst key val m l k = strikesFirst key val m l k := by
  unfold writesFirst strikesFirst
  by_cases hstruck : struck key val l k = true
  · rw [if_pos hstruck, if_pos hstruck, h.written_eq_none hstruck]
    rfl
  · rw [if_neg hstruck, if_neg hstruck]

/-- **There the batch taken in order leaves the same.** -/
theorem Unmixed.inOrder_eq (h : Unmixed key val l k) :
    inOrder key val m l k = strikesFirst key val m l k := by
  induction l using List.reverseRecOn with
  | nil => rfl
  | append_singleton l x ih =>
    rw [inOrder_concat]
    by_cases hx : key x = k
    · rw [if_pos hx.symm, strikesFirst]
      cases hval : val x with
      | some v =>
        rw [written_concat, if_pos hx, hval]
        rfl
      | none =>
        have hstruck : struck key val (l ++ [x]) k = true :=
          struck_iff.2 ⟨x, by simp, hx, hval⟩
        rw [h.written_eq_none hstruck, if_pos hstruck]
        rfl
    · have hne : ¬ k = key x := fun hk => hx hk.symm
      have hsame : struck key val (l ++ [x]) k = struck key val l k := by
        rw [struck_concat, decide_eq_false hx, Bool.false_and, Bool.or_false]
      rw [if_neg hne, ih h.init, strikesFirst, strikesFirst, written_concat, if_neg hx, hsame]

/-! ## Distinct keys -/

theorem inOrder_of_mem (h : (l.map key).Nodup) (hx : x ∈ l) :
    inOrder key val m l (key x) = val x := by
  induction l using List.reverseRecOn with
  | nil => cases hx
  | append_singleton l y ih =>
    rw [List.map_append, List.nodup_append] at h
    rw [inOrder_concat]
    rcases List.mem_append.1 hx with hl | hl
    · have hne : ¬ key x = key y := h.2.2 _ (List.mem_map_of_mem hl) _ (by simp)
      rw [if_neg hne, ih h.1 hl]
    · rw [List.mem_singleton.1 hl, if_pos rfl]

theorem inOrder_of_notMem (h : k ∉ l.map key) : inOrder key val m l k = m k := by
  induction l using List.reverseRecOn with
  | nil => rfl
  | append_singleton l y ih =>
    rw [List.map_append, List.mem_append, not_or] at h
    have hne : ¬ k = key y := by simpa using h.2
    rw [inOrder_concat, if_neg hne, ih h.1]

/-- **With distinct keys the order of a batch does not matter.** -/
theorem inOrder_perm (hperm : l.Perm l') (h : (l.map key).Nodup) :
    inOrder key val m l k = inOrder key val m l' k := by
  have h' : (l'.map key).Nodup := (hperm.map key).nodup_iff.1 h
  by_cases hk : k ∈ l.map key
  · obtain ⟨x, hx, rfl⟩ := List.mem_map.1 hk
    rw [inOrder_of_mem h hx, inOrder_of_mem h' (hperm.mem_iff.1 hx)]
  · have hk' : k ∉ l'.map key := fun hmem => hk ((hperm.map key).mem_iff.2 hmem)
    rw [inOrder_of_notMem hk, inOrder_of_notMem hk']

/-! ## Reading the values through a function -/

theorem written_map (f : V → W) :
    (written key val l k).map f = written key (fun x => (val x).map f) l k := by
  induction l using List.reverseRecOn with
  | nil => rfl
  | append_singleton l x ih =>
    rw [written_concat, written_concat, ← ih]
    split_ifs
    · rw [Option.map_or]
    · rfl

theorem struck_map (f : V → W) : struck key (fun x => (val x).map f) l k = struck key val l k := by
  unfold struck
  simp only [Option.isNone_map]

theorem writesFirst_map (f : V → W) :
    (writesFirst key val m l k).map f =
      writesFirst key (fun x => (val x).map f) (fun k => (m k).map f) l k := by
  unfold writesFirst
  rw [struck_map]
  split_ifs
  · rfl
  · rw [Option.map_or, written_map]

theorem strikesFirst_map (f : V → W) :
    (strikesFirst key val m l k).map f =
      strikesFirst key (fun x => (val x).map f) (fun k => (m k).map f) l k := by
  unfold strikesFirst
  rw [struck_map, Option.map_or, written_map]
  split_ifs <;> rfl

theorem inOrder_map (f : V → W) :
    (inOrder key val m l k).map f =
      inOrder key (fun x => (val x).map f) (fun k => (m k).map f) l k := by
  induction l using List.reverseRecOn with
  | nil => rfl
  | append_singleton l x ih =>
    rw [inOrder_concat, inOrder_concat, ← ih]
    split_ifs <;> rfl

end Batch
