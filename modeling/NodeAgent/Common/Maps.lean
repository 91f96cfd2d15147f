import NodeAgent.Common.History
import Mathlib.Data.List.AList
import Mathlib.Algebra.BigOperators.Group.Finset.Basic
/-!
# Go maps, and ranging over them

A Go map is a finite partial function that a `for … range` loop visits in
an order the language leaves open. `GoMap` is Mathlib's association list
without repeated keys, read through `lookup`; the order of a loop is not
the order of the list but an `Order` the caller is handed, so that a
statement about every `Order` is a statement about every iteration order.
-/

/-- A Go map from `K` to `V`. -/
abbrev GoMap (K V : Type) := AList (fun _ : K => V)

/-- An iteration order: any rearrangement of the keys it is given. -/
structure Order (K : Type) where
  /-- The keys, as the loop visits them. -/
  run : List K → List K
  perm : ∀ l, (run l).Perm l

namespace Order

variable {K : Type}

/-- The order the keys are given in. -/
def given : Order K where
  run := id
  perm := fun _ => List.Perm.refl _

/-- The opposite order. -/
def reversed : Order K where
  run := List.reverse
  perm := List.reverse_perm

@[simp] theorem mem_run {o : Order K} {l : List K} {k : K} : k ∈ o.run l ↔ k ∈ l :=
  (o.perm l).mem_iff

/-- **Any element can come first.** -/
theorem exists_run_cons [DecidableEq K] {l : List K} {k : K} (hk : k ∈ l) :
    ∃ o : Order K, ∃ rest, o.run l = k :: rest := by
  refine ⟨⟨fun l' => if k ∈ l' then k :: l'.erase k else l', fun l' => ?_⟩, l.erase k, ?_⟩
  · by_cases h : k ∈ l'
    · simp only [if_pos h]; exact (List.perm_cons_erase h).symm
    · simp only [if_neg h]; exact List.Perm.refl _
  · simp only [if_pos hk]

end Order

namespace GoMap

variable {K V : Type} [DecidableEq K]

/-- What a `for k, v := range m` loop visits, in the order `o`. -/
def range (o : Order K) (m : GoMap K V) : List (K × V) :=
  (o.run m.keys).filterMap fun k => (m.lookup k).map fun v => (k, v)

variable {m : GoMap K V}

@[simp] theorem mem_range {o : Order K} {p : K × V} :
    p ∈ range o m ↔ m.lookup p.1 = some p.2 := by
  obtain ⟨k, v⟩ := p
  simp only [range, List.mem_filterMap, Order.mem_run, Option.map_eq_some_iff, Prod.mk.injEq]
  constructor
  · rintro ⟨a, -, b, hb, rfl, rfl⟩
    exact hb
  · intro h
    have hk : k ∈ m := AList.lookup_isSome.1 (by rw [h]; rfl)
    exact ⟨k, AList.mem_keys.1 hk, v, h, rfl, rfl⟩

@[simp] theorem range_empty (o : Order K) : range o (∅ : GoMap K V) = [] :=
  List.eq_nil_iff_forall_not_mem.2 fun p hp => by
    have hp' : (∅ : GoMap K V).lookup p.1 = some p.2 := mem_range.1 hp
    cases hp'

theorem range_keys (o : Order K) (m : GoMap K V) : (range o m).map Prod.fst = o.run m.keys := by
  have hall : ∀ k ∈ o.run m.keys, ∃ v, m.lookup k = some v := fun k hk =>
    Option.isSome_iff_exists.1
      (AList.lookup_isSome.2 (AList.mem_keys.2 (Order.mem_run.1 hk)))
  unfold range
  generalize o.run m.keys = l at hall
  induction l with
  | nil => rfl
  | cons k l ih =>
    obtain ⟨v, hv⟩ := hall k (by simp)
    simp only [List.filterMap_cons, hv, Option.map_some, List.map_cons]
    rw [ih fun k' hk' => hall k' (by simp [hk'])]

theorem range_nodup (o : Order K) (m : GoMap K V) : ((range o m).map Prod.fst).Nodup := by
  rw [range_keys]
  exact (o.perm _).nodup_iff.2 m.keys_nodup

/-- **It visits an entry exactly once.** -/
theorem range_filter_key {k : K} {v : V} (h : m.lookup k = some v) (o : Order K) :
    (range o m).filter (fun p => p.1 = k) = [(k, v)] := by
  have hmem : (k, v) ∈ range o m := mem_range.2 h
  have hnodup := range_nodup o m
  generalize range o m = l at hmem hnodup
  induction l with
  | nil => simp at hmem
  | cons p l ih =>
    rw [List.map_cons, List.nodup_cons] at hnodup
    rcases List.mem_cons.1 hmem with rfl | hl
    · have hrest : ∀ q ∈ l, ¬ q.1 = k := fun q hq hqk =>
        hnodup.1 (List.mem_map.2 ⟨q, hq, hqk⟩)
      simp only [List.filter_cons, decide_true, if_true, List.cons.injEq, true_and]
      exact List.filter_eq_nil_iff.2 fun q hq => by simp [hrest q hq]
    · have hne : p.1 ≠ k := fun hpk => hnodup.1 (hpk ▸ List.mem_map_of_mem hl)
      rw [List.filter_cons_of_neg (by simpa using hne), ih hl hnodup.2]

/-- **Any entry can come first.** -/
theorem exists_range_cons {k : K} {v : V} (h : m.lookup k = some v) :
    ∃ o rest, range o m = (k, v) :: rest := by
  have hk : k ∈ m.keys := AList.mem_keys.1 (AList.lookup_isSome.1 (by rw [h]; rfl))
  obtain ⟨o, rest, ho⟩ := Order.exists_run_cons hk
  refine ⟨o, rest.filterMap fun k => (m.lookup k).map fun v => (k, v), ?_⟩
  rw [range, ho, List.filterMap_cons, h]
  rfl

/-- **A sum over the loop does not depend on its order.** -/
theorem sum_range {M : Type} [AddCommMonoid M] (o : Order K) (m : GoMap K V) (f : K × V → M) :
    ((range o m).map f).sum =
      ∑ k ∈ m.keys.toFinset, ((m.lookup k).map fun v => f (k, v)).getD 0 := by
  have hkeys : (range o m).map f =
      (o.run m.keys).map fun k => ((m.lookup k).map fun v => f (k, v)).getD 0 := by
    rw [← range_keys, List.map_map]
    refine List.map_congr_left fun p hp => ?_
    rw [Function.comp_apply, mem_range.1 hp]
    rfl
  rw [hkeys, ((o.perm m.keys).map _).sum_eq, List.sum_toFinset _ m.keys_nodup]

theorem mem_keys_iff {k : K} : k ∈ m.keys ↔ ∃ v, m.lookup k = some v := by
  rw [← AList.mem_keys, ← AList.lookup_isSome, Option.isSome_iff_exists]

theorem notMem_keys_iff {k : K} : k ∉ m.keys ↔ m.lookup k = none := by
  rw [← AList.mem_keys, AList.lookup_eq_none]

theorem keys_perm {W : Type} {m' : GoMap K W}
    (h : ∀ k, m.lookup k = none ↔ m'.lookup k = none) : m.keys.Perm m'.keys := by
  refine (List.perm_ext_iff_of_nodup m.keys_nodup m'.keys_nodup).2 fun k => ?_
  rw [← not_iff_not, notMem_keys_iff, notMem_keys_iff]
  exact h k

theorem lookup_insert_eq (m : GoMap K V) (k k' : K) (v : V) :
    (m.insert k v).lookup k' = if k' = k then some v else m.lookup k' := by
  by_cases h : k' = k
  · subst h; rw [if_pos rfl, AList.lookup_insert]
  · rw [if_neg h, AList.lookup_insert_ne h]

theorem lookup_erase_eq (m : GoMap K V) (k k' : K) :
    (m.erase k).lookup k' = if k' = k then none else m.lookup k' := by
  by_cases h : k' = k
  · subst h; rw [if_pos rfl, AList.lookup_erase]
  · rw [if_neg h, AList.lookup_erase_ne h]

@[simp] theorem lookup_empty' (k : K) : (∅ : GoMap K V).lookup k = none := rfl

/-- `m[k] = v` for every pair of a list, one after the other. -/
def insertAll (m : GoMap K V) (l : List (K × V)) : GoMap K V :=
  l.foldl (fun m p => m.insert p.1 p.2) m

theorem insertAll_append (m : GoMap K V) (l l' : List (K × V)) :
    insertAll m (l ++ l') = insertAll (insertAll m l) l' :=
  List.foldl_append

/-- **Of two pairs with one key the later one is in.** -/
theorem lookup_insertAll (l : List (K × V)) (m : GoMap K V) (k : K) :
    (insertAll m l).lookup k =
      ((History.latest (fun p => p.1 = k) l).map Prod.snd).or (m.lookup k) := by
  induction l using List.reverseRecOn with
  | nil => rfl
  | append_singleton l p ih =>
    have hstep : insertAll m (l ++ [p]) = (insertAll m l).insert p.1 p.2 :=
      insertAll_append m l [p]
    rw [hstep, lookup_insert_eq, History.latest_concat, ih]
    by_cases hk : k = p.1
    · simp [hk]
    · have hk' : ¬ p.1 = k := fun h => hk h.symm
      simp [hk, hk']

variable {l : List (K × V)}

theorem lookup_insertAll_of_notMem {k : K} (hk : k ∉ l.map Prod.fst)
    (m : GoMap K V) : (insertAll m l).lookup k = m.lookup k := by
  have hnone : History.latest (fun p : K × V => p.1 = k) l = none := by
    refine History.latest_eq_none_iff.2 fun p hp => ?_
    simpa using fun heq : p.1 = k => hk (heq ▸ List.mem_map_of_mem hp)
  rw [lookup_insertAll, hnone]
  rfl

theorem mem_of_lookup_insertAll {k : K} {v : V}
    (h : (insertAll m l).lookup k = some v) : (k, v) ∈ l ∨ m.lookup k = some v := by
  rw [lookup_insertAll] at h
  cases hlast : History.latest (fun p : K × V => p.1 = k) l with
  | none =>
    rw [hlast] at h
    exact Or.inr h
  | some p =>
    obtain ⟨hp, hk⟩ := History.mem_of_latest hlast
    rw [hlast] at h
    obtain rfl : p.2 = v := Option.some.inj h
    obtain rfl : p.1 = k := of_decide_eq_true hk
    exact Or.inl hp

theorem mem_keys_insertAll {k : K} :
    k ∈ (insertAll m l).keys ↔ k ∈ l.map Prod.fst ∨ k ∈ m.keys := by
  by_cases hk : k ∈ l.map Prod.fst
  · refine iff_of_true (mem_keys_iff.2 ?_) (Or.inl hk)
    obtain ⟨p, hp, rfl⟩ := List.mem_map.1 hk
    rw [lookup_insertAll]
    cases hlast : History.latest (fun q : K × V => q.1 = p.1) l with
    | none => exact absurd (by simp) (History.latest_eq_none_iff.1 hlast p hp)
    | some q => exact ⟨q.2, rfl⟩
  · rw [mem_keys_iff, lookup_insertAll_of_notMem hk, ← mem_keys_iff]
    exact (or_iff_right hk).symm

theorem lookup_insertAll_of_mem (hnodup : (l.map Prod.fst).Nodup)
    {p : K × V} (hp : p ∈ l) (m : GoMap K V) : (insertAll m l).lookup p.1 = some p.2 := by
  rw [lookup_insertAll]
  cases hlast : History.latest (fun q : K × V => q.1 = p.1) l with
  | none => exact absurd (by simp) (History.latest_eq_none_iff.1 hlast p hp)
  | some q =>
    obtain ⟨hq, hk⟩ := History.mem_of_latest hlast
    rw [List.inj_on_of_nodup_map hnodup hq hp (of_decide_eq_true hk)]
    rfl

/-- **What is in afterwards**, where no key is repeated: the pairs of the
list, and what was there under other keys. -/
theorem lookup_insertAll_iff (hnodup : (l.map Prod.fst).Nodup) (m : GoMap K V) {k : K} {v : V} :
    (insertAll m l).lookup k = some v ↔
      (k, v) ∈ l ∨ k ∉ l.map Prod.fst ∧ m.lookup k = some v := by
  by_cases hk : k ∈ l.map Prod.fst
  · obtain ⟨p, hp, rfl⟩ := List.mem_map.1 hk
    rw [lookup_insertAll_of_mem hnodup hp]
    constructor
    · intro h
      rw [← Option.some.inj h]
      exact Or.inl hp
    · rintro (hmem | ⟨hnot, -⟩)
      · rw [List.inj_on_of_nodup_map hnodup hp hmem rfl]
      · exact absurd hk hnot
  · rw [lookup_insertAll_of_notMem hk]
    constructor
    · exact fun h => Or.inr ⟨hk, h⟩
    · rintro (hmem | ⟨-, h⟩)
      · exact absurd (List.mem_map_of_mem hmem) hk
      · exact h

theorem filterMap_map_sublist {α β γ : Type} {f : α → Option β} {g : β → γ} {h : α → γ}
    {l : List α} (hf : ∀ a ∈ l, ∀ b, f a = some b → g b = h a) :
    ((l.filterMap f).map g).Sublist (l.map h) := by
  induction l with
  | nil => simp
  | cons a l ih =>
    have hl := ih fun a' ha' => hf a' (List.mem_cons_of_mem _ ha')
    cases ha : f a with
    | none =>
      rw [List.filterMap_cons_none ha, List.map_cons]
      exact hl.cons _
    | some b =>
      rw [List.filterMap_cons_some ha, List.map_cons, List.map_cons,
        hf a (List.mem_cons_self ..) b ha]
      exact hl.cons_cons _

theorem lookup_insertAll_range {W : Type} (o : Order K) (m : GoMap K V) (f : V → W) (k : K) :
    (insertAll ∅ ((range o m).map fun p => (p.1, f p.2))).lookup k = (m.lookup k).map f := by
  have hkeys : ((range o m).map fun p => (p.1, f p.2)).map Prod.fst = (range o m).map Prod.fst := by
    rw [List.map_map]
    rfl
  cases hk : m.lookup k with
  | none =>
    refine lookup_insertAll_of_notMem (fun hmem => ?_) _
    rw [hkeys, range_keys, Order.mem_run] at hmem
    exact notMem_keys_iff.2 hk hmem
  | some v =>
    have hmem : (k, f v) ∈ (range o m).map fun p => (p.1, f p.2) :=
      List.mem_map.2 ⟨(k, v), mem_range.2 hk, rfl⟩
    exact lookup_insertAll_of_mem (by rw [hkeys]; exact range_nodup o m) hmem _

/-- `delete(m, k)` for every `k` of a list. -/
def eraseKeys (m : GoMap K V) (ks : List K) : GoMap K V :=
  ks.foldl (fun m k => m.erase k) m

theorem lookup_eraseKeys (ks : List K) (m : GoMap K V) (k : K) :
    (eraseKeys m ks).lookup k = if k ∈ ks then none else m.lookup k := by
  induction ks generalizing m with
  | nil => simp [eraseKeys]
  | cons a ks ih =>
    have hstep : eraseKeys m (a :: ks) = eraseKeys (m.erase a) ks := rfl
    rw [hstep, ih, lookup_erase_eq]
    by_cases hks : k ∈ ks <;> by_cases hka : k = a <;> simp [hks, hka]

/-- `m[k] = v` for every `k` of a list. -/
def insertKeys (m : GoMap K V) (ks : List K) (v : V) : GoMap K V :=
  ks.foldl (fun m k => m.insert k v) m

theorem lookup_insertKeys (ks : List K) (m : GoMap K V) (v : V) (k : K) :
    (insertKeys m ks v).lookup k = if k ∈ ks then some v else m.lookup k := by
  induction ks generalizing m with
  | nil => simp [insertKeys]
  | cons a ks ih =>
    have hstep : insertKeys m (a :: ks) v = insertKeys (m.insert a v) ks v := rfl
    rw [hstep, ih, lookup_insert_eq]
    by_cases hks : k ∈ ks <;> by_cases hka : k = a <;> simp [hks, hka]

end GoMap
