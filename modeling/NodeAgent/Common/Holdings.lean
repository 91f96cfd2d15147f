import Mathlib.Data.Finset.Basic
/-!
# Resources with one holder each

A table says of every holder which resources it has, or that it is not
there. Giving a resource to one holder takes it from all others, so a
batch of changes depends on its order: an assignment may undo an earlier
one, and a removal an assignment. It does not if every holder is changed
once and no resource is given out twice (`foldl_apply_perm`); and if, over
that, an assignment that keeps what was there goes to a holder that was
not, everybody ends with what the batch says (`Separate.foldl_apply`).
-/

namespace Holdings

variable {K R : Type} [DecidableEq K] [DecidableEq R]

/-- What each holder has; `none` is no holder at all. -/
abbrev Table (K R : Type) := K → Option (Finset R)

/-- A change to one holder. -/
inductive Change (K R : Type)
  /-- The holder goes, with all it has. -/
  | remove (k : K)
  /-- It is given resources, beside or instead of what it has. -/
  | assign (k : K) (rs : Finset R) (replace : Bool)

/-- The holder a change is about. -/
def Change.holder : Change K R → K
  | .remove k => k
  | .assign k _ _ => k

/-- The resources a change gives out. -/
def Change.given : Change K R → Finset R
  | .remove _ => ∅
  | .assign _ rs _ => rs

/-- The table after a change. -/
def apply (t : Table K R) : Change K R → Table K R
  | .remove k => Function.update t k none
  | .assign k rs replace => fun k' =>
    if k' = k then some ((if replace then ∅ else (t k).getD ∅) ∪ rs)
    else (t k').map (· \ rs)

variable {t : Table K R} {c : Change K R} {cs : List (Change K R)} {k : K}

theorem apply_of_ne (h : k ≠ c.holder) : apply t c k = (t k).map (· \ c.given) := by
  cases c with
  | remove k' =>
    have hk : k ≠ k' := h
    simp [apply, Change.given, Function.update_of_ne hk]
  | assign k' rs replace =>
    have hk : k ≠ k' := h
    simp [apply, Change.given, hk]

theorem apply_apply_holder {c' : Change K R} (hholder : c.holder ≠ c'.holder)
    (hgiven : Disjoint c.given c'.given) (t : Table K R) :
    apply (apply t c) c' c.holder = apply (apply t c') c c.holder := by
  rw [apply_of_ne hholder]
  cases c with
  | remove k => simp [apply, Change.holder]
  | assign k rs replace =>
    have hrs : rs \ c'.given = rs := Finset.sdiff_eq_self_of_disjoint hgiven
    have hother : apply t c' k = (t k).map (· \ c'.given) := apply_of_ne hholder
    have hself : ∀ t : Table K R, apply t (.assign k rs replace) k =
        some ((if replace then ∅ else (t k).getD ∅) ∪ rs) := fun t => if_pos rfl
    show (apply t (.assign k rs replace) k).map _ = apply (apply t c') (.assign k rs replace) k
    rw [hself, hself, hother, Option.map_some, Finset.union_sdiff_distrib, hrs]
    cases replace with
    | true => simp
    | false =>
      cases t k with
      | none => simp
      | some rs₀ => rfl

/-- **Such changes commute.** -/
theorem apply_comm {c' : Change K R} (hholder : c.holder ≠ c'.holder)
    (hgiven : Disjoint c.given c'.given) (t : Table K R) :
    apply (apply t c) c' = apply (apply t c') c := by
  funext k
  by_cases hk : k = c.holder
  · rw [hk]
    exact apply_apply_holder hholder hgiven t
  · by_cases hk' : k = c'.holder
    · rw [hk']
      exact (apply_apply_holder hholder.symm hgiven.symm t).symm
    · rw [apply_of_ne hk', apply_of_ne hk, apply_of_ne hk, apply_of_ne hk', Option.map_map,
        Option.map_map]
      refine congrArg (fun f => (t k).map f) (funext fun rs => ?_)
      ext r
      simp only [Function.comp_apply, Finset.mem_sdiff]
      tauto

/-- **A batch of them may come in any order.** -/
theorem foldl_apply_perm {cs' : List (Change K R)} (h : cs.Perm cs')
    (hholders : (cs.map Change.holder).Nodup)
    (hgiven : ∀ c ∈ cs, ∀ c' ∈ cs, c.holder ≠ c'.holder → Disjoint c.given c'.given)
    (t : Table K R) : cs.foldl apply t = cs'.foldl apply t := by
  refine h.foldl_eq' (fun c hc c' hc' t => ?_) t
  by_cases hholder : c.holder = c'.holder
  · rw [List.inj_on_of_nodup_map hholders hc hc' hholder]
  · exact apply_comm hholder (hgiven c hc c' hc' hholder) t

/-- **Nobody changed, less what was given away.** -/
theorem foldl_apply_of_notMem (cs : List (Change K R)) (t : Table K R)
    (hk : k ∉ cs.map Change.holder) :
    cs.foldl apply t k = (t k).map (·.filter fun r => ∀ c ∈ cs, r ∉ c.given) := by
  induction cs generalizing t with
  | nil => simp
  | cons c cs ih =>
    rw [List.map_cons, List.mem_cons, not_or] at hk
    rw [List.foldl_cons, ih _ hk.2, apply_of_ne hk.1, Option.map_map]
    refine congrArg (fun f => (t k).map f) (funext fun rs => ?_)
    ext r
    simp only [Function.comp_apply, Finset.mem_filter, Finset.mem_sdiff, List.forall_mem_cons]
    tauto

/-- Each change is to a holder of its own, what it gives is given once,
and it replaces what there was unless there was nobody. -/
structure Separate (t : Table K R) (cs : List (Change K R)) : Prop where
  holders : (cs.map Change.holder).Nodup
  given : cs.Pairwise fun c c' => Disjoint c.given c'.given
  fresh : ∀ k rs, Change.assign k rs false ∈ cs → t k = none

theorem Separate.tail (h : Separate t (c :: cs)) : Separate (apply t c) cs where
  holders := (List.nodup_cons.1 h.holders).2
  given := (List.pairwise_cons.1 h.given).2
  fresh := by
    intro k rs hmem
    have hne : k ≠ c.holder := by
      rintro rfl
      exact (List.nodup_cons.1 h.holders).1 (List.mem_map.2 ⟨_, hmem, rfl⟩)
    rw [apply_of_ne hne, h.fresh k rs (List.mem_cons_of_mem _ hmem)]
    rfl

/-- **The order of separate changes does not matter**: who is removed is
gone, and who is assigned something has that. -/
theorem Separate.foldl_apply (h : Separate t cs) :
    (∀ k, Change.remove k ∈ cs → cs.foldl apply t k = none) ∧
      ∀ k rs replace, Change.assign k rs replace ∈ cs → cs.foldl apply t k = some rs := by
  induction cs generalizing t with
  | nil => simp
  | cons c cs ih =>
    obtain ⟨hremove, hassign⟩ := ih h.tail
    obtain ⟨hnot, -⟩ := List.nodup_cons.1 h.holders
    obtain ⟨hapart, -⟩ := List.pairwise_cons.1 h.given
    refine ⟨fun k hk => ?_, fun k rs replace hk => ?_⟩
    · rcases List.mem_cons.1 hk with rfl | hk
      · have hlater : k ∉ cs.map Change.holder := hnot
        rw [List.foldl_cons, foldl_apply_of_notMem _ _ hlater]
        simp [apply]
      · exact hremove k hk
    · rcases List.mem_cons.1 hk with rfl | hk
      · have hlater : k ∉ cs.map Change.holder := hnot
        -- nothing of it is given away later
        have hkept : rs.filter (fun r => ∀ c ∈ cs, r ∉ c.given) = rs := by
          refine Finset.filter_true_of_mem fun r hr c' hc' => ?_
          exact Finset.disjoint_left.1 (hapart c' hc') hr
        have hnow : apply t (.assign k rs replace) k = some rs := by
          cases replace with
          | true => simp [apply]
          | false => simp [apply, h.fresh k rs (List.mem_cons_self ..)]
        rw [List.foldl_cons, foldl_apply_of_notMem _ _ hlater, hnow, Option.map_some, hkept]
      · exact hassign k rs replace hk

/-- **Who is removed, and not changed otherwise, is gone**, in whatever
order. -/
theorem foldl_apply_removed (hmem : Change.remove k ∈ cs)
    (honly : ∀ c ∈ cs, c.holder = k → c = .remove k) (t : Table K R) :
    cs.foldl apply t k = none := by
  -- once it is gone nothing brings it back
  have hgone : ∀ (cs : List (Change K R)) (t : Table K R),
      (∀ c ∈ cs, c.holder = k → c = .remove k) → t k = none → cs.foldl apply t k = none := by
    intro cs
    induction cs with
    | nil => exact fun t _ ht => ht
    | cons c cs ih =>
      intro t honly ht
      refine ih _ (fun c' hc' => honly c' (List.mem_cons_of_mem _ hc')) ?_
      by_cases hk : k = c.holder
      · rw [honly c (List.mem_cons_self ..) hk.symm]
        exact Function.update_self ..
      · rw [apply_of_ne hk, ht]
        rfl
  obtain ⟨before, after, rfl⟩ := List.append_of_mem hmem
  rw [List.foldl_append, List.foldl_cons]
  refine hgone after _ (fun c hc => honly c ?_) (Function.update_self ..)
  exact List.mem_append_right _ (List.mem_cons_of_mem _ hc)

/-! ## Additions -/

theorem subset_apply {rs rs₀ given : Finset R} {k' : K} (ht : t k = some rs₀) (hsub : rs ⊆ rs₀)
    (hfree : Disjoint rs given) :
    ∃ rs', apply t (.assign k' given false) k = some rs' ∧ rs ⊆ rs' := by
  by_cases hk : k = k'
  · subst hk
    exact ⟨rs₀ ∪ given, by simp [apply, ht], hsub.trans Finset.subset_union_left⟩
  · refine ⟨rs₀ \ given, by simp [apply, hk, ht], fun r hr => ?_⟩
    exact Finset.mem_sdiff.2 ⟨hsub hr, Finset.disjoint_left.1 hfree hr⟩

/-- **What additions give out once, whoever they are for, is held in the
end.** -/
theorem subset_of_added {rs : Finset R} (hadd : ∀ c ∈ cs, ∃ k rs, c = .assign k rs false)
    (hgiven : cs.Pairwise fun c c' => Disjoint c.given c'.given)
    (hmem : Change.assign k rs false ∈ cs) (t : Table K R) :
    ∃ rs', cs.foldl apply t k = some rs' ∧ rs ⊆ rs' := by
  induction cs generalizing t with
  | nil => simp at hmem
  | cons c cs ih =>
    obtain ⟨hhead, htail⟩ := List.pairwise_cons.1 hgiven
    have hadd' : ∀ c' ∈ cs, ∃ k rs, c' = .assign k rs false :=
      fun c' hc' => hadd c' (List.mem_cons_of_mem c hc')
    rcases List.mem_cons.1 hmem with rfl | hmem
    · -- it has them now, and they are given to nobody else
      refine List.foldlRecOn
        (motive := fun t : Table K R => ∃ rs', t k = some rs' ∧ rs ⊆ rs') cs apply
        ⟨_, if_pos rfl, Finset.subset_union_right⟩ fun t ht c hc => ?_
      obtain ⟨rs₀, htk, hsub⟩ := ht
      obtain ⟨k', given, rfl⟩ := hadd' c hc
      exact subset_apply htk hsub (hhead _ hc)
    · exact ih hadd' htail hmem _

end Holdings
