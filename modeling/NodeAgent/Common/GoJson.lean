import NodeAgent.Common.History
/-!
# Decoding JSON as Go does

What `encoding/json` makes of a document: `Value` is the document with the
members of its objects as they stand, repeated ones too, and its numbers as
they are spelt. A target is decoded into member by member, each on top of
what is there: strings and slices are overwritten in place, maps take keys
on, and the fields of a struct are found whatever the case of their letters.
A target of type `any` gets the *generic* form of the value, in which
objects are Go maps; here a map is the list of its members in the order
`Marshal` writes them in.
-/

namespace GoJson

open History

/-- A JSON document. -/
inductive Value
  | null
  | bool (b : Bool)
  | num (literal : String)
  | str (s : String)
  | arr (elems : List Value)
  | obj (members : List (String × Value))

namespace Value

/-- `v[k]` in a map, `none` also where `v` is no map. -/
def get (k : String) : Value → Option Value
  | obj ms => ms.lookup k
  | _ => none

/-- `v.(string)`. -/
def string : Value → Option String
  | str s => some s
  | _ => none

end Value

/-! ## Maps -/

section Maps

variable {β : Type} {k : String} {v : β} {l l' : List (String × β)}

/-- `m[k] = v`. -/
def put (k : String) (v : β) : List (String × β) → List (String × β)
  | [] => [(k, v)]
  | (k', v') :: rest =>
    if k < k' then (k, v) :: (k', v') :: rest
    else if k = k' then (k, v) :: rest
    else (k', v') :: put k v rest

/-- `delete(m, k)`. -/
def delete (k : String) (l : List (String × β)) : List (String × β) :=
  l.filter fun p => p.1 ≠ k

/-- The map members come to, each on top of what is there. -/
def putAll (ms : List (String × β)) (l : List (String × β)) : List (String × β) :=
  ms.foldl (fun l p => put p.1 p.2 l) l

/-- The order of the members of a map. -/
def Sorted (l : List (String × β)) : Prop :=
  l.Pairwise fun p q => p.1 < q.1

theorem lookup_cons (k j : String) (v : β) (l : List (String × β)) :
    ((k, v) :: l).lookup j = if j = k then some v else l.lookup j := by
  rw [List.lookup_cons]
  by_cases h : j = k
  · rw [beq_iff_eq.2 h, if_pos h]
  · rw [beq_eq_false_iff_ne.2 h, if_neg h]

theorem lookup_put (k j : String) (v : β) (l : List (String × β)) :
    (put k v l).lookup j = if j = k then some v else l.lookup j := by
  induction l with
  | nil => rw [put, lookup_cons]
  | cons p rest ih =>
    obtain ⟨k', v'⟩ := p
    rw [put]
    by_cases hlt : k < k'
    · rw [if_pos hlt, lookup_cons]
    · by_cases heq : k = k'
      · rw [if_neg hlt, if_pos heq, lookup_cons, lookup_cons, ← heq]
        split_ifs <;> rfl
      · rw [if_neg hlt, if_neg heq, lookup_cons, lookup_cons, ih]
        split_ifs with hj hj'
        · exact absurd (hj'.symm.trans hj) heq
        · rfl
        · rfl
        · rfl

theorem lookup_delete (k j : String) (l : List (String × β)) :
    (delete k l).lookup j = if j = k then none else l.lookup j := by
  induction l with
  | nil => simp [delete]
  | cons p rest ih =>
    obtain ⟨k', v'⟩ := p
    rw [delete, List.filter_cons, ← delete]
    by_cases hk : k' = k
    · rw [if_neg (by simp [hk]), ih, lookup_cons, hk]
      split_ifs <;> rfl
    · rw [if_pos (by simp [hk]), lookup_cons, lookup_cons, ih]
      split_ifs with h h'
      · exact absurd (h.symm.trans h') hk
      · rfl
      · rfl
      · rfl

theorem lookup_putAll (ms l : List (String × β)) (j : String) :
    (putAll ms l).lookup j =
      (lastWrite (fun p => if p.1 = j then some p.2 else none) ms).or (l.lookup j) := by
  induction ms generalizing l with
  | nil => rfl
  | cons p ms ih =>
    rw [lastWrite_cons, putAll, List.foldl_cons, ← putAll, ih, lookup_put, Option.or_assoc]
    by_cases h : p.1 = j
    · rw [if_pos h, if_pos h.symm]
      rfl
    · rw [if_neg h, if_neg (Ne.symm h)]
      rfl

theorem mem_put {p : String × β} (h : p ∈ put k v l) : p = (k, v) ∨ p ∈ l := by
  induction l with
  | nil => exact Or.inl (List.mem_singleton.1 h)
  | cons q rest ih =>
    obtain ⟨k', v'⟩ := q
    rw [put] at h
    split_ifs at h
    · exact List.mem_cons.1 h
    · rcases List.mem_cons.1 h with h | h
      · exact Or.inl h
      · exact Or.inr (List.mem_cons_of_mem _ h)
    · rcases List.mem_cons.1 h with h | h
      · exact Or.inr (h ▸ List.mem_cons_self)
      · exact (ih h).imp_right (List.mem_cons_of_mem _)

theorem Sorted.put (h : Sorted l) (k : String) (v : β) : Sorted (put k v l) := by
  induction l with
  | nil => exact List.pairwise_singleton _ _
  | cons q rest ih =>
    obtain ⟨k', v'⟩ := q
    obtain ⟨hq, hrest⟩ := List.pairwise_cons.1 h
    rw [GoJson.put]
    split_ifs with hlt heq
    · refine List.pairwise_cons.2 ⟨List.forall_mem_cons.2 ⟨hlt, fun p hp => ?_⟩, h⟩
      exact String.lt_trans hlt (hq p hp)
    · exact List.pairwise_cons.2 ⟨fun p hp => heq ▸ hq p hp, hrest⟩
    · refine List.pairwise_cons.2 ⟨fun p hp => ?_, ih hrest⟩
      rcases mem_put hp with rfl | hp
      · exact Std.lt_of_le_of_ne (String.not_lt.1 hlt) (Ne.symm heq)
      · exact hq p hp

theorem Sorted.putAll (h : Sorted l) (ms : List (String × β)) : Sorted (putAll ms l) := by
  induction ms generalizing l with
  | nil => exact h
  | cons p ms ih => exact ih (h.put p.1 p.2)

theorem Sorted.delete (h : Sorted l) (k : String) : Sorted (delete k l) :=
  List.Pairwise.filter _ h

theorem Sorted.lookup_of_not_lt {j : String} (h : Sorted ((k, v) :: l)) (hj : ¬ k < j) :
    l.lookup j = none := by
  rw [List.lookup_eq_none_iff]
  intro p hp
  have hlt : k < p.1 := (List.pairwise_cons.1 h).1 p hp
  exact bne_iff_ne.2 fun heq : j = p.1 => hj (heq ▸ hlt)

/-- **Maps are the same if they have the same under every key.** -/
theorem Sorted.ext (h : Sorted l) (h' : Sorted l') (hsame : ∀ j, l.lookup j = l'.lookup j) :
    l = l' := by
  induction l generalizing l' with
  | nil =>
    cases l' with
    | nil => rfl
    | cons q l' =>
      obtain ⟨k', v'⟩ := q
      have := hsame k'
      rw [lookup_cons, if_pos rfl] at this
      cases this
  | cons p l ih =>
    obtain ⟨k, v⟩ := p
    cases l' with
    | nil =>
      have := hsame k
      rw [lookup_cons, if_pos rfl] at this
      cases this
    | cons q l' =>
      obtain ⟨k', v'⟩ := q
      have hk := hsame k
      have hk' := hsame k'
      rw [lookup_cons, if_pos rfl, lookup_cons] at hk
      rw [lookup_cons k' k', if_pos rfl, lookup_cons] at hk'
      -- the first keys are the same, for neither map has a key below its first
      obtain rfl : k = k' := by
        by_contra hne
        by_cases hlt : k < k'
        · rw [if_neg hne, h'.lookup_of_not_lt (String.lt_asymm hlt)] at hk
          cases hk
        · rw [if_neg (Ne.symm hne), h.lookup_of_not_lt hlt] at hk'
          cases hk'
      rw [if_pos rfl] at hk
      obtain rfl := Option.some.inj hk
      have hrest : l = l' := by
        refine ih (List.pairwise_cons.1 h).2 (List.pairwise_cons.1 h').2 fun j => ?_
        have hj := hsame j
        rw [lookup_cons, lookup_cons] at hj
        split_ifs at hj with heq
        · subst heq
          rw [h.lookup_of_not_lt (String.lt_irrefl _), h'.lookup_of_not_lt (String.lt_irrefl _)]
        · exact hj
      rw [hrest]

/-- **Two maps differ at most under one key.** -/
def AgreeOff (k : String) (l l' : List (String × β)) : Prop :=
  ∀ j, j ≠ k → l.lookup j = l'.lookup j

theorem AgreeOff.put_eq (hoff : AgreeOff k l l') (h : Sorted l) (h' : Sorted l') (v : β) :
    put k v l = put k v l' := by
  refine (h.put k v).ext (h'.put k v) fun j => ?_
  rw [lookup_put, lookup_put]
  split_ifs with hj
  · rfl
  · exact hoff j hj

theorem AgreeOff.delete_eq (hoff : AgreeOff k l l') (h : Sorted l) (h' : Sorted l') :
    delete k l = delete k l' := by
  refine (h.delete k).ext (h'.delete k) fun j => ?_
  rw [lookup_delete, lookup_delete]
  split_ifs with hj
  · rfl
  · exact hoff j hj

theorem AgreeOff.put (hoff : AgreeOff k l l') (j : String) (v : β) :
    AgreeOff k (put j v l) (put j v l') := by
  intro i hi
  rw [lookup_put, lookup_put, hoff i hi]

theorem put_put (k : String) (v w : β) (l : List (String × β)) :
    put k v (put k w l) = put k v l := by
  induction l with
  | nil => simp [put]
  | cons p rest ih =>
    obtain ⟨k', v'⟩ := p
    by_cases hlt : k < k'
    · simp [put, hlt]
    · by_cases heq : k = k'
      · simp [put, heq]
      · simp [put, hlt, heq, ih]

theorem put_of_forall_lt (h : ∀ p ∈ l, p.1 < k) (v : β) : put k v l = l ++ [(k, v)] := by
  induction l with
  | nil => rfl
  | cons p rest ih =>
    obtain ⟨k', v'⟩ := p
    obtain ⟨hlt, hrest⟩ := List.forall_mem_cons.1 h
    rw [put, if_neg (String.lt_asymm hlt), if_neg (Ne.symm (String.ne_of_lt hlt)), ih hrest]
    rfl

theorem putAll_of_sorted_append (h : Sorted (l ++ l')) : putAll l' l = l ++ l' := by
  induction l' generalizing l with
  | nil => rw [List.append_nil]; rfl
  | cons p l' ih =>
    have hlt : ∀ q ∈ l, q.1 < p.1 := by
      intro q hq
      exact (List.pairwise_append.1 h).2.2 q hq p List.mem_cons_self
    rw [putAll, List.foldl_cons, ← putAll, put_of_forall_lt hlt, ih, List.append_assoc]
    · rfl
    · rwa [List.append_assoc]

theorem Sorted.putAll_eq (h : Sorted l) : GoJson.putAll l [] = l :=
  putAll_of_sorted_append (l := []) h

theorem mem_putAll {ms : List (String × β)} {p : String × β} (h : p ∈ putAll ms l) :
    p ∈ ms ∨ p ∈ l := by
  induction ms generalizing l with
  | nil => exact Or.inr h
  | cons q ms ih =>
    rcases ih h with hp | hp
    · exact Or.inl (List.mem_cons_of_mem _ hp)
    · rcases mem_put hp with rfl | hp
      · exact Or.inl List.mem_cons_self
      · exact Or.inr hp

theorem agreeOff_putAll (a b : List (String × β)) (k : String) (v w : β) :
    AgreeOff k (putAll (a ++ (k, v) :: b) []) (putAll (a ++ (k, w) :: b) []) := by
  intro j hj
  rw [lookup_putAll, lookup_putAll, lastWrite_append_cons, lastWrite_append_cons,
    if_neg (Ne.symm hj), if_neg (Ne.symm hj)]

end Maps

/-! ## The generic form -/

section Generic

variable (float : String → Option String)

mutual

/-- What a target of type `any` gets. `float` is how the literal of a
number is written once it has been a `float64`, `none` where it is out of
range; then the value is not decoded. -/
def generic : Value → Option Value
  | .null => some .null
  | .bool b => some (.bool b)
  | .num literal => (float literal).map .num
  | .str s => some (.str s)
  | .arr elems => (genericElems elems).map .arr
  | .obj ms => (genericMembers ms).map fun l => .obj (putAll l [])

def genericElems : List Value → Option (List Value)
  | [] => some []
  | v :: vs =>
    match generic v, genericElems vs with
    | some g, some gs => some (g :: gs)
    | _, _ => none

/-- The members of an object, repeated ones too. -/
def genericMembers : List (String × Value) → Option (List (String × Value))
  | [] => some []
  | (k, v) :: ms =>
    match generic v, genericMembers ms with
    | some g, some gs => some ((k, g) :: gs)
    | _, _ => none

end

variable {float} {ms a b gs : List (String × Value)} {k : String} {v : Value}

theorem genericMembers_cons_eq_some :
    genericMembers float ((k, v) :: ms) = some gs ↔
      ∃ g rest, generic float v = some g ∧ genericMembers float ms = some rest ∧
        gs = (k, g) :: rest := by
  rw [genericMembers]
  cases generic float v with
  | none => simp
  | some g =>
    cases genericMembers float ms with
    | none => simp
    | some rest => simp [eq_comm]

theorem genericMembers_append_cons_eq_some :
    genericMembers float (a ++ (k, v) :: b) = some gs ↔
      ∃ ga g gb, genericMembers float a = some ga ∧ generic float v = some g ∧
        genericMembers float b = some gb ∧ gs = ga ++ (k, g) :: gb := by
  induction a generalizing gs with
  | nil =>
    rw [List.nil_append, genericMembers_cons_eq_some]
    constructor
    · rintro ⟨g, gb, hg, hb, rfl⟩
      exact ⟨[], g, gb, rfl, hg, hb, rfl⟩
    · rintro ⟨ga, g, gb, ha, hg, hb, rfl⟩
      obtain rfl := Option.some.inj ha
      exact ⟨g, gb, hg, hb, rfl⟩
  | cons p a ih =>
    obtain ⟨k', v'⟩ := p
    rw [List.cons_append, genericMembers_cons_eq_some]
    constructor
    · rintro ⟨g', rest, hg', hrest, rfl⟩
      obtain ⟨ga, g, gb, ha, hg, hb, rfl⟩ := ih.1 hrest
      exact ⟨(k', g') :: ga, g, gb, genericMembers_cons_eq_some.2 ⟨g', ga, hg', ha, rfl⟩, hg, hb,
        rfl⟩
    · rintro ⟨ga, g, gb, ha, hg, hb, rfl⟩
      obtain ⟨g', ga', hg', ha', rfl⟩ := genericMembers_cons_eq_some.1 ha
      exact ⟨g', _, hg', ih.2 ⟨ga', g, gb, ha', hg, hb, rfl⟩, rfl⟩

theorem lastWrite_genericMembers (h : genericMembers float ms = some gs) (k : String) :
    (lastWrite (fun p => if p.1 = k then some p.2 else none) gs).map some =
      lastWrite (fun p => if p.1 = k then some (generic float p.2) else none) ms := by
  induction ms generalizing gs with
  | nil =>
    obtain rfl := Option.some.inj h
    rfl
  | cons p ms ih =>
    obtain ⟨k', v'⟩ := p
    obtain ⟨g, rest, hg, hrest, rfl⟩ := genericMembers_cons_eq_some.1 h
    rw [lastWrite_cons, lastWrite_cons, ← ih hrest, Option.map_or]
    by_cases hk : k' = k
    · simp [hk, hg]
    · simp [hk]

theorem genericElems_eq_self_iff {vs : List Value} :
    genericElems float vs = some vs ↔ ∀ v ∈ vs, generic float v = some v := by
  induction vs with
  | nil => simp [genericElems]
  | cons v vs ih =>
    rw [List.forall_mem_cons, ← ih, genericElems]
    cases generic float v with
    | none => simp
    | some g =>
      cases genericElems float vs with
      | none => simp
      | some gs => simp

theorem genericMembers_eq_self_iff :
    genericMembers float ms = some ms ↔ ∀ p ∈ ms, generic float p.2 = some p.2 := by
  induction ms with
  | nil => simp [genericMembers]
  | cons p ms ih =>
    obtain ⟨k, v⟩ := p
    rw [List.forall_mem_cons, ← ih, genericMembers_cons_eq_some]
    constructor
    · rintro ⟨g, rest, hg, hrest, heq⟩
      obtain ⟨hp, rfl⟩ := List.cons.inj heq
      obtain ⟨-, rfl⟩ := Prod.mk.inj hp
      exact ⟨hg, hrest⟩
    · rintro ⟨hg, hrest⟩
      exact ⟨v, ms, hg, hrest, rfl⟩

/-- **A number that has been a `float64` stays as it is written.** -/
def Stable (float : String → Option String) : Prop :=
  ∀ literal written, float literal = some written → float written = some written

/-- A decoded map: its values are in generic form. -/
structure IsMap (float : String → Option String) (l : List (String × Value)) : Prop where
  sorted : Sorted l
  generic : ∀ p ∈ l, generic float p.2 = some p.2

theorem isMap_putAll (hms : genericMembers float ms = some ms) : IsMap float (putAll ms []) where
  sorted := Sorted.putAll List.Pairwise.nil ms
  generic := by
    intro p hp
    rcases mem_putAll hp with hp | hp
    · exact genericMembers_eq_self_iff.1 hms p hp
    · cases hp

theorem IsMap.genericMembers_eq {l : List (String × Value)} (h : IsMap float l) :
    genericMembers float l = some l :=
  genericMembers_eq_self_iff.2 h.generic

mutual

/-- **Decoding what was decoded changes nothing.** -/
theorem generic_generic (hfloat : Stable float) :
    ∀ v g : Value, generic float v = some g → generic float g = some g
  | .null, g, h => by
    obtain rfl := Option.some.inj h
    rfl
  | .bool b, g, h => by
    obtain rfl := Option.some.inj h
    rfl
  | .num literal, g, h => by
    rw [generic] at h
    obtain ⟨written, hw, rfl⟩ := Option.map_eq_some_iff.1 h
    rw [generic, hfloat literal written hw]
    rfl
  | .str s, g, h => by
    obtain rfl := Option.some.inj h
    rfl
  | .arr elems, g, h => by
    rw [generic] at h
    obtain ⟨gs, hgs, rfl⟩ := Option.map_eq_some_iff.1 h
    rw [generic, genericElems_genericElems hfloat elems gs hgs]
    rfl
  | .obj ms, g, h => by
    rw [generic] at h
    obtain ⟨gs, hgs, rfl⟩ := Option.map_eq_some_iff.1 h
    have hmap := isMap_putAll (genericMembers_genericMembers hfloat ms gs hgs)
    rw [generic, hmap.genericMembers_eq, Option.map_some, hmap.sorted.putAll_eq]

theorem genericElems_genericElems (hfloat : Stable float) :
    ∀ vs gs : List Value, genericElems float vs = some gs → genericElems float gs = some gs
  | [], gs, h => by
    obtain rfl := Option.some.inj h
    rfl
  | v :: vs, gs, h => by
    rw [genericElems] at h
    split at h
    · rename_i g rest hg hrest
      obtain rfl := Option.some.inj h
      rw [genericElems, generic_generic hfloat v g hg,
        genericElems_genericElems hfloat vs rest hrest]
    · cases h

theorem genericMembers_genericMembers (hfloat : Stable float) :
    ∀ ms gs : List (String × Value), genericMembers float ms = some gs →
      genericMembers float gs = some gs
  | [], gs, h => by
    obtain rfl := Option.some.inj h
    rfl
  | (k, v) :: ms, gs, h => by
    obtain ⟨g, rest, hg, hrest, rfl⟩ := genericMembers_cons_eq_some.1 h
    rw [genericMembers, generic_generic hfloat v g hg,
      genericMembers_genericMembers hfloat ms rest hrest]

end

end Generic

/-! ## Decoding into a target -/

/-- The smallest rune that folds with a rune, as far as names of ASCII
letters can tell: two runes that are not ASCII fold with one that is. -/
def foldRune (c : Char) : Char :=
  if 'a' ≤ c ∧ c ≤ 'z' then Char.ofNat (c.toNat - 32)
  else if c = Char.ofNat 0x17F then 'S'
  else if c = Char.ofNat 0x212A then 'K'
  else c

def foldName (name : String) : List Char :=
  name.toList.map foldRune

/-- A member is the field of this name. -/
def isField (name key : String) : Bool :=
  foldName key = foldName name

/-- A string on top of another. -/
def intoString (cur : String) : Value → Option String
  | .str s => some s
  | .null => some cur
  | _ => none

/-- A boolean on top of another. -/
def intoBool (cur : Bool) : Value → Option Bool
  | .bool b => some b
  | .null => some cur
  | _ => none

/-- A `map[string]any`; `none` is the nil map. -/
def intoMap (float : String → Option String) (cur : Option (List (String × Value))) :
    Value → Option (Option (List (String × Value)))
  | .null => some none
  | .obj ms => (genericMembers float ms).map fun l => some (putAll l (cur.getD []))
  | _ => none

theorem isMap_of_intoMap {float : String → Option String} (hfloat : Stable float) {v : Value}
    {l : List (String × Value)} (h : intoMap float none v = some (some l)) : IsMap float l := by
  cases v with
  | obj ms =>
    obtain ⟨gs, hgs, heq⟩ := Option.map_eq_some_iff.1 h
    obtain rfl := Option.some.inj heq
    exact isMap_putAll (genericMembers_genericMembers hfloat ms gs hgs)
  | null => cases Option.some.inj h
  | bool _ | num _ | str _ | arr _ => cases h

theorem IsMap.intoMap_eq {float : String → Option String} {l : List (String × Value)}
    (h : IsMap float l) : intoMap float none (.obj l) = some (some l) := by
  rw [intoMap, h.genericMembers_eq, Option.map_some, Option.getD_none, h.sorted.putAll_eq]

section Targets

variable {α : Type}

/-- A struct, a field at a time. -/
def intoStruct (field : α → String → Value → Option α) (cur : α) : Value → Option α
  | .null => some cur
  | .obj ms => ms.foldlM (fun a p => field a p.1 p.2) cur
  | _ => none

/-- What a pointer points to; `none` is the nil pointer. -/
def intoPointer (zero : α) (dec : α → Value → Option α) (cur : Option α) :
    Value → Option (Option α)
  | .null => some none
  | v => (dec (cur.getD zero) v).map some

/-- A slice: an array, and how much of it is in use. What is not in use any
more is still there when the slice grows again. -/
structure Slice (α : Type) where
  backing : List α
  len : ℕ

def Slice.elems (s : Slice α) : List α :=
  s.backing.take s.len

/-- Elements on top of those of an array. -/
def intoElems (zero : α) (dec : α → Value → Option α) : List α → List Value → Option (List α)
  | backing, [] => some backing
  | backing, v :: vs =>
    match dec (backing.headD zero) v, intoElems zero dec backing.tail vs with
    | some a, some rest => some (a :: rest)
    | _, _ => none

def intoSlice (zero : α) (dec : α → Value → Option α) (cur : Slice α) :
    Value → Option (Slice α)
  | .null => some ⟨[], 0⟩
  | .arr [] => some ⟨[], 0⟩
  | .arr (v :: vs) => (intoElems zero dec cur.backing (v :: vs)).map fun b => ⟨b, (v :: vs).length⟩
  | _ => none

end Targets

end GoJson
