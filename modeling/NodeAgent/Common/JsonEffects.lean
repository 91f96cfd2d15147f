import NodeAgent.Common.GoJson
/-!
# What decoding does to one place

A place of a target — a key of a map, in a field, behind a pointer, in an
element of a slice — is left alone by a document or written by it, and the
last write counts. `Effect` is that, read off the document alone, and
`Writes` says that a decoder does it. Two documents that differ in one
string (`Apart`) leave something else at a place only if the string is in
the part that writes it, which is what the `descend` lemmas find, level by
level.
-/

namespace GoJson

open History

variable {α β : Type}

/-! ## One string apart -/

/-- **Two documents differ in one string**, which is `s` in the one and `t`
in the other. -/
inductive Apart (s t : String) : Value → Value → Prop
  | here : Apart s t (.str s) (.str t)
  | elem {v w : Value} (l r : List Value) :
      Apart s t v w → Apart s t (.arr (l ++ v :: r)) (.arr (l ++ w :: r))
  | member {v w : Value} (a : List (String × Value)) (k : String) (b : List (String × Value)) :
      Apart s t v w → Apart s t (.obj (a ++ (k, v) :: b)) (.obj (a ++ (k, w) :: b))

variable {s t : String} {v w : Value}

theorem Apart.eq_of_eq (h : Apart s t v w) (heq : s = t) : v = w := by
  subst heq
  induction h with
  | here => rfl
  | elem l r h ih => rw [ih]
  | member a k b h ih => rw [ih]

/-! ## Effects -/

/-- **What a document does to a place**: `none` leaves it, `some x` makes
it `x`. -/
abbrev Effect (β : Type) := Value → Option (Option β)

/-- A decoder does that to what `read` reads. -/
def Writes (read : α → Option β) (dec : α → Value → Option α) (e : Effect β) : Prop :=
  ∀ cur v next, dec cur v = some next → read next = (e v).getD (read cur)

namespace Effect

/-- Under a key of a map. -/
def key (float : String → Option String) (k : String) : Effect Value
  | .null => some none
  | .obj ms => lastWrite (fun p => if p.1 = k then some (generic float p.2) else none) ms
  | _ => none

/-- In a field of a struct. -/
def field (name : String) (e : Effect β) : Effect β
  | .obj ms => lastWrite (fun p => if isField name p.1 then e p.2 else none) ms
  | _ => none

/-- Behind a pointer. -/
def pointer (e : Effect β) : Effect β
  | .null => some none
  | v => e v

/-- In an element of a slice. -/
def elem (i : ℕ) (e : Effect β) : Effect β
  | .null => some none
  | .arr [] => some none
  | .arr (v :: vs) => (v :: vs)[i]?.bind e
  | _ => none

/-- The elements of a slice that are overwritten whole. -/
def elems : Effect (List Value)
  | .null => some (some [])
  | .arr vs => some (some vs)
  | _ => none

end Effect

/-! ## The decoders have these effects -/

section Writes

variable {read : α → Option β} {dec : α → Value → Option α} {e : Effect β} {zero : α}

theorem writes_intoMap (float : String → Option String) (k : String) :
    Writes (fun m : Option (List (String × Value)) => m.bind fun l => l.lookup k)
      (intoMap float) (Effect.key float k) := by
  intro cur v next h
  cases v with
  | null =>
    obtain rfl := Option.some.inj h
    rfl
  | obj ms =>
    obtain ⟨gs, hgs, rfl⟩ := Option.map_eq_some_iff.1 h
    show (putAll gs (cur.getD [])).lookup k = _
    rw [lookup_putAll, Effect.key, ← lastWrite_genericMembers hgs k]
    cases lastWrite (fun p => if p.1 = k then some p.2 else none) gs with
    | some g => rfl
    | none =>
      cases cur with
      | none => rfl
      | some l => rfl
  | bool b => cases h
  | num n => cases h
  | str s => cases h
  | arr vs => cases h

theorem writes_intoStruct {step : α → String → Value → Option α} {name : String}
    (hstep : ∀ cur k v next, step cur k v = some next →
      read next = (if isField name k then e v else none).getD (read cur)) :
    Writes read (intoStruct step) (e.field name) := by
  intro cur v next h
  cases v with
  | null =>
    obtain rfl := Option.some.inj h
    rfl
  | obj ms =>
    show read next = (lastWrite _ ms).getD (read cur)
    have hfold : ms.foldlM (fun a p => step a p.1 p.2) cur = some next := h
    clear h
    induction ms generalizing cur with
    | nil =>
      obtain rfl := Option.some.inj hfold
      rfl
    | cons p ms ih =>
      rw [List.foldlM_cons] at hfold
      obtain ⟨mid, hmid, hrest⟩ := Option.bind_eq_some_iff.1 hfold
      rw [ih _ hrest, hstep _ _ _ _ hmid, lastWrite_cons]
      cases lastWrite (fun p => if isField name p.1 then e p.2 else none) ms with
      | none => rfl
      | some x => rfl
  | bool b => cases h
  | num n => cases h
  | str s => cases h
  | arr vs => cases h

theorem writes_intoPointer (hzero : read zero = none) (hdec : Writes read dec e) :
    Writes (fun p : Option α => p.bind read) (intoPointer zero dec) e.pointer := by
  intro cur v next h
  have hcur : cur.bind read = read (cur.getD zero) := by
    cases cur with
    | none => exact hzero.symm
    | some a => rfl
  by_cases hv : v = .null
  · subst hv
    obtain rfl := Option.some.inj h
    rfl
  · have hdecoded : (dec (cur.getD zero) v).map some = some next := by
      cases v <;> first | exact h | exact absurd rfl hv
    have heffect : e.pointer v = e v := by
      cases v <;> first | rfl | exact absurd rfl hv
    obtain ⟨a, ha, rfl⟩ := Option.map_eq_some_iff.1 hdecoded
    show read a = (e.pointer v).getD (cur.bind read)
    rw [heffect, hcur, hdec _ _ _ ha]

theorem getElem?_intoElems {backing next : List α} {vs : List Value}
    (h : intoElems zero dec backing vs = some next) (i : ℕ) :
    (vs[i]? = none → next[i]? = backing[i]?) ∧
      ∀ v, vs[i]? = some v → ∃ a, dec (backing[i]?.getD zero) v = some a ∧ next[i]? = some a := by
  induction vs generalizing backing next i with
  | nil =>
    obtain rfl := Option.some.inj h
    exact ⟨fun _ => rfl, fun v hv => by simp at hv⟩
  | cons v vs ih =>
    rw [intoElems] at h
    cases hdec : dec (backing.headD zero) v with
    | none =>
      rw [hdec] at h
      cases h
    | some a =>
      cases hrest : intoElems zero dec backing.tail vs with
      | none =>
        rw [hdec, hrest] at h
        cases h
      | some rest =>
        rw [hdec, hrest] at h
        obtain rfl := Option.some.inj h
        cases i with
        | zero =>
          refine ⟨fun hnone => by simp at hnone, fun v' hv' => ⟨a, ?_, by simp⟩⟩
          obtain rfl : v = v' := by simpa using hv'
          rw [← hdec]
          cases backing <;> rfl
        | succ i =>
          obtain ⟨hnone, hsome⟩ := ih hrest i
          have htail : backing.tail[i]? = backing[i + 1]? := by
            cases backing <;> simp
          rw [htail] at hnone hsome
          exact ⟨hnone, hsome⟩

theorem writes_intoSlice (hzero : read zero = none) (hdec : Writes read dec e) (i : ℕ) :
    Writes (fun s : Slice α => s.backing[i]?.bind read) (intoSlice zero dec) (e.elem i) := by
  intro cur v next h
  cases v with
  | null =>
    obtain rfl := Option.some.inj h
    rfl
  | arr vs =>
    cases vs with
    | nil =>
      obtain rfl := Option.some.inj h
      rfl
    | cons v vs =>
      obtain ⟨backing, hbacking, rfl⟩ := Option.map_eq_some_iff.1 h
      obtain ⟨hnone, hsome⟩ := getElem?_intoElems hbacking i
      show backing[i]?.bind read = ((v :: vs)[i]?.bind e).getD (cur.backing[i]?.bind read)
      cases hv : (v :: vs)[i]? with
      | none => rw [hnone hv, Option.bind_none, Option.getD_none]
      | some u =>
        obtain ⟨a, ha, hnext⟩ := hsome u hv
        have hcur : cur.backing[i]?.bind read = read (cur.backing[i]?.getD zero) := by
          cases cur.backing[i]? with
          | none => exact hzero.symm
          | some a => rfl
        rw [hnext, Option.bind_some, Option.bind_some, hcur, hdec _ _ _ ha]
  | bool b => cases h
  | num n => cases h
  | str s => cases h
  | obj ms => cases h

theorem intoElems_overwrite (zero : Value) (backing vs : List Value) :
    intoElems zero (fun _ v => some v) backing vs = some (vs ++ backing.drop vs.length) := by
  induction vs generalizing backing with
  | nil => rfl
  | cons v vs ih =>
    rw [intoElems, ih]
    cases backing with
    | nil => simp
    | cons b backing => simp

theorem writes_elems (zero : Value) :
    Writes (fun s : Slice Value => some s.elems) (intoSlice zero fun _ v => some v)
      Effect.elems := by
  intro cur v next h
  cases v with
  | null =>
    obtain rfl := Option.some.inj h
    rfl
  | arr vs =>
    cases vs with
    | nil =>
      obtain rfl := Option.some.inj h
      rfl
    | cons v vs =>
      rw [intoSlice, intoElems_overwrite] at h
      obtain rfl := Option.some.inj h
      show some ((v :: vs ++ cur.backing.drop (v :: vs).length).take (v :: vs).length) = _
      rw [List.take_left]
      rfl
  | bool b => cases h
  | num n => cases h
  | str s => cases h
  | obj ms => cases h

end Writes

/-! ## Two documents at one place -/

namespace Effect

variable {e : Effect β} {x y : Value} {a b : List (String × Value)} {l r : List Value}
variable {float : String → Option String} {name k : String}

/-- Whether a document writes the place does not depend on one string. -/
def Steady (e : Effect β) : Prop :=
  ∀ s t v w, Apart s t v w → (e v).isSome = (e w).isSome

theorem steady_key (float : String → Option String) (k : String) : Steady (key float k) := by
  rintro s t v w (_ | ⟨l, r, h⟩ | ⟨a, k', b, h⟩)
  · rfl
  · rfl
  · rw [key, key, lastWrite_append_cons, lastWrite_append_cons]
    split_ifs <;> simp

theorem Steady.field (he : Steady e) (name : String) : Steady (e.field name) := by
  rintro s t v w (_ | ⟨l, r, h⟩ | ⟨a, k, b, h⟩)
  · rfl
  · rfl
  · rw [Effect.field, Effect.field, lastWrite_append_cons, lastWrite_append_cons]
    simp only [Option.isSome_or]
    split_ifs
    · rw [he _ _ _ _ h]
    · rfl

theorem Steady.pointer (he : Steady e) : Steady e.pointer := by
  rintro s t v w (_ | ⟨l, r, h⟩ | ⟨a, k, b, h⟩)
  · exact he _ _ _ _ .here
  · exact he _ _ _ _ (.elem l r h)
  · exact he _ _ _ _ (.member a k b h)

theorem elem_of_ne_nil {vs : List Value} (hvs : vs ≠ []) (i : ℕ) (e : Effect β) :
    e.elem i (.arr vs) = vs[i]?.bind e := by
  cases vs with
  | nil => exact absurd rfl hvs
  | cons v vs => rfl

theorem Steady.elem (he : Steady e) (i : ℕ) : Steady (e.elem i) := by
  rintro s t v w (_ | ⟨l, r, h⟩ | ⟨a, k, b, h⟩)
  · rfl
  · rw [elem_of_ne_nil (by simp), elem_of_ne_nil (by simp), List.getElem?_append,
      List.getElem?_append]
    split_ifs
    · rfl
    · cases i - l.length with
      | zero => exact he _ _ _ _ h
      | succ n => rfl
  · rfl

theorem steady_elems : Steady elems := by
  rintro s t v w (_ | ⟨l, r, h⟩ | ⟨a, k, b, h⟩)
  · rfl
  · rfl
  · rfl

theorem field_of_ne (he : Steady e) (h : Apart s t x y)
    (hne : e.field name (.obj (a ++ (k, x) :: b)) ≠ e.field name (.obj (a ++ (k, y) :: b))) :
    isField name k = true ∧ e.field name (.obj (a ++ (k, x) :: b)) = e x ∧
      e.field name (.obj (a ++ (k, y) :: b)) = e y := by
  by_cases hk : isField name k = true
  · have hlast := lastWrite_of_ne (f := fun p : String × Value =>
      if isField name p.1 then e p.2 else none) (by simp only [hk, if_true, he _ _ _ _ h]) hne
    simp only [hk, if_true] at hlast
    exact ⟨hk, hlast⟩
  · have hlast := lastWrite_of_ne (f := fun p : String × Value =>
      if isField name p.1 then e p.2 else none) (by rw [if_neg hk, if_neg hk]) hne
    rw [if_neg hk, if_neg hk] at hlast
    exact absurd (hlast.1.trans hlast.2.symm) hne

theorem key_of_ne {k' : String}
    (hne : key float k' (.obj (a ++ (k, x) :: b)) ≠ key float k' (.obj (a ++ (k, y) :: b))) :
    k = k' ∧ key float k' (.obj (a ++ (k, x) :: b)) = some (generic float x) ∧
      key float k' (.obj (a ++ (k, y) :: b)) = some (generic float y) := by
  by_cases hk : k = k'
  · have hlast := lastWrite_of_ne (f := fun p : String × Value =>
      if p.1 = k' then some (generic float p.2) else none) (by simp only [hk, if_true]; rfl) hne
    simp only [hk, if_true] at hlast ⊢
    exact ⟨trivial, hlast⟩
  · have hlast := lastWrite_of_ne (f := fun p : String × Value =>
      if p.1 = k' then some (generic float p.2) else none) (by rw [if_neg hk, if_neg hk]) hne
    rw [if_neg hk, if_neg hk] at hlast
    exact absurd (hlast.1.trans hlast.2.symm) hne

theorem elem_of_ne {i : ℕ} (hne : e.elem i (.arr (l ++ x :: r)) ≠ e.elem i (.arr (l ++ y :: r))) :
    l.length = i ∧ e.elem i (.arr (l ++ x :: r)) = e x ∧ e.elem i (.arr (l ++ y :: r)) = e y := by
  rw [elem_of_ne_nil (by simp), elem_of_ne_nil (by simp)] at hne ⊢
  by_cases hi : l.length = i
  · subst hi
    simp
  · refine absurd (congrArg (Option.bind · e) ?_) hne
    rw [List.getElem?_append, List.getElem?_append]
    split_ifs with hlt
    · rfl
    · obtain ⟨n, hn⟩ : ∃ n, i - l.length = n + 1 := ⟨i - l.length - 1, by omega⟩
      rw [hn, List.getElem?_cons_succ, List.getElem?_cons_succ]

end Effect

/-! ## Their generic forms -/

section Generic

variable {float : String → Option String} {x y : Value} {k j : String}
variable {ms a b p q : List (String × Value)}

theorem isSome_genericElems (vs : List Value) :
    (genericElems float vs).isSome = vs.all fun v => (generic float v).isSome := by
  induction vs with
  | nil => rfl
  | cons v vs ih =>
    rw [genericElems, List.all_cons, ← ih]
    cases generic float v with
    | none => rfl
    | some g => cases genericElems float vs <;> rfl

theorem isSome_genericMembers (ms : List (String × Value)) :
    (genericMembers float ms).isSome = ms.all fun m => (generic float m.2).isSome := by
  induction ms with
  | nil => rfl
  | cons m ms ih =>
    obtain ⟨k, v⟩ := m
    rw [genericMembers, List.all_cons, ← ih]
    cases generic float v with
    | none => rfl
    | some g => cases genericMembers float ms <;> rfl

theorem Apart.isSome_generic (h : Apart s t v w) :
    (generic float v).isSome = (generic float w).isSome := by
  induction h with
  | here => rfl
  | elem l r h ih =>
    rw [generic, generic, Option.isSome_map, Option.isSome_map, isSome_genericElems,
      isSome_genericElems, List.all_append, List.all_append, List.all_cons, List.all_cons, ih]
  | member a k b h ih =>
    rw [generic, generic, Option.isSome_map, Option.isSome_map, isSome_genericMembers,
      isSome_genericMembers, List.all_append, List.all_append, List.all_cons, List.all_cons, ih]

theorem generic_obj_eq_some :
    generic float (.obj ms) = some (.obj p) ↔
      ∃ gs, genericMembers float ms = some gs ∧ p = putAll gs [] := by
  rw [generic, Option.map_eq_some_iff]
  constructor
  · rintro ⟨gs, hgs, hp⟩
    exact ⟨gs, hgs, (Value.obj.inj hp).symm⟩
  · rintro ⟨gs, hgs, rfl⟩
    exact ⟨gs, hgs, rfl⟩

theorem generic_obj_is_obj {g : Value} (h : generic float (.obj ms) = some g) :
    ∃ p, g = .obj p := by
  rw [generic] at h
  obtain ⟨gs, -, rfl⟩ := Option.map_eq_some_iff.1 h
  exact ⟨_, rfl⟩

theorem isSome_of_generic_member (h : generic float (.obj (a ++ (k, x) :: b)) = some (.obj p)) :
    (generic float x).isSome = true := by
  obtain ⟨gs, hgs, -⟩ := generic_obj_eq_some.1 h
  obtain ⟨ga, g, gb, -, hg, -⟩ := genericMembers_append_cons_eq_some.1 hgs
  rw [hg]
  rfl

theorem sorted_of_generic (h : generic float v = some (.obj p)) : Sorted p := by
  cases v with
  | obj ms =>
    obtain ⟨gs, -, rfl⟩ := generic_obj_eq_some.1 h
    exact Sorted.putAll List.Pairwise.nil gs
  | null => cases h
  | bool b => cases h
  | num n =>
    obtain ⟨x, -, hx⟩ := Option.map_eq_some_iff.1 h
    cases hx
  | str s => cases h
  | arr vs =>
    rw [generic] at h
    obtain ⟨x, -, hx⟩ := Option.map_eq_some_iff.1 h
    cases hx

theorem key_eq_lookup (h : generic float (.obj ms) = some (.obj p)) (k : String) :
    Effect.key float k (.obj ms) = (p.lookup k).map some := by
  obtain ⟨gs, hgs, rfl⟩ := generic_obj_eq_some.1 h
  rw [Effect.key, ← lastWrite_genericMembers hgs k, lookup_putAll]
  exact congrArg (Option.map some) Option.or_none.symm

/-- **Objects that differ in one member** have generic forms that differ at
most under its key, and there only if it is the last member so spelt. -/
theorem generic_member (hp : generic float (.obj (a ++ (k, x) :: b)) = some (.obj p))
    (hq : generic float (.obj (a ++ (k, y) :: b)) = some (.obj q)) :
    AgreeOff k p q ∧ (p.lookup k ≠ q.lookup k →
      p.lookup k = generic float x ∧ q.lookup k = generic float y) := by
  constructor
  · obtain ⟨gs, hgs, rfl⟩ := generic_obj_eq_some.1 hp
    obtain ⟨gs', hgs', rfl⟩ := generic_obj_eq_some.1 hq
    obtain ⟨ga, g, gb, ha, -, hb, rfl⟩ := genericMembers_append_cons_eq_some.1 hgs
    obtain ⟨ga', g', gb', ha', -, hb', rfl⟩ := genericMembers_append_cons_eq_some.1 hgs'
    obtain rfl := Option.some.inj (ha.symm.trans ha')
    obtain rfl := Option.some.inj (hb.symm.trans hb')
    exact agreeOff_putAll ga gb k g g'
  · intro hne
    have hp' := key_eq_lookup hp k
    have hq' := key_eq_lookup hq k
    have hkey : Effect.key float k (.obj (a ++ (k, x) :: b)) ≠
        Effect.key float k (.obj (a ++ (k, y) :: b)) := by
      rw [hp', hq']
      exact fun heq => hne (Option.map_injective (fun _ _ => Option.some.inj) heq)
    obtain ⟨-, hx, hy⟩ := Effect.key_of_ne hkey
    rw [hp', Option.map_eq_some_iff] at hx
    rw [hq', Option.map_eq_some_iff] at hy
    obtain ⟨g, hg, hgx⟩ := hx
    obtain ⟨g', hg', hgy⟩ := hy
    exact ⟨hg.trans hgx, hg'.trans hgy⟩

/-- **Generic forms of documents one string apart that differ under a key
differ nowhere else**, and what they have there are such forms again. -/
theorem Apart.generic_obj (h : Apart s t v w) (hp : generic float v = some (.obj p))
    (hq : generic float w = some (.obj q)) (hne : p.lookup j ≠ q.lookup j) :
    AgreeOff j p q ∧ ∃ v' w', Apart s t v' w' ∧ p.lookup j = generic float v' ∧
      q.lookup j = generic float w' := by
  cases h with
  | here => cases hp
  | elem l r h =>
    rw [generic] at hp
    obtain ⟨x, -, hx⟩ := Option.map_eq_some_iff.1 hp
    cases hx
  | member a k b h =>
    obtain ⟨hoff, hlast⟩ := generic_member hp hq
    obtain rfl : j = k := by
      by_contra hj
      exact hne (hoff j hj)
    exact ⟨hoff, _, _, h, hlast hne⟩

end Generic

end GoJson
