import NodeAgent.Shared.Model.Sharable
import NodeAgent.Common.JsonEffects
/-!
# Where a private key comes from, and what redaction does with it

The private key of a decoded inbound is what the last member that writes
its Reality settings has for it (`reality_decoded`). So two documents that
differ in the key alone differ in one member of one raw inbound, if they
differ in the raw inbounds at all (`located`), and redaction takes the
difference out where it finds the key under the keys it walks
(`redact_eq_iff`).
-/

namespace NodeAgent

open GoJson

variable {K : DocExternals} {float : String → Option String} {s t k : String}
variable {d d' x y : Value} {a b p q : List (String × Value)}

/-! ## The decoded key -/

/-- The Reality settings of an inbound. -/
def InboundDoc.reality (i : InboundDoc) : Option Value :=
  i.streamSettings.bind fun m => m.lookup "realitySettings"

/-- The private key in Reality settings. -/
def keyOf (v : Value) : Option String :=
  (v.get "privateKey").bind Value.string

theorem InboundDoc.privateKey_eq (i : InboundDoc) : i.privateKey = i.reality.bind keyOf := by
  rw [InboundDoc.privateKey, InboundDoc.reality, Option.bind_assoc]
  rfl

/-- What a raw inbound does to the Reality settings of an inbound. -/
def inboundEffect (float : String → Option String) : Effect Value :=
  (Effect.key float "realitySettings").field "streamSettings"

/-- And a document to those of the inbound at a position. -/
def realityEffect (float : String → Option String) (i : ℕ) : Effect Value :=
  ((inboundEffect float).pointer.elem i).field "inbounds"

theorem steady_inboundEffect (float : String → Option String) :
    Effect.Steady (inboundEffect float) :=
  Effect.Steady.field (Effect.steady_key float "realitySettings") "streamSettings"

theorem isField_of_ne {name name' : String} (hname : foldName name ≠ foldName name')
    (h : isField name k = true) : isField name' k = false := by
  rw [isField, decide_eq_true_eq] at h
  rw [isField, decide_eq_false_iff_not, h]
  exact hname

theorem reality_other {i : InboundDoc} {v : Value} {r : Option Value} (hr : r = i.reality)
    (h : isField "streamSettings" k = false) :
    r = (if isField "streamSettings" k then
      Effect.key float "realitySettings" v else none).getD i.reality := by
  rw [h, hr]
  rfl

theorem reality_field {i i' : InboundDoc} {v : Value} (h : i.field float k v = some i') :
    i'.reality = (if isField "streamSettings" k then
      Effect.key float "realitySettings" v else none).getD i.reality := by
  unfold InboundDoc.field at h
  split_ifs at h with htag hlisten hport hprotocol hsettings hstream hsniffing hallocate
  · obtain ⟨x, -, rfl⟩ := Option.map_eq_some_iff.1 h
    exact reality_other rfl (isField_of_ne (by decide) htag)
  · obtain ⟨x, -, rfl⟩ := Option.map_eq_some_iff.1 h
    exact reality_other rfl (isField_of_ne (by decide) hlisten)
  · obtain ⟨x, -, rfl⟩ := Option.map_eq_some_iff.1 h
    exact reality_other rfl (isField_of_ne (by decide) hport)
  · obtain ⟨x, -, rfl⟩ := Option.map_eq_some_iff.1 h
    exact reality_other rfl (isField_of_ne (by decide) hprotocol)
  · obtain ⟨x, -, rfl⟩ := Option.map_eq_some_iff.1 h
    exact reality_other rfl (isField_of_ne (by decide) hsettings)
  · obtain ⟨x, hx, rfl⟩ := Option.map_eq_some_iff.1 h
    rw [hstream]
    exact writes_intoMap float "realitySettings" _ _ _ hx
  · obtain ⟨x, -, rfl⟩ := Option.map_eq_some_iff.1 h
    exact reality_other rfl (isField_of_ne (by decide) hsniffing)
  · obtain ⟨x, -, rfl⟩ := Option.map_eq_some_iff.1 h
    exact reality_other rfl (isField_of_ne (by decide) hallocate)
  · obtain rfl := Option.some.inj h
    exact reality_other rfl (Bool.eq_false_iff.2 hstream)

/-- **The Reality settings of a decoded inbound** are what the document
writes there. -/
theorem reality_decoded {c : Slice (Option InboundDoc)}
    (h : intoStruct (configField float) ⟨[], 0⟩ d = some c) (i : ℕ) :
    (c.backing[i]?.bind fun o => o.bind InboundDoc.reality) =
      (realityEffect float i d).getD none := by
  have hinbound : Writes InboundDoc.reality (intoStruct (InboundDoc.field float))
      (inboundEffect float) := writes_intoStruct fun _ _ _ _ hk => reality_field hk
  have hpointer : Writes (fun o : Option InboundDoc => o.bind InboundDoc.reality)
      (intoPointer InboundDoc.zero (intoStruct (InboundDoc.field float)))
      (inboundEffect float).pointer := writes_intoPointer rfl hinbound
  have hconfig : Writes
      (fun c : Slice (Option InboundDoc) => c.backing[i]?.bind fun o => o.bind InboundDoc.reality)
      (intoStruct (configField float)) (realityEffect float i) := by
    refine writes_intoStruct fun cur k v next hk => ?_
    unfold configField at hk
    split_ifs at hk with hname
    · rw [hname]
      exact writes_intoSlice rfl hpointer i _ _ _ hk
    · obtain rfl := Option.some.inj hk
      rw [Bool.eq_false_iff.2 hname]
      rfl
  exact hconfig _ _ _ h

theorem rawInbounds_eq {l : List Value} (h : rawInbounds d = some l) :
    some l = ((Effect.elems.field "inbounds") d).getD (some []) := by
  obtain ⟨c, hc, rfl⟩ := Option.map_eq_some_iff.1 h
  have hraws : Writes (fun c : Slice Value => some c.elems) (intoStruct rawField)
      (Effect.elems.field "inbounds") := by
    refine writes_intoStruct fun cur k v next hk => ?_
    unfold rawField at hk
    split_ifs at hk with hname
    · rw [hname]
      exact writes_elems .null _ _ _ hk
    · obtain rfl := Option.some.inj hk
      rw [Bool.eq_false_iff.2 hname]
      rfl
  exact hraws _ _ _ hc

theorem exists_rawInbounds {c : Slice (Option InboundDoc)}
    (h : intoStruct (configField float) ⟨[], 0⟩ d = some c) : ∃ l, rawInbounds d = some l := by
  -- whatever is there already, a section that is decoded can be read raw
  have hfield : ∀ (s s' : Slice (Option InboundDoc)) (r : Slice Value) k v,
      configField float s k v = some s' → ∃ r', rawField r k v = some r' := by
    intro s s' r k v hk
    unfold configField at hk
    unfold rawField
    split_ifs at hk ⊢ with hname
    · cases v with
      | null => exact ⟨_, rfl⟩
      | arr vs =>
        cases vs with
        | nil => exact ⟨_, rfl⟩
        | cons v vs =>
          rw [intoSlice, intoElems_overwrite]
          exact ⟨_, rfl⟩
      | bool b => cases hk
      | num n => cases hk
      | str s => cases hk
      | obj ms => cases hk
    · exact ⟨r, rfl⟩
  have hall : ∀ (ms : List (String × Value)) (s s' : Slice (Option InboundDoc)) (r : Slice Value),
      ms.foldlM (fun s p => configField float s p.1 p.2) s = some s' →
        ∃ r', ms.foldlM (fun r p => rawField r p.1 p.2) r = some r' := by
    intro ms
    induction ms with
    | nil => exact fun s s' r _ => ⟨r, rfl⟩
    | cons p ms ih =>
      intro s s' r hs
      rw [List.foldlM_cons] at hs
      obtain ⟨mid, hmid, hrest⟩ := Option.bind_eq_some_iff.1 hs
      obtain ⟨r', hr'⟩ := hfield s mid r p.1 p.2 hmid
      obtain ⟨r'', hr''⟩ := ih mid s' r' hrest
      refine ⟨r'', ?_⟩
      rw [List.foldlM_cons, hr']
      exact hr''
  cases d with
  | null => exact ⟨_, rfl⟩
  | obj ms =>
    obtain ⟨r, hr⟩ := hall ms _ _ ⟨[], 0⟩ h
    exact ⟨r.elems, by rw [rawInbounds, intoStruct, hr]; rfl⟩
  | bool b => cases h
  | num n => cases h
  | str s => cases h
  | arr vs => cases h

/-! ## Where two documents differ -/

/-- **One member of a raw inbound has the key**: it is its stream settings,
however spelt, and the documents differ in the string at the private key of
the Reality settings in it. -/
structure HeldIn (float : String → Option String) (s t k : String) (x y : Value) : Prop where
  field : isField "streamSettings" k = true
  apart : Apart s t x y
  left : ∃ g, Effect.key float "realitySettings" x = some (some g) ∧ keyOf g = some s
  right : ∃ g, Effect.key float "realitySettings" y = some (some g) ∧ keyOf g = some t

theorem getD_eq_some {e : Option (Option Value)} {g : Value} (h : e.getD none = some g) :
    e = some (some g) := by
  cases e with
  | none => cases h
  | some o => exact congrArg some h

theorem effect_ne {e e' : Option (Option Value)} (hs : (e.getD none).bind keyOf = some s)
    (ht : (e'.getD none).bind keyOf = some t) (hne : s ≠ t) : e ≠ e' := by
  rintro rfl
  exact hne (Option.some.inj (hs.symm.trans ht))

theorem held_in_inbound (h : Apart s t x y) (hne : s ≠ t)
    (hs : (((inboundEffect float).pointer x).getD none).bind keyOf = some s)
    (ht : (((inboundEffect float).pointer y).getD none).bind keyOf = some t) :
    ∃ a k b v w, x = .obj (a ++ (k, v) :: b) ∧ y = .obj (a ++ (k, w) :: b) ∧
      HeldIn float s t k v w := by
  have hdiff := effect_ne hs ht hne
  cases h with
  | here => exact absurd rfl hdiff
  | elem u r h => exact absurd rfl hdiff
  | @member v w a k b h =>
    obtain ⟨hk, he, he'⟩ := Effect.field_of_ne (Effect.steady_key float "realitySettings") h hdiff
    have hs' : ((Effect.key float "realitySettings" v).getD none).bind keyOf = some s := by
      rw [← he]
      exact hs
    have ht' : ((Effect.key float "realitySettings" w).getD none).bind keyOf = some t := by
      rw [← he']
      exact ht
    refine ⟨a, k, b, v, w, rfl, rfl, hk, h, ?_, ?_⟩
    · obtain ⟨g, hg, hkey⟩ := Option.bind_eq_some_iff.1 hs'
      exact ⟨g, getD_eq_some hg, hkey⟩
    · obtain ⟨g, hg, hkey⟩ := Option.bind_eq_some_iff.1 ht'
      exact ⟨g, getD_eq_some hg, hkey⟩

theorem held_in_array (h : Apart s t x y) (hne : s ≠ t) {i : ℕ}
    (hs : (((inboundEffect float).pointer.elem i x).getD none).bind keyOf = some s)
    (ht : (((inboundEffect float).pointer.elem i y).getD none).bind keyOf = some t) :
    ∃ u r a k b v w, x = .arr (u ++ .obj (a ++ (k, v) :: b) :: r) ∧
      y = .arr (u ++ .obj (a ++ (k, w) :: b) :: r) ∧ u.length = i ∧ HeldIn float s t k v w := by
  have hdiff := effect_ne hs ht hne
  cases h with
  | here => exact absurd rfl hdiff
  | @elem v w u r h =>
    obtain ⟨hi, he, he'⟩ := Effect.elem_of_ne hdiff
    rw [he] at hs
    rw [he'] at ht
    obtain ⟨a, k, b, v', w', rfl, rfl, hheld⟩ := held_in_inbound h hne hs ht
    exact ⟨u, r, a, k, b, v', w', rfl, rfl, hi, hheld⟩
  | member a k b h => exact absurd rfl hdiff

/-- **The key a decoded inbound holds is in one member of one raw
inbound**, unless the raw inbounds are those of a later section. -/
theorem located (h : Apart s t d d') (hne : s ≠ t) {i : ℕ} {l l' : List Value}
    (hs : ((realityEffect float i d).getD none).bind keyOf = some s)
    (ht : ((realityEffect float i d').getD none).bind keyOf = some t)
    (hl : rawInbounds d = some l) (hl' : rawInbounds d' = some l') :
    l = l' ∨ ∃ u r a k b x y, l = u ++ .obj (a ++ (k, x) :: b) :: r ∧
      l' = u ++ .obj (a ++ (k, y) :: b) :: r ∧ u.length = i ∧ HeldIn float s t k x y := by
  have hdiff := effect_ne hs ht hne
  have hraw := rawInbounds_eq hl
  have hraw' := rawInbounds_eq hl'
  cases h with
  | here => exact absurd rfl hdiff
  | elem u r h => exact absurd rfl hdiff
  | @member v w a k b h =>
    by_cases hsame : Effect.elems.field "inbounds" (.obj (a ++ (k, v) :: b)) =
        Effect.elems.field "inbounds" (.obj (a ++ (k, w) :: b))
    · left
      rw [hsame] at hraw
      exact Option.some.inj (hraw.trans hraw'.symm)
    · right
      obtain ⟨-, hv, hw⟩ := Effect.field_of_ne Effect.steady_elems h hsame
      obtain ⟨-, he, he'⟩ := Effect.field_of_ne
        (Effect.Steady.elem (Effect.Steady.pointer (steady_inboundEffect float)) i) h hdiff
      rw [realityEffect, he] at hs
      rw [realityEffect, he'] at ht
      obtain ⟨u, r, a', k', b', x, y, rfl, rfl, hi, hheld⟩ := held_in_array h hne hs ht
      rw [hv] at hraw
      rw [hw] at hraw'
      exact ⟨u, r, a', k', b', x, y, Option.some.inj hraw, Option.some.inj hraw', hi, hheld⟩

end NodeAgent
