import NodeAgent.Shared.Helpers.Sharable
import NodeAgent.Shared.Model.Run
/-!
# Customers and the private key

Two running configurations that differ in a private key alone, the two keys
with one public key, should be shown alike. Redaction looks the key up under
the names as `streamSettings` is spelt in the documentation, in a generic
reading of the inbound; the core reads it whatever the case of the letters.
So it is exact to say that nothing of the key is shown where the inbound is
not, where a later member spelt alike hides the one with the key, or where
redaction finds the key and it is not empty. Any other spelling is shown as
it is, and so is an inbound with a number the generic reading cannot hold.
-/

namespace NodeAgent

open GoJson

variable {K : DocExternals} {s t k : String} {x y : Value} {a b p q : List (String × Value)}

/-- The key that redaction looks at. -/
def walkedKey (m : List (String × Value)) : Option String :=
  ((m.lookup "streamSettings").bind fun v => v.get "realitySettings").bind keyOf

/-- **A raw inbound does not show which of two keys it has.** -/
inductive Hidden (float : String → Option String) (s t : String) (x y : Value) : Prop
  /-- It has neither. -/
  | elsewhere (h : x = y)
  /-- It has, under a member that a later one takes the place of. -/
  | shadowed {g : Value} (hx : generic float x = some g) (hy : generic float y = some g)
  /-- Redaction finds it. -/
  | stripped {m m' : List (String × Value)} (hx : generic float x = some (.obj m))
      (hy : generic float y = some (.obj m')) (hs : walkedKey m = some s)
      (ht : walkedKey m' = some t) (hs0 : s ≠ "") (ht0 : t ≠ "")

/-! ## Redaction -/

variable {m : List (String × Value)}

theorem walkedKey_eq_some :
    walkedKey m = some s ↔ ∃ ss rs, m.lookup "streamSettings" = some (.obj ss) ∧
      ss.lookup "realitySettings" = some (.obj rs) ∧
        rs.lookup "privateKey" = some (.str s) := by
  constructor
  · intro h
    obtain ⟨r, hr, hkey⟩ := Option.bind_eq_some_iff.1 h
    obtain ⟨v, hv, hget⟩ := Option.bind_eq_some_iff.1 hr
    obtain ⟨w, hw, hstr⟩ := Option.bind_eq_some_iff.1 hkey
    cases v with
    | obj ss =>
      cases r with
      | obj rs =>
        cases w with
        | str s' =>
          obtain rfl := Option.some.inj hstr
          exact ⟨ss, rs, hv, hget, hw⟩
        | _ => cases hstr
      | _ => cases hw
    | _ => cases hget
  · rintro ⟨ss, rs, hss, hrs, hpk⟩
    simp only [walkedKey, hss, Option.bind_some, Value.get, hrs, keyOf, hpk, Value.string]

/-- The Reality settings as they are shown. -/
def shownSettings (pub : Option String) (rs : List (String × Value)) : List (String × Value) :=
  delete "privateKey" (match pub with
    | some pub => put "publicKey" (.str pub) rs
    | none => rs)

theorem lookup_shownSettings (pub : Option String) (rs : List (String × Value)) :
    (shownSettings pub rs).lookup "privateKey" = none := by
  unfold shownSettings
  rw [lookup_delete, if_pos rfl]

theorem redactReality_eq {m ss rs : List (String × Value)}
    (hss : m.lookup "streamSettings" = some (.obj ss))
    (hrs : ss.lookup "realitySettings" = some (.obj rs))
    (hpk : rs.lookup "privateKey" = some (.str s)) :
    redactReality K m = if s = "" then m else
      put "streamSettings" (.obj (put "realitySettings"
        (.obj (shownSettings (realityPublicKey K s) rs)) ss)) m := by
  simp only [redactReality, hss, hrs, hpk, ne_eq, ite_not]
  split_ifs
  · rfl
  · cases realityPublicKey K s with
    | none => rfl
    | some pub => rfl

theorem lookup_redactReality (hk : k ≠ "streamSettings") :
    (redactReality K m).lookup k = m.lookup k := by
  unfold redactReality
  split
  · split
    · split
      · split_ifs
        · rw [lookup_put, if_neg hk]
        · rfl
      · rfl
    · rfl
  · rfl

theorem walkedKey_redactReality (hs : walkedKey m = some s)
    (hne : s ≠ "") : walkedKey (redactReality K m) = none := by
  obtain ⟨ss, rs, hss, hrs, hpk⟩ := walkedKey_eq_some.1 hs
  rw [redactReality_eq hss hrs hpk, if_neg hne, walkedKey, lookup_put, if_pos rfl,
    Option.bind_some, Value.get, lookup_put, if_pos rfl, Option.bind_some, keyOf, Value.get,
    lookup_shownSettings]
  rfl

theorem shownSettings_congr {rs rs' : List (String × Value)} (pub : Option String)
    (hoff : AgreeOff "privateKey" rs rs') (h : Sorted rs) (h' : Sorted rs') :
    shownSettings pub rs = shownSettings pub rs' := by
  unfold shownSettings
  cases pub with
  | none => exact hoff.delete_eq h h'
  | some pub => exact (hoff.put "publicKey" (.str pub)).delete_eq (h.put _ _) (h'.put _ _)

/-- **Where redaction finds both keys and neither is empty, they leave no
trace.** -/
theorem redactReality_congr {m m' : List (String × Value)} (h : Apart s t x y) (hne : s ≠ t)
    (hx : generic K.float x = some (.obj m)) (hy : generic K.float y = some (.obj m'))
    (hs : walkedKey m = some s) (ht : walkedKey m' = some t) (hs0 : s ≠ "") (ht0 : t ≠ "")
    (hpub : realityPublicKey K s = realityPublicKey K t) :
    redactReality K m = redactReality K m' := by
  obtain ⟨ss, rs, hss, hrs, hpk⟩ := walkedKey_eq_some.1 hs
  obtain ⟨ss', rs', hss', hrs', hpk'⟩ := walkedKey_eq_some.1 ht
  -- the documents differ at the key, so level by level they differ under its name only
  have hne₃ : rs.lookup "privateKey" ≠ rs'.lookup "privateKey" := by
    rw [hpk, hpk']
    exact fun heq => hne (Value.str.inj (Option.some.inj heq))
  have hne₂ : ss.lookup "realitySettings" ≠ ss'.lookup "realitySettings" := by
    rw [hrs, hrs']
    intro heq
    rw [Value.obj.inj (Option.some.inj heq)] at hne₃
    exact hne₃ rfl
  have hne₁ : m.lookup "streamSettings" ≠ m'.lookup "streamSettings" := by
    rw [hss, hss']
    intro heq
    rw [Value.obj.inj (Option.some.inj heq)] at hne₂
    exact hne₂ rfl
  obtain ⟨hoff₁, v, w, h₂, hv, hw⟩ := h.generic_obj hx hy hne₁
  rw [hss] at hv
  rw [hss'] at hw
  obtain ⟨hoff₂, v', w', h₃, hv', hw'⟩ := h₂.generic_obj hv.symm hw.symm hne₂
  rw [hrs] at hv'
  rw [hrs'] at hw'
  obtain ⟨hoff₃, -⟩ := h₃.generic_obj hv'.symm hw'.symm hne₃
  have hshown := shownSettings_congr (realityPublicKey K s) hoff₃ (sorted_of_generic hv'.symm)
    (sorted_of_generic hw'.symm)
  rw [redactReality_eq hss hrs hpk, redactReality_eq hss' hrs' hpk', if_neg hs0, if_neg ht0,
    ← hpub, hshown, hoff₂.put_eq (sorted_of_generic hv.symm) (sorted_of_generic hw.symm),
    hoff₁.put_eq (sorted_of_generic hx) (sorted_of_generic hy)]

theorem redactInboundSecrets_obj (ms : List (String × Value)) :
    redactInboundSecrets K (.obj ms) =
      match generic K.float (.obj ms) with
      | some (.obj m) => .obj (redactReality K m)
      | _ => .obj ms := by
  rw [redactInboundSecrets, intoMap, generic]
  cases genericMembers K.float ms with
  | none => rfl
  | some gs => rfl

theorem get_of_held {g gx : Value} (hg : Effect.key K.float "realitySettings" x = some (some g))
    (hx : generic K.float x = some gx) : gx.get "realitySettings" = some g := by
  cases x with
  | obj ms =>
    rw [generic] at hx
    obtain ⟨gs, hgs, rfl⟩ := Option.map_eq_some_iff.1 hx
    have hobj : generic K.float (.obj ms) = some (.obj (putAll gs [])) :=
      generic_obj_eq_some.2 ⟨gs, hgs, rfl⟩
    rw [key_eq_lookup hobj] at hg
    obtain ⟨v, hv, hvg⟩ := Option.map_eq_some_iff.1 hg
    exact hv.trans hvg
  | null => cases hg
  | bool b => cases hg
  | num n => cases hg
  | str s => cases hg
  | arr vs => cases hg

theorem HeldIn.ne (h : HeldIn K.float s t k x y) (hne : s ≠ t) : x ≠ y := by
  rintro rfl
  obtain ⟨g, hg, hs⟩ := h.left
  obtain ⟨g', hg', ht⟩ := h.right
  obtain rfl : g = g' := Option.some.inj (Option.some.inj (hg.symm.trans hg'))
  exact hne (Option.some.inj (hs.symm.trans ht))

theorem redactReality_of_empty (h : walkedKey m = some "") :
    redactReality K m = m := by
  obtain ⟨ss, rs, hss, hrs, hpk⟩ := walkedKey_eq_some.1 h
  rw [redactReality_eq hss hrs hpk, if_pos rfl]

theorem redactReality_eq_iff (h : HeldIn K.float s t k x y) (hne : s ≠ t)
    (hpub : realityPublicKey K s = realityPublicKey K t)
    (hp : generic K.float (.obj (a ++ (k, x) :: b)) = some (.obj p))
    (hq : generic K.float (.obj (a ++ (k, y) :: b)) = some (.obj q)) :
    redactReality K p = redactReality K q ↔
      p = q ∨ walkedKey p = some s ∧ walkedKey q = some t ∧ s ≠ "" ∧ t ≠ "" := by
  obtain ⟨hoff, hlast⟩ := generic_member hp hq
  by_cases hk : p.lookup k = q.lookup k
  · -- a later member spelt alike is what both are read as
    obtain rfl : p = q := by
      refine (sorted_of_generic hp).ext (sorted_of_generic hq) fun j => ?_
      by_cases hj : j = k
      · rw [hj, hk]
      · exact hoff j hj
    exact iff_of_true rfl (Or.inl rfl)
  · have hpq : p ≠ q := fun heq => hk (by rw [heq])
    rw [or_iff_right hpq]
    obtain ⟨hx, hy⟩ := hlast hk
    by_cases hname : k = "streamSettings"
    · subst hname
      have hs : walkedKey p = some s := by
        obtain ⟨g, hg, hkey⟩ := h.left
        obtain ⟨gx, hgx⟩ : ∃ gx, generic K.float x = some gx :=
          Option.isSome_iff_exists.1 (isSome_of_generic_member hp)
        rw [walkedKey, hx, hgx, Option.bind_some, get_of_held hg hgx, Option.bind_some, hkey]
      have ht : walkedKey q = some t := by
        obtain ⟨g, hg, hkey⟩ := h.right
        obtain ⟨gy, hgy⟩ : ∃ gy, generic K.float y = some gy :=
          Option.isSome_iff_exists.1 (isSome_of_generic_member hq)
        rw [walkedKey, hy, hgy, Option.bind_some, get_of_held hg hgy, Option.bind_some, hkey]
      constructor
      · intro heq
        refine ⟨hs, ht, ?_, ?_⟩
        · -- an empty key stays, and the other one is taken out
          rintro rfl
          have hgone := walkedKey_redactReality (K := K) ht (Ne.symm hne)
          rw [← heq, redactReality_of_empty hs, hs] at hgone
          cases hgone
        · rintro rfl
          have hgone := walkedKey_redactReality (K := K) hs hne
          rw [heq, redactReality_of_empty ht, ht] at hgone
          cases hgone
      · rintro ⟨-, -, hs0, ht0⟩
        exact redactReality_congr (.member a _ b h.apart) hne hp hq hs ht hs0 ht0 hpub
    · refine iff_of_false (fun heq => ?_) ?_
      · have hlookup := congrArg (List.lookup k) heq
        rw [lookup_redactReality hname, lookup_redactReality hname] at hlookup
        exact hk hlookup
      · rintro ⟨hs, ht, -⟩
        have hsame : walkedKey p = walkedKey q := by
          rw [walkedKey, walkedKey, hoff _ (Ne.symm hname)]
        exact hne (Option.some.inj (hs.symm.trans (hsame.trans ht)))

/-- **Redaction makes two raw inbounds with different keys the same exactly
where they do not show them.** -/
theorem redact_eq_iff (h : HeldIn K.float s t k x y) (hne : s ≠ t)
    (hpub : realityPublicKey K s = realityPublicKey K t) :
    redactInboundSecrets K (.obj (a ++ (k, x) :: b)) =
        redactInboundSecrets K (.obj (a ++ (k, y) :: b)) ↔
      Hidden K.float s t (.obj (a ++ (k, x) :: b)) (.obj (a ++ (k, y) :: b)) := by
  have hobj : Value.obj (a ++ (k, x) :: b) ≠ .obj (a ++ (k, y) :: b) := by
    intro heq
    have hcons := List.append_cancel_left (Value.obj.inj heq)
    exact h.ne hne (Prod.mk.inj (List.cons.inj hcons).1).2
  have hsome : (generic K.float (.obj (a ++ (k, x) :: b))).isSome =
      (generic K.float (.obj (a ++ (k, y) :: b))).isSome :=
    (Apart.member a k b h.apart).isSome_generic
  rw [redactInboundSecrets_obj, redactInboundSecrets_obj]
  cases hg : generic K.float (.obj (a ++ (k, x) :: b)) with
  | none =>
    -- neither can be read, and both are given out as they are
    rw [hg] at hsome
    have hg' : generic K.float (.obj (a ++ (k, y) :: b)) = none := by
      simpa using hsome.symm
    rw [hg']
    refine iff_of_false hobj ?_
    rintro (heq | ⟨hx, -⟩ | ⟨hx, -⟩)
    · exact hobj heq
    · cases hg.symm.trans hx
    · cases hg.symm.trans hx
  | some g =>
    rw [hg] at hsome
    obtain ⟨g', hg'⟩ := Option.isSome_iff_exists.1 hsome.symm
    obtain ⟨p, rfl⟩ := generic_obj_is_obj hg
    obtain ⟨q, rfl⟩ := generic_obj_is_obj hg'
    rw [hg']
    simp only [Value.obj.injEq]
    rw [redactReality_eq_iff h hne hpub hg hg']
    constructor
    · rintro (rfl | ⟨hs, ht, hs0, ht0⟩)
      · exact .shadowed hg hg'
      · exact .stripped hg hg' hs ht hs0 ht0
    · rintro (heq | ⟨hx, hy⟩ | ⟨hx, hy, hs, ht, hs0, ht0⟩)
      · exact absurd heq hobj
      · exact Or.inl (Value.obj.inj (Option.some.inj ((hg.symm.trans hx).trans
          (hy.symm.trans hg'))))
      · obtain rfl := Value.obj.inj (Option.some.inj (hg.symm.trans hx))
        obtain rfl := Value.obj.inj (Option.some.inj (hg'.symm.trans hy))
        exact Or.inr ⟨hs, ht, hs0, ht0⟩

/-! ## What is shared -/

/-- A raw inbound is among those that are given out. -/
def IsShared (forceInbounds : List String) (inbounds : List Value) (x : Value) : Prop :=
  forceInbounds = [] ∨ isForced forceInbounds x = true ∨
    inbounds.filter (isForced forceInbounds) = []

theorem metaTag_congr (hk : isField "streamSettings" k = true) :
    metaTag (.obj (a ++ (k, x) :: b)) = metaTag (.obj (a ++ (k, y) :: b)) := by
  have htag : isField "tag" k = false := isField_of_ne (by decide) hk
  have hskip : ∀ tag v, metaField tag k v = some tag := fun tag v => by
    rw [metaField, htag]
    rfl
  simp only [metaTag, intoStruct, List.foldlM_append, List.foldlM_cons, hskip]

theorem keepInbounds_middle {force : List String} {u r : List Value}
    (hforced : isForced force x = isForced force y) :
    (IsShared force (u ++ x :: r) x ∧ ∃ u' r', keepInbounds force (u ++ x :: r) = u' ++ x :: r' ∧
        keepInbounds force (u ++ y :: r) = u' ++ y :: r') ∨
      ¬ IsShared force (u ++ x :: r) x ∧
        keepInbounds force (u ++ x :: r) = keepInbounds force (u ++ y :: r) := by
  unfold IsShared keepInbounds
  by_cases hnil : force = []
  · subst hnil
    exact Or.inl ⟨Or.inl rfl, u, r, rfl, rfl⟩
  · have hpos : 0 < force.length := List.length_pos_iff.2 hnil
    simp only [hpos, if_true, List.filter_append, List.filter_cons, ← hforced]
    cases hx : isForced force x with
    | true =>
      simp only [if_true, List.length_append, List.length_cons]
      rw [if_pos (by omega), if_pos (by omega)]
      exact Or.inl ⟨Or.inr (Or.inl trivial), _, _, rfl, rfl⟩
    | false =>
      simp only [Bool.false_eq_true, if_false]
      by_cases hempty : u.filter (isForced force) ++ r.filter (isForced force) = []
      · rw [hempty]
        exact Or.inl ⟨Or.inr (Or.inr rfl), u, r, rfl, rfl⟩
      · have hlen := List.length_pos_iff.2 hempty
        rw [if_pos hlen, if_pos hlen]
        refine Or.inr ⟨?_, rfl⟩
        rintro (h | h | h)
        · exact hnil h
        · cases h
        · exact hempty h

/-- **Nothing of the key is given out**: the raw inbound at its place is
not shared, or does not show it. -/
def KeptBack (K : DocExternals) (force : List String) (d d' : Value) (i : ℕ) (s t : String) :
    Prop :=
  ∀ l l' x y, rawInbounds d = some l → rawInbounds d' = some l' → l[i]? = some x →
    l'[i]? = some y → IsShared force l x → Hidden K.float s t x y

theorem effect_of_newConfig {c : String} {d : Value} {inbounds : List InboundDoc}
    {ib : InboundDoc} {i : ℕ} (hd : K.parse c = some d) (hc : newConfig K c = .ok inbounds)
    (hi : inbounds[i]? = some ib) (hs : ib.privateKey = some s) :
    ((realityEffect K.float i d).getD none).bind keyOf = some s ∧
      ∃ l, rawInbounds d = some l := by
  rw [newConfig, hd] at hc
  simp only at hc
  cases hslice : intoStruct (configField K.float) ⟨[], 0⟩ d with
  | none =>
    rw [hslice] at hc
    cases hc
  | some sl =>
    rw [hslice] at hc
    simp only at hc
    split_ifs at hc
    cases hall : sl.elems.mapM id with
    | none =>
      rw [hall] at hc
      cases hc
    | some l =>
      rw [hall] at hc
      obtain rfl := Except.ok.inj hc
      have helems : sl.elems = l.map some := by
        rw [← Ranging.mapM_eq_some_iff.1 hall, List.map_id]
      have hat : sl.elems[i]? = some (some ib) := by
        rw [helems, List.getElem?_map, hi]
        rfl
      have hbacking : sl.backing[i]? = some (some ib) := by
        rw [Slice.elems, List.getElem?_take] at hat
        split_ifs at hat
        exact hat
      refine ⟨?_, exists_rawInbounds hslice⟩
      rw [← reality_decoded hslice i, hbacking, Option.bind_some, Option.bind_some,
        ← InboundDoc.privateKey_eq]
      exact hs

theorem ne_empty_of_parse {c : String} {d : Value} (hd : K.parse c = some d) : c ≠ "" := by
  rintro rfl
  cases K.parse_empty.symm.trans hd

theorem sharableInbounds_eq {m : Manager} {c : String} {d : Value} {l : List Value}
    (hd : K.parse c = some d) (hl : rawInbounds d = some l) :
    { m with config := c }.sharableInbounds K = .ok (.obj [("inbounds",
      .arr ((keepInbounds m.forceInbounds l).map (redactInboundSecrets K)))]) := by
  rw [Manager.sharableInbounds, if_neg (ne_empty_of_parse hd), hd, Option.bind_some, hl]

/-- **The document a customer is shown tells two keys of one public key
apart exactly where one of them is not kept back.** -/
theorem shown_alike_iff {m : Manager} {c c' : String} {d d' : Value} {i : ℕ}
    {inbounds inbounds' : List InboundDoc} {ib ib' : InboundDoc}
    (hd : K.parse c = some d) (hd' : K.parse c' = some d') (happ : Apart s t d d')
    (hc : newConfig K c = .ok inbounds) (hc' : newConfig K c' = .ok inbounds')
    (hi : inbounds[i]? = some ib) (hi' : inbounds'[i]? = some ib')
    (hs : ib.privateKey = some s) (ht : ib'.privateKey = some t)
    (hpub : realityPublicKey K s = realityPublicKey K t) :
    { m with config := c }.sharableInbounds K = { m with config := c' }.sharableInbounds K ↔
      s = t ∨ KeptBack K m.forceInbounds d d' i s t := by
  obtain ⟨heff, l, hl⟩ := effect_of_newConfig hd hc hi hs
  obtain ⟨heff', l', hl'⟩ := effect_of_newConfig hd' hc' hi' ht
  rw [sharableInbounds_eq hd hl, sharableInbounds_eq hd' hl']
  by_cases hne : s = t
  · obtain rfl := happ.eq_of_eq hne
    obtain rfl := Option.some.inj (hl.symm.trans hl')
    exact iff_of_true rfl (Or.inl hne)
  · rw [or_iff_right hne]
    simp only [Except.ok.injEq, Value.obj.injEq, List.cons.injEq, Prod.mk.injEq, Value.arr.injEq,
      true_and, and_true]
    rcases located happ hne heff heff' hl hl' with rfl | ⟨u, r, a, k, b, x, y, rfl, rfl, hlen, h⟩
    · -- the raw inbounds are the same
      refine iff_of_true rfl fun l₁ l₂ x y h₁ h₂ hx hy _ => ?_
      obtain rfl := Option.some.inj (hl.symm.trans h₁)
      obtain rfl := Option.some.inj (hl'.symm.trans h₂)
      exact .elsewhere (Option.some.inj (hx.symm.trans hy))
    · have hforced : isForced m.forceInbounds (.obj (a ++ (k, x) :: b)) =
          isForced m.forceInbounds (.obj (a ++ (k, y) :: b)) := by
        rw [isForced, isForced, metaTag_congr h.field]
      have hback : KeptBack K m.forceInbounds d d' i s t ↔
          (IsShared m.forceInbounds (u ++ .obj (a ++ (k, x) :: b) :: r)
              (.obj (a ++ (k, x) :: b)) →
            Hidden K.float s t (.obj (a ++ (k, x) :: b)) (.obj (a ++ (k, y) :: b))) := by
        constructor
        · intro hkept hshared
          exact hkept _ _ _ _ hl hl' (by simp [← hlen]) (by simp [← hlen]) hshared
        · intro hkept l₁ l₂ x₁ y₁ h₁ h₂ hx hy hshared
          obtain rfl := Option.some.inj (hl.symm.trans h₁)
          obtain rfl := Option.some.inj (hl'.symm.trans h₂)
          obtain rfl : .obj (a ++ (k, x) :: b) = x₁ := by simpa [← hlen] using hx
          obtain rfl : .obj (a ++ (k, y) :: b) = y₁ := by simpa [← hlen] using hy
          exact hkept hshared
      rw [hback]
      rcases keepInbounds_middle (x := .obj (a ++ (k, x) :: b)) (y := .obj (a ++ (k, y) :: b))
        hforced with ⟨hshared, u', r', hu, hu'⟩ | ⟨hnot, hsame⟩
      · rw [hu, hu', List.map_append, List.map_append, List.map_cons, List.map_cons,
          List.append_cancel_left_eq, List.cons.injEq, and_iff_left rfl, redact_eq_iff h hne hpub]
        exact ⟨fun hh _ => hh, fun hh => hh hshared⟩
      · rw [hsame]
        exact iff_of_true rfl fun hshared => absurd hshared hnot

/-! ## Two spellings -/

theorem realityPublicKey_pad (K : DocExternals) (key : String) :
    realityPublicKey K (key ++ "=") = realityPublicKey K key := by
  have htrim : ((key ++ "=").toList.reverse.dropWhile (· = '=')) =
      key.toList.reverse.dropWhile (· = '=') := by
    rw [String.toList_append, List.reverse_append]
    rfl
  simp only [realityPublicKey, htrim]

namespace Demo

def document (spelling key : String) : Value :=
  .obj [("inbounds", .arr [.obj [
    (spelling, .obj [("realitySettings", .obj [("privateKey", .str key)])]),
    ("tag", .str "in")]])]

def text (spelling key : String) : String :=
  "\x7b\"inbounds\":[\x7b\"" ++ spelling ++
    "\":\x7b\"realitySettings\":\x7b\"privateKey\":\"" ++ key ++
    "\"\x7d\x7d,\"tag\":\"in\"\x7d]\x7d"

def key : String := "WMHfHKQjPbTNbeKr0PmCvFjyhZjUbqI0c5q3oRZ7Ykg"

/-- A parser that knows such texts for that key, with its padding and
without. -/
def docs : DocExternals where
  parse := fun c => ([("streamSettings", key), ("streamSettings", key ++ "="),
    ("StreamSettings", key), ("StreamSettings", key ++ "=")].map
      fun p => (text p.1 p.2, document p.1 p.2)).lookup c
  parse_empty := by decide
  float := some
  sections := fun _ => true
  x25519 := some

theorem apart_document (spelling s t : String) :
    Apart s t (document spelling s) (document spelling t) :=
  .member [] "inbounds" [] (.elem [] [] (.member [] spelling _
    (.member [] "realitySettings" [] (.member [] "privateKey" [] .here))))

def inboundDoc (key : String) : InboundDoc :=
  { InboundDoc.zero with
    tag := "in"
    streamSettings := some [("realitySettings", .obj [("privateKey", .str key)])] }

end Demo

/-- With the name as it is documented, nothing of the key is left. -/
theorem documented_spelling_alike :
    let m := Demo.node ["a"]
    { m with config := Demo.text "streamSettings" Demo.key }.sharableInbounds Demo.docs =
      { m with config := Demo.text "streamSettings" (Demo.key ++ "=") }.sharableInbounds
        Demo.docs := by
  intro m
  have hback : KeptBack Demo.docs m.forceInbounds (Demo.document "streamSettings" Demo.key)
      (Demo.document "streamSettings" (Demo.key ++ "=")) 0 Demo.key (Demo.key ++ "=") := by
    intro l l' x y hl hl' hx hy _
    obtain rfl := Option.some.inj hl
    obtain rfl := Option.some.inj hl'
    obtain rfl := Option.some.inj hx
    obtain rfl := Option.some.inj hy
    exact .stripped rfl rfl rfl rfl (by decide) (by decide)
  have hpub := (realityPublicKey_pad Demo.docs Demo.key).symm
  have hs : (Demo.inboundDoc Demo.key).privateKey = some Demo.key := rfl
  have ht : (Demo.inboundDoc (Demo.key ++ "=")).privateKey = some (Demo.key ++ "=") := rfl
  exact (shown_alike_iff rfl rfl (Demo.apart_document _ _ _) rfl rfl rfl rfl hs ht hpub).2
    (Or.inr hback)

/-- **With a capital letter the core runs on the same keys, and a customer
is shown them.** -/
theorem other_spelling_shown :
    let c := Demo.text "StreamSettings" Demo.key
    let c' := Demo.text "StreamSettings" (Demo.key ++ "=")
    let m := Demo.node ["a"]
    Demo.docs.parse c = some (Demo.document "StreamSettings" Demo.key) ∧
      Demo.docs.parse c' = some (Demo.document "StreamSettings" (Demo.key ++ "=")) ∧
      Apart Demo.key (Demo.key ++ "=") (Demo.document "StreamSettings" Demo.key)
        (Demo.document "StreamSettings" (Demo.key ++ "=")) ∧
      newConfig Demo.docs c = .ok [Demo.inboundDoc Demo.key] ∧
      newConfig Demo.docs c' = .ok [Demo.inboundDoc (Demo.key ++ "=")] ∧
      (Demo.inboundDoc Demo.key).privateKey = some Demo.key ∧
      (Demo.inboundDoc (Demo.key ++ "=")).privateKey = some (Demo.key ++ "=") ∧
      realityPublicKey Demo.docs Demo.key = realityPublicKey Demo.docs (Demo.key ++ "=") ∧
      { m with config := c }.sharableInbounds Demo.docs =
        .ok (Demo.document "StreamSettings" Demo.key) ∧
      { m with config := c }.sharableInbounds Demo.docs ≠
        { m with config := c' }.sharableInbounds Demo.docs := by
  intro c c' m
  have hshown : { m with config := c }.sharableInbounds Demo.docs =
      .ok (Demo.document "StreamSettings" Demo.key) := rfl
  have hshown' : { m with config := c' }.sharableInbounds Demo.docs =
      .ok (Demo.document "StreamSettings" (Demo.key ++ "=")) := rfl
  refine ⟨rfl, rfl, Demo.apart_document _ _ _, rfl, rfl, rfl, rfl,
    (realityPublicKey_pad Demo.docs Demo.key).symm, hshown, ?_⟩
  rw [hshown, hshown']
  intro heq
  have hkeys : Demo.key = Demo.key ++ "=" := by
    simpa [Demo.document] using heq
  exact absurd hkeys (by decide)

end NodeAgent
