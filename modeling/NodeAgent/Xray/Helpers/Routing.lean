import NodeAgent.Xray.Model.Routing
/-!
# The rules, the selectors and the policy

What the parts of `ApplyAPI` do, each against a statement of what it is
for. Replacing `geoip:private` under `ip` and `source` is `expandRule` of
the decoded rule, and dropping the node's own rules is a `filter`; both
look at decoded rules only, and a rule written out again decodes to what
was written. What each part leaves, it leaves as it is the second time.
-/

namespace NodeAgent

open GoJson GoStrings

/-! ## Replacing -/

/-- The entries an entry of a list is replaced by. -/
def expandEntry (entry : Value) : List Value :=
  if isGeoIPPrivate entry then privateCIDRs.map .str else [entry]

/-- **A list with every `geoip:private` replaced in place**; another value is
kept. -/
def expandPrivate : Value → Value
  | .arr list => .arr (list.flatMap expandEntry)
  | v => v

/-- A rule with its addresses replaced. -/
def expandRule (obj : List (String × Value)) : List (String × Value) :=
  obj.map fun p => (p.1, if p.1 = "ip" ∨ p.1 = "source" then expandPrivate p.2 else p.2)

theorem isGeoIPPrivate_cidr : ∀ v ∈ privateCIDRs.map Value.str, isGeoIPPrivate v = false := by
  decide

theorem any_expanded (list : List Value) :
    (list.flatMap expandEntry).any isGeoIPPrivate = false := by
  rw [List.any_eq_false]
  intro v hv
  obtain ⟨entry, -, hin⟩ := List.mem_flatMap.1 hv
  rw [expandEntry] at hin
  split_ifs at hin with hprivate
  · simp [isGeoIPPrivate_cidr v hin]
  · rw [List.mem_singleton.1 hin]
    exact hprivate

theorem flatMap_expandEntry_of_any {list : List Value} (h : list.any isGeoIPPrivate = false) :
    list.flatMap expandEntry = list := by
  have hsingle : ∀ entry ∈ list, expandEntry entry = [entry] := by
    intro entry hentry
    rw [expandEntry, if_neg (List.any_eq_false.1 h entry hentry)]
  rw [List.flatMap_congr hsingle, List.flatMap_singleton']

@[simp] theorem expandPrivate_expandPrivate (v : Value) :
    expandPrivate (expandPrivate v) = expandPrivate v := by
  cases v with
  | arr list =>
    simp only [expandPrivate]
    rw [flatMap_expandEntry_of_any (any_expanded list)]
  | null | bool _ | num _ | str _ | obj _ => rfl

theorem replaceGeoIPPrivate_spec (v : Value) :
    (replaceGeoIPPrivate v).1 = expandPrivate v ∧
      ((replaceGeoIPPrivate v).2 = false ↔ expandPrivate v = v) := by
  cases v with
  | arr list =>
    rw [replaceGeoIPPrivate]
    split_ifs with hany
    · refine ⟨rfl, ⟨fun h => absurd h (by simp), fun h => ?_⟩⟩
      -- nothing is left to replace, but there was something
      have hsame : list.flatMap expandEntry = list := Value.arr.inj h
      have hnone := any_expanded list
      rw [hsame, hany] at hnone
      exact Bool.noConfusion hnone
    · have hsame : expandPrivate (.arr list) = .arr list := by
        rw [expandPrivate, flatMap_expandEntry_of_any (Bool.eq_false_iff.2 hany)]
      exact ⟨hsame.symm, iff_of_true rfl hsame⟩
  | null | bool _ | num _ | str _ | obj _ => exact ⟨rfl, iff_of_true rfl rfl⟩

theorem generic_expandPrivate {float : String → Option String} {v : Value}
    (h : generic float v = some v) :
    generic float (expandPrivate v) = some (expandPrivate v) := by
  cases v with
  | arr list =>
    rw [generic] at h
    obtain ⟨gs, hgs, heq⟩ := Option.map_eq_some_iff.1 h
    obtain rfl := Value.arr.inj heq
    have hexpanded : genericElems float (gs.flatMap expandEntry) =
        some (gs.flatMap expandEntry) := by
      refine genericElems_eq_self_iff.2 fun v hv => ?_
      obtain ⟨entry, hentry, hin⟩ := List.mem_flatMap.1 hv
      rw [expandEntry] at hin
      split_ifs at hin
      · obtain ⟨s, -, rfl⟩ := List.mem_map.1 hin
        rfl
      · rw [List.mem_singleton.1 hin]
        exact genericElems_eq_self_iff.1 hgs entry hentry
    rw [expandPrivate, generic, hexpanded]
    rfl
  | null | bool _ | num _ | str _ | obj _ => exact h

variable {float : String → Option String} {obj : List (String × Value)} {raw raw' : Value}

theorem lookup_replaceKey (k j : String) (obj : List (String × Value)) :
    (replaceKey k obj).1.lookup j =
      if j = k then (obj.lookup k).map expandPrivate else obj.lookup j := by
  unfold replaceKey
  cases hk : obj.lookup k with
  | none =>
    split_ifs with hj
    · rw [hj, hk]
      rfl
    · rfl
  | some v =>
    obtain ⟨hnew, hchanged⟩ := replaceGeoIPPrivate_spec v
    simp only
    split_ifs with h hj hj
    · rw [lookup_put, if_pos hj, hnew]
      rfl
    · rw [lookup_put, if_neg hj]
    · rw [hj, hk, Option.map_some, hchanged.1 (Bool.eq_false_iff.2 h)]
    · rfl

theorem replaceKey_unchanged_iff (k : String) (obj : List (String × Value)) :
    (replaceKey k obj).2 = false ↔ (obj.lookup k).map expandPrivate = obj.lookup k := by
  unfold replaceKey
  cases hk : obj.lookup k with
  | none => simp
  | some v =>
    have hchanged := (replaceGeoIPPrivate_spec v).2
    simp only [Option.map_some, Option.some.injEq, ← hchanged]
    split_ifs with h
    · simp [h]
    · simp [h]

theorem sorted_replaceKey (h : Sorted obj) (k : String) : Sorted (replaceKey k obj).1 := by
  unfold replaceKey
  split
  · exact h
  · split
    split_ifs
    · exact h.put _ _
    · exact h

theorem lookup_expandRule (obj : List (String × Value)) (j : String) :
    (expandRule obj).lookup j =
      (obj.lookup j).map fun v => if j = "ip" ∨ j = "source" then expandPrivate v else v := by
  induction obj with
  | nil => rfl
  | cons p obj ih =>
    obtain ⟨k, v⟩ := p
    rw [expandRule, List.map_cons, ← expandRule, lookup_cons, lookup_cons, ih]
    by_cases hj : j = k
    · subst hj
      simp
    · rw [if_neg hj, if_neg hj]

theorem IsMap.expandRule (h : IsMap float obj) : IsMap float (expandRule obj) where
  sorted := List.pairwise_map.2 h.sorted
  generic := by
    intro q hq
    obtain ⟨p, hp, rfl⟩ := List.mem_map.1 hq
    have hgeneric := h.generic p hp
    by_cases hkey : p.1 = "ip" ∨ p.1 = "source"
    · simpa [hkey] using generic_expandPrivate hgeneric
    · simpa [hkey] using hgeneric

@[simp] theorem expandRule_expandRule (obj : List (String × Value)) :
    expandRule (expandRule obj) = expandRule obj := by
  simp only [expandRule, List.map_map]
  refine List.map_congr_left fun p _ => ?_
  by_cases hkey : p.1 = "ip" ∨ p.1 = "source"
  · simp [hkey]
  · simp [hkey]

theorem replaceKey_replaceKey (h : Sorted obj) :
    (replaceKey "source" (replaceKey "ip" obj).1).1 = expandRule obj := by
  have hsorted := sorted_replaceKey (sorted_replaceKey h "ip") "source"
  refine hsorted.ext (List.pairwise_map.2 h) fun j => ?_
  rw [lookup_replaceKey, lookup_replaceKey, lookup_replaceKey, lookup_expandRule]
  by_cases hsource : j = "source"
  · simp [hsource]
  · by_cases hip : j = "ip"
    · simp [hip]
    · simp [hsource, hip]

theorem replaceKeys_unchanged_iff (h : Sorted obj) :
    ((replaceKey "ip" obj).2 || (replaceKey "source" (replaceKey "ip" obj).1).2) = false ↔
      expandRule obj = obj := by
  rw [Bool.or_eq_false_iff, replaceKey_unchanged_iff, replaceKey_unchanged_iff, lookup_replaceKey,
    if_neg (by decide)]
  constructor
  · rintro ⟨hip, hsource⟩
    refine Sorted.ext (List.pairwise_map.2 h) h fun j => ?_
    rw [lookup_expandRule]
    by_cases hj : j = "ip" ∨ j = "source"
    · simp only [if_pos hj]
      rcases hj with rfl | rfl
      · exact hip
      · exact hsource
    · simp [hj]
  · intro hsame
    have hip := lookup_expandRule obj "ip"
    have hsource := lookup_expandRule obj "source"
    rw [hsame] at hip hsource
    exact ⟨by simpa using hip.symm, by simpa using hsource.symm⟩

/-! ## Rules -/

theorem normalizeRule_eq_none_iff :
    normalizeRule float raw = none ↔ ruleObject float raw = none := by
  unfold normalizeRule
  cases ruleObject float raw with
  | none => simp
  | some o =>
    cases o with
    | none => simp
    | some obj =>
      simp only
      split_ifs <;> simp

/-- **A rule as it is left decodes to the rule with its addresses
replaced.** -/
theorem ruleObject_normalizeRule (hfloat : Stable float) (h : normalizeRule float raw = some raw') :
    ∃ o, ruleObject float raw = some o ∧ ruleObject float raw' = some (o.map expandRule) := by
  unfold normalizeRule at h
  cases hraw : ruleObject float raw with
  | none =>
    rw [hraw] at h
    cases h
  | some o =>
    refine ⟨o, rfl, ?_⟩
    cases o with
    | none =>
      rw [hraw] at h
      obtain rfl := Option.some.inj h
      exact hraw
    | some obj =>
      have hmap : IsMap float obj := isMap_of_intoMap hfloat hraw
      have hsame := replaceKeys_unchanged_iff hmap.sorted
      rw [hraw] at h
      simp only at h
      split_ifs at h with hchanged
      · obtain rfl := Option.some.inj h
        rw [replaceKey_replaceKey hmap.sorted]
        exact (IsMap.expandRule hmap).intoMap_eq
      · obtain rfl := Option.some.inj h
        rw [Option.map_some, hsame.1 (Bool.eq_false_iff.2 hchanged)]
        exact hraw

/-- **A rule that has none to replace is left as it is.** -/
theorem normalizeRule_self (hfloat : Stable float) {o : Option (List (String × Value))}
    (hraw : ruleObject float raw = some o) (hsame : o.map expandRule = o) :
    normalizeRule float raw = some raw := by
  unfold normalizeRule
  rw [hraw]
  cases o with
  | none => rfl
  | some obj =>
    have hmap : IsMap float obj := isMap_of_intoMap hfloat hraw
    have hunchanged := (replaceKeys_unchanged_iff hmap.sorted).2 (Option.some.inj hsame)
    simp only [hunchanged]
    rfl

theorem normalizeRule_normalizeRule (hfloat : Stable float)
    (h : normalizeRule float raw = some raw') : normalizeRule float raw' = some raw' := by
  obtain ⟨o, -, ho⟩ := ruleObject_normalizeRule hfloat h
  refine normalizeRule_self hfloat ho ?_
  cases o with
  | none => rfl
  | some obj => simp

/-- The node's own rules: those `filterRules` drops. -/
def isOwnRule (float : String → Option String) (raw : Value) : Bool :=
  match ruleObject float raw with
  | none => false
  | some obj =>
    ruleString "outboundTag" obj = some "API" ∨
      ruleString "ruleTag" obj = some malformedDomainGuardRuleTag

theorem ruleString_expandRule {k : String} (hk : ¬ (k = "ip" ∨ k = "source"))
    (o : Option (List (String × Value))) :
    ruleString k (o.map expandRule) = ruleString k o := by
  cases o with
  | none => rfl
  | some obj => simp [ruleString, lookup_expandRule, hk]

theorem isOwnRule_normalizeRule (hfloat : Stable float) (h : normalizeRule float raw = some raw') :
    isOwnRule float raw' = isOwnRule float raw := by
  obtain ⟨o, ho, ho'⟩ := ruleObject_normalizeRule hfloat h
  simp only [isOwnRule, ho, ho']
  rw [ruleString_expandRule (by decide), ruleString_expandRule (by decide)]

variable {rules : List Value}

theorem filterRules_eq (h : ∀ raw ∈ rules, ruleObject float raw ≠ none) :
    filterRules float "API" rules = some (rules.filter fun raw => !isOwnRule float raw) := by
  induction rules with
  | nil => rfl
  | cons raw rules ih =>
    obtain ⟨hraw, hrules⟩ := List.forall_mem_cons.1 h
    cases ho : ruleObject float raw with
    | none => exact absurd ho hraw
    | some obj =>
      rw [filterRules, ho, List.filter_cons, ih hrules]
      simp only [isOwnRule, ho]
      by_cases htag : ruleString "outboundTag" obj = some "API"
      · simp [htag]
      · by_cases hguard : ruleString "ruleTag" obj = some malformedDomainGuardRuleTag
        · simp [hguard]
        · simp [htag, hguard]

/-- A rule as it is left, if it decodes. -/
def normalized (float : String → Option String) (raw : Value) : Value :=
  (normalizeRule float raw).getD raw

theorem normalizeRule_eq_some (h : ruleObject float raw ≠ none) :
    normalizeRule float raw = some (normalized float raw) := by
  cases hn : normalizeRule float raw with
  | none => exact absurd (normalizeRule_eq_none_iff.1 hn) h
  | some raw' => rw [normalized, hn, Option.getD_some]

theorem normalizeGeoIPPrivateRules_eq (h : ∀ raw ∈ rules, ruleObject float raw ≠ none) :
    normalizeGeoIPPrivateRules float rules = some (rules.map (normalized float)) := by
  rw [normalizeGeoIPPrivateRules, Ranging.mapM_eq_some_iff, List.map_map]
  exact List.map_congr_left fun raw hraw => normalizeRule_eq_some (h raw hraw)

theorem normalizeGeoIPPrivateRules_eq_none_iff :
    normalizeGeoIPPrivateRules float rules = none ↔ ∃ raw ∈ rules, ruleObject float raw = none := by
  simp only [normalizeGeoIPPrivateRules, Ranging.mapM_eq_none_iff, normalizeRule_eq_none_iff]

/-- **What the two loops over the rules leave**: the rules of others, in
order. -/
theorem filterRules_normalized (hfloat : Stable float)
    (h : ∀ raw ∈ rules, ruleObject float raw ≠ none) :
    filterRules float "API" (rules.map (normalized float)) =
      some ((rules.filter fun raw => !isOwnRule float raw).map (normalized float)) := by
  have hvalid : ∀ raw ∈ rules.map (normalized float), ruleObject float raw ≠ none := by
    intro raw' hraw'
    obtain ⟨raw, hraw, rfl⟩ := List.mem_map.1 hraw'
    obtain ⟨o, -, ho⟩ := ruleObject_normalizeRule hfloat (normalizeRule_eq_some (h raw hraw))
    rw [ho]
    exact Option.some_ne_none _
  have hown : ∀ raw ∈ rules, (!isOwnRule float (normalized float raw)) = !isOwnRule float raw := by
    intro raw hraw
    rw [isOwnRule_normalizeRule hfloat (normalizeRule_eq_some (h raw hraw))]
  rw [filterRules_eq hvalid, List.filter_map]
  exact congrArg (fun l => some (l.map (normalized float))) (List.filter_congr hown)

/-! ## Outbounds -/

/-- The outbounds with a tag and a protocol. -/
def outboundEntries : Value → List (String × String)
  | .arr rawOutbounds => rawOutbounds.filterMap outboundEntry
  | _ => []

/-- **The protocol of a tag**: of its last outbound with one. -/
def protocolOf (outboundConfigs : Value) (tag : String) : Option String :=
  (History.latest (fun p => p.1 = tag) (outboundEntries outboundConfigs)).map Prod.snd

theorem outboundProtocolByTag_eq (outboundConfigs : Value) :
    outboundProtocolByTag outboundConfigs =
      GoMap.insertAll ∅ (outboundEntries outboundConfigs) := by
  cases outboundConfigs with
  | arr l =>
    rw [outboundProtocolByTag, outboundEntries, GoMap.insertAll, List.foldl_filterMap]
    congr 1
    funext out outbound
    cases outboundEntry outbound <;> rfl
  | null | bool _ | num _ | str _ | obj _ => rfl

theorem lookup_outboundProtocolByTag (outboundConfigs : Value) (tag : String) :
    (outboundProtocolByTag outboundConfigs).lookup tag = protocolOf outboundConfigs tag := by
  rw [outboundProtocolByTag_eq, GoMap.lookup_insertAll, GoMap.lookup_empty', Option.or_none,
    protocolOf]

theorem ne_empty_of_protocolOf {outboundConfigs : Value} {tag protocol : String}
    (h : protocolOf outboundConfigs tag = some protocol) : tag ≠ "" := by
  obtain ⟨p, hp, rfl⟩ := Option.map_eq_some_iff.1 h
  obtain ⟨hmem, htag⟩ := History.mem_of_latest hp
  obtain rfl : p.1 = tag := of_decide_eq_true htag
  cases outboundConfigs with
  | arr l =>
    obtain ⟨outbound, -, hentry⟩ := List.mem_filterMap.1 hmem
    cases outbound with
    | obj ms =>
      simp only [outboundEntry] at hentry
      split_ifs at hentry with hblank
      obtain rfl := Option.some.inj hentry
      exact fun h => hblank (Or.inl h)
    | null | bool _ | num _ | str _ | arr _ => cases hentry
  | null | bool _ | num _ | str _ | obj _ => cases hmem

/-- **Traffic sent to this tag is dropped.** -/
def Blackhole (outboundConfigs : Value) (tag : String) : Prop :=
  ∃ protocol, protocolOf outboundConfigs tag = some protocol ∧ equalFold protocol "blackhole"

theorem blackhole_iff_mem {outboundConfigs : Value} {tag : String} :
    let protocolByTag := outboundProtocolByTag outboundConfigs
    Blackhole outboundConfigs tag ↔
      tag ∈ protocolByTag.keys.insertionSort (· ≤ ·) ∧
        equalFold ((protocolByTag.lookup tag).getD "") "blackhole" := by
  intro protocolByTag
  rw [List.mem_insertionSort, GoMap.mem_keys_iff, Blackhole]
  simp only [← lookup_outboundProtocolByTag]
  constructor
  · rintro ⟨protocol, hp, hfold⟩
    exact ⟨⟨protocol, hp⟩, by rwa [hp]⟩
  · rintro ⟨⟨protocol, hp⟩, hfold⟩
    exact ⟨protocol, hp, by rwa [hp] at hfold⟩

theorem le_of_find? {l : List String} (hsorted : l.Pairwise (· ≤ ·)) {q : String → Bool}
    {s t : String} (h : l.find? q = some s) (ht : t ∈ l) (hq : q t) : s ≤ t := by
  obtain ⟨-, before, after, rfl, hbefore⟩ := List.find?_eq_some_iff_append.1 h
  rcases List.mem_append.1 ht with hin | hin
  · exact absurd hq (by simpa using hbefore t hin)
  · rcases List.mem_cons.1 hin with rfl | hin
    · exact String.le_refl t
    · have hrest := (List.pairwise_append.1 hsorted).2.1
      exact (List.pairwise_cons.1 hrest).1 t hin

/-- **The tag the guard is aimed at**: the least that drops, if one does. -/
theorem blackholeOutboundTag_spec (outboundConfigs : Value) :
    (blackholeOutboundTag outboundConfigs = "" ∧ ∀ tag, ¬ Blackhole outboundConfigs tag) ∨
      (blackholeOutboundTag outboundConfigs ≠ "" ∧
        Blackhole outboundConfigs (blackholeOutboundTag outboundConfigs) ∧
        ∀ tag, Blackhole outboundConfigs tag → blackholeOutboundTag outboundConfigs ≤ tag) := by
  have hsorted := List.pairwise_insertionSort (· ≤ ·) (outboundProtocolByTag outboundConfigs).keys
  rw [blackholeOutboundTag]
  cases hfind : ((outboundProtocolByTag outboundConfigs).keys.insertionSort (· ≤ ·)).find?
      fun tag => equalFold (((outboundProtocolByTag outboundConfigs).lookup tag).getD "")
        "blackhole" with
  | none =>
    refine Or.inl ⟨rfl, fun tag hblack => ?_⟩
    obtain ⟨hmem, hfold⟩ := blackhole_iff_mem.1 hblack
    exact List.find?_eq_none.1 hfind tag hmem hfold
  | some tag =>
    have hfold := List.find?_some hfind
    have hblack : Blackhole outboundConfigs tag :=
      blackhole_iff_mem.2 ⟨List.mem_of_find?_eq_some hfind, hfold⟩
    obtain ⟨protocol, hp, -⟩ := id hblack
    refine Or.inr ⟨ne_empty_of_protocolOf hp, hblack, fun t ht => ?_⟩
    obtain ⟨hmem, hfold⟩ := blackhole_iff_mem.1 ht
    exact le_of_find? hsorted hfind hmem hfold

/-! ## Selectors and the policy -/

theorem sanitize_sanitize (protocolByTag : GoMap String String) (obs : List (String × Value)) :
    sanitize protocolByTag (sanitize protocolByTag obs) = sanitize protocolByTag obs := by
  cases h : obs.lookup "subjectSelector" with
  | none => simp [sanitize, h]
  | some v =>
    cases v with
    | arr values =>
      have hlookup : (put "subjectSelector" (.arr (values.filter (selects protocolByTag)))
          obs).lookup "subjectSelector" =
            some (.arr (values.filter (selects protocolByTag))) := by
        rw [lookup_put, if_pos rfl]
      simp only [sanitize, h, hlookup, put_put, List.filter_filter, Bool.and_self]
    | null | bool _ | num _ | str _ | obj _ => simp [sanitize, h]

theorem sanitizeSection_sanitizeSection (outboundConfigs : Value)
    (obs : Option (List (String × Value))) :
    sanitizeSection outboundConfigs (sanitizeSection outboundConfigs obs) =
      sanitizeSection outboundConfigs obs := by
  simp only [sanitizeSection]
  split_ifs
  · rfl
  · cases obs with
    | none => rfl
    | some obs => rw [Option.map_some, Option.map_some, sanitize_sanitize]

theorem checkPolicy_eq_none_iff {policy : Option PolicyConfig} :
    checkPolicy policy = none ↔ (policy.bind fun p => p.levels 0) = some none := by
  cases policy with
  | none => simp [checkPolicy]
  | some policy =>
    rw [checkPolicy, Option.map_eq_none_iff, Option.getD_some, Option.bind_some]
    cases policy.levels 0 with
    | none => simp
    | some level => cases level <;> simp

theorem checkPolicy_checkPolicy {policy : Option PolicyConfig} {checked : PolicyConfig}
    (h : checkPolicy policy = some checked) : checkPolicy (some checked) = some checked := by
  obtain ⟨zero, hzero, rfl⟩ := Option.map_eq_some_iff.1 h
  have hsame : { zero with statsUserDownlink := true, statsUserUplink := true } = zero := by
    cases hlevel : (policy.getD ⟨fun _ => none, none⟩).levels 0 with
    | none =>
      rw [hlevel] at hzero
      obtain rfl := Option.some.inj hzero
      rfl
    | some level =>
      rw [hlevel] at hzero
      cases level with
      | none => cases hzero
      | some level =>
        obtain rfl := Option.some.inj hzero
        rfl
  simp only [checkPolicy, Option.getD_some, Function.update_self, Option.map_some, hsame,
    Function.update_idem]
  cases (policy.getD ⟨fun _ => none, none⟩).system <;> rfl

/-! ## The whole call -/

section ApplyAPI

variable {sources : List String} {c c' : FullConfig} {apiPort metricPort : ℤ}

open Ranging ConfigInbound

theorem applyAPI_of_overruns (h : Overruns isAPI c.inboundConfigs) :
    c.applyAPI float sources apiPort metricPort = .error (.panics .outOfRange) := by
  rw [FullConfig.applyAPI, removeAll_eq, if_pos h]

theorem applyAPI_of_invalid (h : ¬ Overruns isAPI c.inboundConfigs)
    (hraw : ∃ raw ∈ c.ruleList, ruleObject float raw = none) :
    c.applyAPI float sources apiPort metricPort = .error (.returns .invalidRule) := by
  rw [FullConfig.applyAPI, removeAll_eq, if_neg h]
  simp only [normalizeGeoIPPrivateRules_eq_none_iff.2 hraw]

theorem applyAPI_of_valid (hfloat : Stable float) (h : ¬ Overruns isAPI c.inboundConfigs)
    (hvalid : ∀ raw ∈ c.ruleList, ruleObject float raw ≠ none) :
    c.applyAPI float sources apiPort metricPort =
      match checkPolicy c.policy with
      | none => .error (.panics .nilLevel)
      | some policy =>
        .ok (c.applied sources apiPort metricPort (skipRemove isAPI c.inboundConfigs)
          ((c.ruleList.filter fun raw => !isOwnRule float raw).map (normalized float))
          policy) := by
  rw [FullConfig.applyAPI, removeAll_eq, if_neg h]
  cases checkPolicy c.policy with
  | none => simp only [normalizeGeoIPPrivateRules_eq hvalid, filterRules_normalized hfloat hvalid]
  | some policy =>
    simp only [normalizeGeoIPPrivateRules_eq hvalid, filterRules_normalized hfloat hvalid]

/-- **When the call completes, and with what.** -/
theorem applyAPI_eq_ok_iff (hfloat : Stable float) :
    c.applyAPI float sources apiPort metricPort = .ok c' ↔
      ¬ Overruns isAPI c.inboundConfigs ∧
        (∀ raw ∈ c.ruleList, ruleObject float raw ≠ none) ∧
        ∃ policy, checkPolicy c.policy = some policy ∧
          c' = c.applied sources apiPort metricPort (skipRemove isAPI c.inboundConfigs)
            ((c.ruleList.filter fun raw => !isOwnRule float raw).map (normalized float))
            policy := by
  by_cases hover : Overruns isAPI c.inboundConfigs
  · simp [applyAPI_of_overruns hover, hover]
  · by_cases hvalid : ∀ raw ∈ c.ruleList, ruleObject float raw ≠ none
    · rw [applyAPI_of_valid hfloat hover hvalid, and_iff_right hover, and_iff_right hvalid]
      cases checkPolicy c.policy with
      | none => simp
      | some policy => simp [eq_comm]
    · have hraw : ∃ raw ∈ c.ruleList, ruleObject float raw = none := by
        simpa using hvalid
      simp [applyAPI_of_invalid hover hraw, hvalid]

end ApplyAPI

end NodeAgent
