import NodeAgent.Xray.Helpers.Routing
/-!
# The normal form of the routing rules

A configuration `ApplyAPI` completes on has its rules in normal form: the
API rule, the guard if there is an outbound that drops, then the rules that
are not the node's own, in order and with their addresses replaced. That
holds of every configuration.

Applying it again finds its own rules and drops them, has nothing to
replace or to sanitize, and sets what is set. What it need not find is
every inbound with the API's tag: the loop that removes them steps over the
one after a removed one. `normal_form_iff` says from which configurations
the second application changes nothing.
-/

namespace NodeAgent

open GoJson Ranging ConfigInbound

variable {float : String → Option String} {sources : List String} {c c' : FullConfig}
variable {apiPort metricPort : ℤ}

/-- A rule and what is made of it: as they are decoded, the addresses are
replaced and nothing else. -/
def Rewrites (float : String → Option String) (raw raw' : Value) : Prop :=
  ∃ obj, ruleObject float raw = some obj ∧ ruleObject float raw' = some (obj.map expandRule)

/-- **The guard**: none, or the one aimed at the least tag that drops. -/
inductive Guards (outboundConfigs : Value) : List Value → Prop
  | unguarded (h : ∀ tag, ¬ Blackhole outboundConfigs tag) : Guards outboundConfigs []
  | guarded {tag : String} (h : Blackhole outboundConfigs tag)
      (hleast : ∀ t, Blackhole outboundConfigs t → tag ≤ t) :
      Guards outboundConfigs [malformedDomainGuardRule tag]

/-- **The normal form** of a configuration's rules. -/
def NormalForm (float : String → Option String) (sources : List String) (c c' : FullConfig) :
    Prop :=
  ∃ guard kept, c'.ruleList = apiRule sources :: guard ++ kept ∧ Guards c.outboundConfigs guard ∧
    List.Forall₂ (Rewrites float) (c.ruleList.filter fun raw => !isOwnRule float raw) kept

theorem prependRules_eq (sources : List String) (c : FullConfig) :
    ∃ guard, c.prependRules sources = apiRule sources :: guard ∧
      Guards c.outboundConfigs guard := by
  rw [FullConfig.prependRules]
  rcases blackholeOutboundTag_spec c.outboundConfigs with ⟨hnone, hopen⟩ | ⟨hsome, hblack, hleast⟩
  · exact ⟨[], by simp [hnone], .unguarded hopen⟩
  · exact ⟨_, by simp [hsome], .guarded hblack hleast⟩

theorem normalForm_of_applyAPI (hfloat : Stable float)
    (h : c.applyAPI float sources apiPort metricPort = .ok c') : NormalForm float sources c c' := by
  obtain ⟨-, hvalid, policy, -, rfl⟩ := (applyAPI_eq_ok_iff hfloat).1 h
  obtain ⟨guard, hprepend, hguard⟩ := prependRules_eq sources c
  refine ⟨guard, (c.ruleList.filter fun raw => !isOwnRule float raw).map (normalized float), ?_,
    hguard, ?_⟩
  · show c.prependRules sources ++ _ = _
    rw [hprepend]
  · refine List.forall₂_map_right_iff.2 (List.forall₂_same.2 fun raw hraw => ?_)
    have hdecodes := hvalid raw (List.mem_filter.1 hraw).1
    exact ruleObject_normalizeRule hfloat (normalizeRule_eq_some hdecodes)

/-! ## Again -/

theorem generic_texts (float : String → Option String) (texts : List String) :
    generic float (.arr (texts.map .str)) = some (.arr (texts.map .str)) := by
  rw [generic, genericElems_eq_self_iff.2]
  · rfl
  · intro v hv
    obtain ⟨s, -, rfl⟩ := List.mem_map.1 hv
    rfl

theorem own_of_isMap {l : List (String × Value)} (hmap : IsMap float l)
    (h : l.lookup "outboundTag" = some (.str "API") ∨
      l.lookup "ruleTag" = some (.str malformedDomainGuardRuleTag)) :
    ruleObject float (.obj l) ≠ none ∧ isOwnRule float (.obj l) = true := by
  have hobject : ruleObject float (.obj l) = some (some l) := hmap.intoMap_eq
  refine ⟨hobject ▸ Option.some_ne_none _, ?_⟩
  simp only [isOwnRule, hobject, ruleString, Option.bind_some]
  refine decide_eq_true (h.imp (fun htag => ?_) fun htag => ?_)
  · rw [htag]
    rfl
  · rw [htag]
    rfl

theorem own_apiRule (float : String → Option String) (sources : List String) :
    ruleObject float (apiRule sources) ≠ none ∧ isOwnRule float (apiRule sources) = true := by
  refine own_of_isMap ⟨?_, ?_⟩ (Or.inl rfl)
  · simp only [Sorted, List.pairwise_cons, List.forall_mem_cons]
    decide
  · simp only [List.forall_mem_cons]
    exact ⟨rfl, rfl, generic_texts float sources, rfl, List.forall_mem_nil _⟩

theorem own_guardRule (float : String → Option String) (tag : String) :
    ruleObject float (malformedDomainGuardRule tag) ≠ none ∧
      isOwnRule float (malformedDomainGuardRule tag) = true := by
  refine own_of_isMap ⟨?_, ?_⟩ (Or.inr rfl)
  · simp only [Sorted, List.pairwise_cons, List.forall_mem_cons]
    decide
  · simp only [List.forall_mem_cons]
    exact ⟨rfl, rfl, rfl, rfl, List.forall_mem_nil _⟩

theorem own_prependRules (float : String → Option String) (sources : List String) (c : FullConfig) :
    ∀ raw ∈ c.prependRules sources,
      ruleObject float raw ≠ none ∧ isOwnRule float raw = true := by
  intro raw hraw
  rw [FullConfig.prependRules] at hraw
  split_ifs at hraw
  · rcases List.mem_cons.1 hraw with rfl | hraw
    · exact own_apiRule float sources
    · rw [List.mem_singleton.1 hraw]
      exact own_guardRule float _
  · rw [List.mem_singleton.1 hraw]
    exact own_apiRule float sources

theorem rules_again (hfloat : Stable float) {own rules : List Value}
    (hown : ∀ raw ∈ own, ruleObject float raw ≠ none ∧ isOwnRule float raw = true)
    (hvalid : ∀ raw ∈ rules, ruleObject float raw ≠ none) :
    let kept := (rules.filter fun raw => !isOwnRule float raw).map (normalized float)
    (∀ raw ∈ own ++ kept, ruleObject float raw ≠ none) ∧
      ((own ++ kept).filter fun raw => !isOwnRule float raw).map (normalized float) = kept := by
  intro kept
  -- what is kept comes of a rule that decodes and is not the node's own
  have hkept : ∀ raw' ∈ kept, ∃ raw, normalizeRule float raw = some raw' ∧
      isOwnRule float raw = false := by
    intro raw' hraw'
    obtain ⟨raw, hraw, rfl⟩ := List.mem_map.1 hraw'
    obtain ⟨hmem, hother⟩ := List.mem_filter.1 hraw
    exact ⟨raw, normalizeRule_eq_some (hvalid raw hmem), by simpa using hother⟩
  have hdropped : (own.filter fun raw => !isOwnRule float raw) = [] := by
    refine List.filter_eq_nil_iff.2 fun raw hraw => ?_
    simp [(hown raw hraw).2]
  have hall : (kept.filter fun raw => !isOwnRule float raw) = kept := by
    refine List.filter_eq_self.2 fun raw' hraw' => ?_
    obtain ⟨raw, hn, hother⟩ := hkept raw' hraw'
    simp [isOwnRule_normalizeRule hfloat hn, hother]
  have hdone : kept.map (normalized float) = kept := by
    have hsame : ∀ raw' ∈ kept, normalized float raw' = raw' := by
      intro raw' hraw'
      obtain ⟨raw, hn, -⟩ := hkept raw' hraw'
      rw [normalized, normalizeRule_normalizeRule hfloat hn, Option.getD_some]
    rw [List.map_congr_left hsame, List.map_id']
  constructor
  · intro raw' hraw'
    rcases List.mem_append.1 hraw' with h | h
    · exact (hown raw' h).1
    · obtain ⟨raw, hn, -⟩ := hkept raw' h
      obtain ⟨o, -, ho⟩ := ruleObject_normalizeRule hfloat hn
      rw [ho]
      exact Option.some_ne_none _
  · rw [List.filter_append, hdropped, List.nil_append, hall, hdone]

/-- **Applied again, a configuration is the same but for its inbounds.** -/
theorem applyAPI_again (hfloat : Stable float)
    (h : c.applyAPI float sources apiPort metricPort = .ok c') :
    c'.applyAPI float sources apiPort metricPort =
      .ok { c' with
        inboundConfigs := apiConfigInbound apiPort :: skipRemove isAPI c'.inboundConfigs } := by
  obtain ⟨hover, hvalid, policy, hpolicy, rfl⟩ := (applyAPI_eq_ok_iff hfloat).1 h
  obtain ⟨hrules, hkept⟩ := rules_again hfloat (own_prependRules float sources c) hvalid
  refine (applyAPI_eq_ok_iff hfloat).2 ⟨not_overruns_cons hover _, hrules, policy,
    checkPolicy_checkPolicy hpolicy, ?_⟩
  refine FullConfig.ext rfl ?_ rfl rfl rfl rfl rfl ?_ ?_
  · exact congrArg (fun rules => some (RouterConfig.mk (c.prependRules sources ++ rules)))
      hkept.symm
  · exact (sanitizeSection_sanitizeSection _ _).symm
  · exact (sanitizeSection_sanitizeSection _ _).symm

/-- **The rules are in normal form, and applying it again changes nothing**,
exactly if the first application settles the inbounds: no two with the
API's tag stand next to each other, or only the two in front do. The normal
form is there in any case. -/
theorem normal_form_iff (hfloat : Stable float)
    (h : c.applyAPI float sources apiPort metricPort = .ok c') :
    (NormalForm float sources c c' ∧ c'.applyAPI float sources apiPort metricPort = .ok c' ↔
      Settles isAPI c.inboundConfigs) ∧ NormalForm float sources c c' := by
  have hform := normalForm_of_applyAPI hfloat h
  refine ⟨?_, hform⟩
  rw [and_iff_right hform, applyAPI_again hfloat h]
  obtain ⟨-, -, policy, -, rfl⟩ := (applyAPI_eq_ok_iff hfloat).1 h
  have hapi : isAPI (apiConfigInbound apiPort) = true := rfl
  rw [← skipRemove_cons_iff hapi, Except.ok.injEq, FullConfig.ext_iff]
  simp [FullConfig.applied]

namespace Demo

def taggedInbound (tag : String) : ConfigInbound :=
  ⟨{ InboundDoc.zero with tag := tag }, false, ∅⟩

/-- A configuration with these inbounds, and a rule that sends private
addresses to an outbound that drops. -/
def routed (tags : List String) : FullConfig where
  logConfig := none
  routerConfig := some ⟨[.obj [("ip", .arr [.str "GeoIP:private", .str "1.1.1.1"]),
    ("outboundTag", .str "block")]]⟩
  inboundConfigs := tags.map taggedInbound
  outboundConfigs := .arr [.obj [("protocol", .str "BlackHole"), ("tag", .str " block ")]]
  policy := none
  api := none
  metrics := none
  observatory := none
  burstObservatory := none

def loopback : List String := ["127.0.0.1", "::1"]

end Demo

/-- An old API inbound is replaced for good. -/
theorem normal_form_one_api :
    ∃ c', (Demo.routed ["in", "API_INBOUND"]).applyAPI some Demo.loopback 1 2 = .ok c' ∧
      NormalForm some Demo.loopback (Demo.routed ["in", "API_INBOUND"]) c' ∧
      c'.applyAPI some Demo.loopback 1 2 = .ok c' := by
  have hfloat : Stable some := fun _ _ _ => rfl
  obtain ⟨c', h⟩ : ∃ c', (Demo.routed ["in", "API_INBOUND"]).applyAPI some Demo.loopback 1 2 =
      .ok c' := ⟨_, rfl⟩
  have hscattered : Scattered isAPI (Demo.routed ["in", "API_INBOUND"]).inboundConfigs := by
    simp [Scattered, Demo.routed, isAPI, Demo.taggedInbound]
  exact ⟨c', h, (normal_form_iff hfloat h).1.2 (Or.inl hscattered)⟩

/-- **Of two next to each other one is left, and is only removed the second
time.** -/
theorem api_inbound_left :
    ∃ c' c'', (Demo.routed ["in", "API_INBOUND", "API_INBOUND", "out"]).applyAPI some
        Demo.loopback 1 2 = .ok c' ∧
      c'.applyAPI some Demo.loopback 1 2 = .ok c'' ∧
      c'.inboundConfigs.map (fun i => i.doc.tag) = ["API_INBOUND", "in", "API_INBOUND", "out"] ∧
      c''.inboundConfigs.map (fun i => i.doc.tag) = ["API_INBOUND", "in", "out"] ∧ c'' ≠ c' := by
  refine ⟨_, _, rfl, rfl, rfl, rfl, fun h => ?_⟩
  have hlen := congrArg (fun c => c.inboundConfigs.length) h
  cases hlen

end NodeAgent
