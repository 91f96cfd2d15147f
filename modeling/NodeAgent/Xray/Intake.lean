import NodeAgent.Xray.Helpers.Routing
import NodeAgent.Xray.Model.Intake
import NodeAgent.Xray.Restart
/-!
# Taking a configuration in

A document is decoded, given the API inbound and written out. On the way
the node panics over an inbound that is `null`, over a level 0 of the
policy that is `null`, and over a last inbound with the API's tag that is
not the only one; and of two such inbounds next to each other one is left
in. `intake_iff` says that nothing else goes wrong: every other document is
refused with an error, or comes out with the API inbound in front and the
other inbounds behind it as they were.
-/

namespace NodeAgent

open GoJson Ranging ConfigInbound

variable {K : DocExternals} {float : String → Option String} {d d' : ConfigDoc}

/-! ## The inbounds as they are decoded -/

theorem foldName_eq_of_isField {name name' k : String} (h : isField name k = true)
    (h' : isField name' k = true) : foldName name = foldName name' :=
  (of_decide_eq_true h).symm.trans (of_decide_eq_true h')

theorem ConfigDoc.inbounds_field {k : String} {v : Value}
    (h : ConfigDoc.field float d k v = some d') :
    configField float d.inbounds k v = some d'.inbounds := by
  by_cases hin : isField "inbounds" k = true
  · have hlog : ¬ isField "log" k = true :=
      fun h => absurd (foldName_eq_of_isField hin h) (by decide)
    have hrouting : ¬ isField "routing" k = true :=
      fun h => absurd (foldName_eq_of_isField hin h) (by decide)
    rw [ConfigDoc.field, if_neg hlog, if_neg hrouting, if_pos hin] at h
    obtain ⟨s, hs, rfl⟩ := Option.map_eq_some_iff.1 h
    exact hs
  · rw [ConfigDoc.field, if_neg hin] at h
    rw [configField, if_neg hin]
    split_ifs at h
    all_goals first
      | obtain ⟨x, -, rfl⟩ := Option.map_eq_some_iff.1 h
        rfl
      | obtain rfl := Option.some.inj h
        rfl

theorem inbounds_intoStruct {v : Value} (h : intoStruct (ConfigDoc.field float) d v = some d') :
    intoStruct (configField float) d.inbounds v = some d'.inbounds := by
  cases v with
  | null =>
    obtain rfl := Option.some.inj h
    rfl
  | obj ms =>
    rw [intoStruct] at h ⊢
    induction ms generalizing d with
    | nil =>
      obtain rfl := Option.some.inj h
      rfl
    | cons p ms ih =>
      rw [List.foldlM_cons] at h ⊢
      obtain ⟨d₁, hd₁, hrest⟩ := Option.bind_eq_some_iff.1 h
      rw [ConfigDoc.inbounds_field hd₁]
      exact ih hrest
  | bool _ | num _ | str _ | arr _ => cases h

section

variable {config : String} {exclude : List String}

theorem newConfig_of_unmarshal (exclude : List String) (hd : ConfigDoc.unmarshal K config = some d)
    {inbounds : List InboundDoc} (hall : d.inbounds.elems = inbounds.map some) :
    FullConfig.newConfig K config exclude = .ok (d.load inbounds exclude) := by
  have hmapM : d.inbounds.elems.mapM id = some inbounds := by
    rw [mapM_eq_some_iff, hall, List.map_id]
  rw [FullConfig.newConfig, hd]
  simp only [hmapM]

/-- **The two models of `NewConfig` agree** on the inbounds. -/
theorem newConfig_inbounds {c : FullConfig} (h : FullConfig.newConfig K config exclude = .ok c) :
    newConfig K config = .ok (c.inboundConfigs.map ConfigInbound.doc) := by
  rw [FullConfig.newConfig] at h
  cases hd : ConfigDoc.unmarshal K config with
  | none =>
    rw [hd] at h
    cases h
  | some d =>
    rw [hd] at h
    simp only at h
    cases hall : d.inbounds.elems.mapM id with
    | none =>
      rw [hall] at h
      cases h
    | some inbounds =>
      rw [hall] at h
      obtain rfl := Except.ok.inj h
      rw [ConfigDoc.unmarshal] at hd
      cases hparse : K.parse config with
      | none =>
        rw [hparse] at hd
        cases hd
      | some v =>
        rw [hparse] at hd
        simp only at hd
        split_ifs at hd with hsections
        have hslice := inbounds_intoStruct hd
        have hzero : ConfigDoc.zero.inbounds = ⟨[], 0⟩ := rfl
        rw [hzero] at hslice
        simp only [newConfig, hparse, hslice, hsections, hall, ConfigDoc.load, List.map_map,
          Bool.not_true, Bool.false_eq_true, if_false]
        exact congrArg Except.ok (List.map_id' inbounds).symm

end

/-! ## The calls -/

/-- **A log section is there by the time it is read**, and every inbound is
written. -/
theorem toBytes_backend (c : FullConfig) (orders : String → Order String) :
    ∃ b written, c.backend.getLogFiles.toBytes orders = some (b, written) ∧
      written.inbounds.map (fun i => i.tag) = c.inboundConfigs.map fun i => i.doc.tag := by
  have hinbounds : c.backend.getLogFiles.inbounds = c.inboundConfigs.map ConfigInbound.full := by
    rw [XrayBackend.getLogFiles]
    cases hlog : c.backend.logConfig <;> rfl
  obtain ⟨log, hlog⟩ : ∃ log, c.backend.getLogFiles.logConfig = some log := by
    rw [XrayBackend.getLogFiles]
    cases hlog : c.backend.logConfig with
    | none => exact ⟨_, rfl⟩
    | some log => exact ⟨log, hlog⟩
  refine ⟨_, _, XrayBackend.toBytes_eq hlog, ?_⟩
  simp only [XrayBackend.writtenInbounds, hinbounds, List.map_map]
  refine List.map_congr_left fun i _ => ?_
  exact congrArg Inbound.tag (i.full.inbound_toBytes _)

/-- **A configuration taken in as it should be**: one inbound has the API's
tag, it is the first, the others are behind it as they were, and all are
written. -/
structure Intake.Ordered (r : Intake) : Prop where
  first : ∃ i rest, r.applied.inboundConfigs = i :: rest ∧ isAPI i = true ∧
    (∀ j ∈ rest, isAPI j = false) ∧ rest = r.loaded.inboundConfigs.filter fun j => !isAPI j
  written : r.written.inbounds.map (fun i => i.tag) =
    r.applied.inboundConfigs.map fun i => i.doc.tag

/-- **The calls return an error, or complete as they should**; they do not
panic. -/
def Intact : Except Stop Intake → Prop
  | .ok r => r.Ordered
  | .error (.returns _) => True
  | .error (.panics _) => False

/-- An inbound of a document has the API's tag. -/
def InboundDoc.isAPI (i : InboundDoc) : Bool :=
  i.tag = "API_INBOUND"

/-- **A document the node can take**: no inbound is `null`, and the last has
not the API's tag unless it is the only one; and a rule cannot be decoded,
or the policy's level 0 is not `null` and no two inbounds next to each other
have the API's tag. -/
def ConfigDoc.Takes (float : String → Option String) (d : ConfigDoc) : Prop :=
  ∃ inbounds, d.inbounds.elems = inbounds.map some ∧ ¬ Overruns InboundDoc.isAPI inbounds ∧
    ((∃ raw ∈ (d.routing.getD ⟨[]⟩).ruleList, ruleObject float raw = none) ∨
      (d.policy.bind fun p => p.levels 0) ≠ some none ∧ Scattered InboundDoc.isAPI inbounds)

section

variable {sources : List String} {orders : String → Order String} {config : String}
variable {exclude : List String} {apiPort metricPort : ℤ}

theorem intake_of_error {loaded : FullConfig} {stop : Stop}
    (h : FullConfig.newConfig K config exclude = .ok loaded)
    (hstop : loaded.applyAPI K.float sources apiPort metricPort = .error stop) :
    intake K sources orders config exclude apiPort metricPort = .error stop := by
  rw [intake, h]
  simp only [hstop]

/-- Once `ApplyAPI` completes, only the inbounds can be wrong: they are if
the loop has left one with the API's tag. -/
theorem intact_iff_scattered {loaded applied : FullConfig} {i : ConfigInbound}
    (h : FullConfig.newConfig K config exclude = .ok loaded)
    (happlied : loaded.applyAPI K.float sources apiPort metricPort = .ok applied)
    (hin : applied.inboundConfigs = i :: skipRemove isAPI loaded.inboundConfigs)
    (hi : isAPI i = true) :
    Intact (intake K sources orders config exclude apiPort metricPort) ↔
      Scattered isAPI loaded.inboundConfigs := by
  obtain ⟨b, written, hbytes, htags⟩ := toBytes_backend applied orders
  have hintake : intake K sources orders config exclude apiPort metricPort =
      .ok ⟨loaded, applied, written⟩ := by
    rw [intake, h]
    simp only [happlied, hbytes]
  rw [hintake]
  constructor
  · rintro ⟨⟨j, rest, hfirst, -, hrest, -⟩, -⟩
    obtain ⟨-, rfl⟩ := List.cons.inj (hin.symm.trans hfirst)
    refine (none_left_iff isAPI _).1 fun j hj => ?_
    rw [hrest j hj]
    exact Bool.false_ne_true
  · intro hscattered
    have hnone := (none_left_iff isAPI _).2 hscattered
    exact ⟨⟨i, _, hin, hi, fun j hj => Bool.eq_false_iff.2 (hnone j hj),
      skipRemove_of_scattered hscattered⟩, htags⟩

theorem intact_iff_takes (hfloat : Stable K.float) (hd : ConfigDoc.unmarshal K config = some d)
    {inbounds : List InboundDoc} (hall : d.inbounds.elems = inbounds.map some) :
    Intact (intake K sources orders config exclude apiPort metricPort) ↔ d.Takes K.float := by
  have hload := newConfig_of_unmarshal exclude hd hall
  have hover : Overruns isAPI (d.load inbounds exclude).inboundConfigs ↔
      Overruns InboundDoc.isAPI inbounds := overruns_map _ _
  have hscattered : Scattered isAPI (d.load inbounds exclude).inboundConfigs ↔
      Scattered InboundDoc.isAPI inbounds := scattered_map _ _
  have htakes : d.Takes K.float ↔ ¬ Overruns InboundDoc.isAPI inbounds ∧
      ((∃ raw ∈ (d.load inbounds exclude).ruleList, ruleObject K.float raw = none) ∨
        (d.policy.bind fun p => p.levels 0) ≠ some none ∧ Scattered InboundDoc.isAPI inbounds) := by
    constructor
    · rintro ⟨inbounds', hall', h⟩
      obtain rfl : inbounds' = inbounds :=
        List.map_injective_iff.2 (Option.some_injective _) (hall'.symm.trans hall)
      exact h
    · exact fun h => ⟨inbounds, hall, h⟩
  rw [htakes, ← hover, ← hscattered]
  -- the ways `ApplyAPI` ends, in the order it comes to them
  by_cases hoverruns : Overruns isAPI (d.load inbounds exclude).inboundConfigs
  · rw [intake_of_error hload (applyAPI_of_overruns hoverruns)]
    exact iff_of_false id fun h => h.1 hoverruns
  · rw [and_iff_right hoverruns]
    by_cases hraw : ∃ raw ∈ (d.load inbounds exclude).ruleList, ruleObject K.float raw = none
    · rw [intake_of_error hload (applyAPI_of_invalid hoverruns hraw)]
      exact iff_of_true trivial (Or.inl hraw)
    · rw [or_iff_right hraw]
      have hvalid : ∀ raw ∈ (d.load inbounds exclude).ruleList, ruleObject K.float raw ≠ none :=
        fun raw hmem hnone => hraw ⟨raw, hmem, hnone⟩
      have happlied : (d.load inbounds exclude).applyAPI K.float sources apiPort metricPort = _ :=
        applyAPI_of_valid hfloat hoverruns hvalid
      have hpolicy : (d.load inbounds exclude).policy = d.policy := rfl
      cases hcheck : checkPolicy d.policy with
      | none =>
        rw [hpolicy, hcheck] at happlied
        rw [intake_of_error hload happlied]
        exact iff_of_false id fun h => h.1 (checkPolicy_eq_none_iff.1 hcheck)
      | some policy =>
        rw [hpolicy, hcheck] at happlied
        have hlevel : (d.policy.bind fun p => p.levels 0) ≠ some none := by
          intro hnil
          rw [checkPolicy_eq_none_iff.2 hnil] at hcheck
          cases hcheck
        rw [intact_iff_scattered hload happlied rfl rfl, and_iff_right hlevel]

/-- **A configuration is taken in as it should be exactly if its document
does not decode, or is one the node can take.** -/
theorem intake_iff (hfloat : Stable K.float) (sources : List String)
    (orders : String → Order String) (config : String) (exclude : List String)
    (apiPort metricPort : ℤ) :
    Intact (intake K sources orders config exclude apiPort metricPort) ↔
      ∀ d, ConfigDoc.unmarshal K config = some d → d.Takes K.float := by
  cases hd : ConfigDoc.unmarshal K config with
  | none =>
    have hrefused : intake K sources orders config exclude apiPort metricPort =
        .error (.returns .unmarshal) := by
      simp only [intake, FullConfig.newConfig, hd]
    rw [hrefused]
    exact iff_of_true trivial fun d h => by cases h
  | some d =>
    simp only [Option.some.injEq, forall_eq']
    by_cases hall : ∃ inbounds : List InboundDoc, d.inbounds.elems = inbounds.map some
    · obtain ⟨inbounds, hall⟩ := hall
      exact intact_iff_takes hfloat hd hall
    · have hnil : d.inbounds.elems.mapM id = none := by
        cases hmapM : d.inbounds.elems.mapM id with
        | none => rfl
        | some inbounds =>
          rw [mapM_eq_some_iff, List.map_id] at hmapM
          exact absurd ⟨inbounds, hmapM⟩ hall
      have hpanics : intake K sources orders config exclude apiPort metricPort =
          .error (.panics .nilInbound) := by
        simp only [intake, FullConfig.newConfig, hd, hnil]
      rw [hpanics]
      exact iff_of_false id fun ⟨inbounds, h, _⟩ => hall ⟨inbounds, h⟩

end

namespace Demo

def tagged (tags : List String) : Value :=
  .obj [("inbounds", .arr (tags.map fun tag => .obj [("tag", .str tag)]))]

def oneAPI : String :=
  "\x7b\"inbounds\":[\x7b\"tag\":\"in\"\x7d,\x7b\"tag\":\"API_INBOUND\"\x7d]\x7d"

def twoAPI : String :=
  "\x7b\"inbounds\":[\x7b\"tag\":\"API_INBOUND\"\x7d,\x7b\"tag\":\"API_INBOUND\"\x7d]\x7d"

def nullInbound : String :=
  "\x7b\"inbounds\":[null]\x7d"

def nullLevel : String :=
  "\x7b\"policy\":\x7b\"levels\":\x7b\"0\":null\x7d\x7d\x7d"

def texts : DocExternals where
  parse := fun config =>
    [(oneAPI, tagged ["in", "API_INBOUND"]), (twoAPI, tagged ["API_INBOUND", "API_INBOUND"]),
      (nullInbound, .obj [("inbounds", .arr [.null])]),
      (nullLevel, .obj [("policy", .obj [("levels", .obj [("0", .null)])])])].lookup config
  parse_empty := by decide
  float := some
  sections := fun _ => true
  x25519 := some

def takeIn (config : String) : Except Stop Intake :=
  intake texts ["127.0.0.1", "::1"] (fun _ => .given) config [] 1 2

end Demo

/-- One old API inbound, at the end. -/
theorem intake_iff_one_api : Intact (Demo.takeIn Demo.oneAPI) := by
  have hfloat : Stable Demo.texts.float := fun _ _ _ => rfl
  refine (intake_iff hfloat _ _ _ _ _ _).2 fun d hd => ?_
  obtain rfl := Option.some.inj hd
  refine ⟨[{ InboundDoc.zero with tag := "in" }, { InboundDoc.zero with tag := "API_INBOUND" }],
    rfl, ?_, Or.inr ⟨?_, ?_⟩⟩
  · simp [Overruns, InboundDoc.isAPI]
  · intro h
    cases h
  · simp [Scattered, InboundDoc.isAPI]

/-- **Three documents that stop the node**: an inbound that is `null`, two
API inbounds, and a level 0 that is `null`. -/
theorem intake_panics :
    Demo.takeIn Demo.nullInbound = .error (.panics .nilInbound) ∧
      Demo.takeIn Demo.twoAPI = .error (.panics .outOfRange) ∧
      Demo.takeIn Demo.nullLevel = .error (.panics .nilLevel) ∧
      ¬ Intact (Demo.takeIn Demo.nullInbound) ∧ ¬ Intact (Demo.takeIn Demo.twoAPI) ∧
      ¬ Intact (Demo.takeIn Demo.nullLevel) := by
  have hinbound : Demo.takeIn Demo.nullInbound = .error (.panics .nilInbound) := rfl
  have htwo : Demo.takeIn Demo.twoAPI = .error (.panics .outOfRange) := rfl
  have hlevel : Demo.takeIn Demo.nullLevel = .error (.panics .nilLevel) := rfl
  rw [hinbound, htwo, hlevel]
  exact ⟨rfl, rfl, rfl, id, id, id⟩

end NodeAgent
