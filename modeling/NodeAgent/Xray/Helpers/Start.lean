import NodeAgent.Xray.Helpers.Sync
/-!
# A core just started

Whatever configuration a core is started from, `NewConfig` has emptied its
inbounds and marked none to be left alone, and `ApplyAPI` only takes
inbounds away and puts the API one in front; so a core started with no
users serves nobody, and takes users on every inbound.
-/

namespace NodeAgent

variable {X : Externals} {env : Env}

theorem Config.mem_of_mem_removeAPI {arr inbounds : List Inbound}
    (h : Config.removeAPI arr = some inbounds) : ∀ i ∈ inbounds, i ∈ arr := by
  rw [Config.removeAPI, Ranging.removeAll_eq] at h
  split_ifs at h
  obtain rfl := Option.some.inj h
  exact fun i hi => (Ranging.skipRemove_sublist _ _).mem hi

/-- **A core that serves nobody**: no clients, no one live, no counters,
no inbound left alone, on a configuration Xray accepts. -/
structure Xray.Fresh (X : Externals) (x : Xray) : Prop where
  empty : ∀ i ∈ x.config.inboundConfigs, i.clients = ∅ ∧ i.exclude = false
  live : ∀ t e, x.process.live t e = none
  counters : x.process.counters = ∅
  accepted : X.accepts x.config = true

theorem Xray.fresh_new {decoded : Config} {x : Xray}
    (h : Xray.new X env (Config.newConfig decoded []) [] = some x) : x.Fresh X := by
  unfold Xray.new at h
  obtain ⟨c, hc, h⟩ := Option.bind_eq_some_iff.1 h
  simp only [List.length_nil, lt_irrefl, if_false] at h
  split_ifs at h with hok
  cases h
  rw [Bool.and_eq_true] at hok
  obtain ⟨inbounds, hin, rfl⟩ := Option.map_eq_some_iff.1 hc
  have hempty : ∀ i ∈ apiInbound :: inbounds, i.clients = ∅ ∧ i.exclude = false := by
    intro i hi
    rcases List.mem_cons.1 hi with rfl | hi
    · exact ⟨rfl, rfl⟩
    · obtain ⟨j, -, rfl⟩ := List.mem_map.1 (Config.mem_of_mem_removeAPI hin i hi)
      exact ⟨rfl, by simp⟩
  refine ⟨hempty, fun t e => ?_, rfl, hok.2⟩
  show Config.servedClients ⟨apiInbound :: inbounds⟩ t e = none
  unfold Config.servedClients
  cases hfind : (apiInbound :: inbounds).find? fun i => i.tag = t ∧ i.exclude = false with
  | none => rfl
  | some i =>
    have hi := hempty i (List.mem_of_find?_eq_some hfind)
    simp [Inbound.served, hi.1]

end NodeAgent
