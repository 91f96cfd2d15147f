import NodeAgent.Common.Maps
/-!
# Stores of keyed records

A store keeps records, each under its own key; what is behind it (a map in
memory, a database file of encoded records) is its state. A store
`Represents` a partial function from keys to records when its operations
do to the function what they say, and loading gives exactly the records of
the function. Two stores that do are indistinguishable to a program that
only saves, deletes and loads.
-/

variable {K V σ β : Type}

/-- A store of records `V` under keys `K`, in states `σ`. -/
structure RecordStore (K V σ : Type) where
  /-- The store when it is new. -/
  empty : σ
  /-- Every record, in some order; `none` is an error. -/
  load : Order K → σ → Option (List V)
  save : σ → V → σ
  delete : σ → K → σ

/-- One write to a store. -/
inductive Write (K V : Type)
  | save (v : V)
  | delete (k : K)

/-- How records are written as bytes and read back. -/
structure Codec (V β : Type) where
  marshal : V → β
  unmarshal : β → Option V

/-- **What was written is read back.** -/
def Codec.RoundTrips (c : Codec V β) : Prop :=
  ∀ v, c.unmarshal (c.marshal v) = some v

namespace RecordStore

/-- A write carried out. -/
def apply (S : RecordStore K V σ) (d : σ) : Write K V → σ
  | .save v => S.save d v
  | .delete k => S.delete d k

variable [DecidableEq K] (key : V → K)

/-- What a write makes of the function a store represents. -/
def update (f : K → Option V) : Write K V → K → Option V
  | .save v => Function.update f (key v) (some v)
  | .delete k => Function.update f k none

/-- **The store, seen through `rep`, is a partial function** from keys to
records. -/
structure Represents (S : RecordStore K V σ) (rep : σ → (K → Option V) → Prop) : Prop where
  empty : rep S.empty fun _ => none
  save : ∀ {d f} v, rep d f → rep (S.save d v) (Function.update f (key v) (some v))
  delete : ∀ {d f} k, rep d f → rep (S.delete d k) (Function.update f k none)
  /-- Loading gives every record once. -/
  load : ∀ {d f} o, rep d f → (∀ k v, f k = some v → key v = k) →
    ∃ vs, S.load o d = some vs ∧ (vs.map key).Nodup ∧ ∀ v, v ∈ vs ↔ f (key v) = some v

variable {key} {S : RecordStore K V σ} {rep : σ → (K → Option V) → Prop}

variable {f : K → Option V}

theorem Represents.writes (hS : S.Represents key rep) (ws : List (Write K V)) {d : σ}
    (h : rep d f) : rep (ws.foldl S.apply d) (ws.foldl (update key) f) := by
  induction ws generalizing d f with
  | nil => exact h
  | cons w ws ih =>
    refine ih ?_
    cases w with
    | save v => exact hS.save v h
    | delete k => exact hS.delete k h

theorem update_saves {vs : List V} (hnodup : (vs.map key).Nodup) (f : K → Option V) :
    (∀ v ∈ vs, (vs.map Write.save).foldl (update key) f (key v) = some v) ∧
      ∀ k, k ∉ vs.map key → (vs.map Write.save).foldl (update key) f k = f k := by
  induction vs generalizing f with
  | nil => simp
  | cons v vs ih =>
    rw [List.map_cons, List.nodup_cons] at hnodup
    obtain ⟨hmem, hnot⟩ := ih hnodup.2 (Function.update f (key v) (some v))
    refine ⟨fun v' hv' => ?_, fun k hk => ?_⟩
    · rcases List.mem_cons.1 hv' with rfl | hv'
      · exact (hnot _ hnodup.1).trans (Function.update_self ..)
      · exact hmem v' hv'
    · rw [List.map_cons, List.mem_cons, not_or] at hk
      exact (hnot k hk.2).trans (Function.update_of_ne hk.1 ..)

/-! ## Two stores -/

variable (key) in
/-- Records in a map. -/
def inMap : RecordStore K V (GoMap K V) where
  empty := ∅
  load := fun o d => some ((GoMap.range o d).map Prod.snd)
  save := fun d v => d.insert (key v) v
  delete := fun d k => d.erase k

variable (key) in
/-- Encoded records in a map. -/
def encoded (c : Codec V β) : RecordStore K V (GoMap K β) where
  empty := ∅
  load := fun o d => (GoMap.range o d).mapM fun p => c.unmarshal p.2
  save := fun d v => d.insert (key v) (c.marshal v)
  delete := fun d k => d.erase k

/-- The map a function of records is kept as, record by record. -/
def MapOf (enc : V → β) (d : GoMap K β) (f : K → Option V) : Prop :=
  ∀ k, d.lookup k = (f k).map enc

theorem MapOf.insert {enc : V → β} {d : GoMap K β} (h : MapOf enc d f) (k : K)
    (v : V) : MapOf enc (d.insert k (enc v)) (Function.update f k (some v)) := by
  intro k'
  rw [GoMap.lookup_insert_eq, Function.update_apply]
  split_ifs with hk
  · rfl
  · exact h k'

theorem MapOf.erase {enc : V → β} {d : GoMap K β} (h : MapOf enc d f) (k : K) :
    MapOf enc (d.erase k) (Function.update f k none) := by
  intro k'
  rw [GoMap.lookup_erase_eq, Function.update_apply]
  split_ifs with hk
  · rfl
  · exact h k'

theorem MapOf.exists_range {enc : V → β} {d : GoMap K β} (h : MapOf enc d f)
    (hkey : ∀ k v, f k = some v → key v = k) (o : Order K) :
    ∃ vs : List V, GoMap.range o d = vs.map (fun v => (key v, enc v)) ∧ (vs.map key).Nodup ∧
      ∀ v, v ∈ vs ↔ f (key v) = some v := by
  have hmem : ∀ k ∈ o.run d.keys, ∃ v, f k = some v := by
    intro k hk
    obtain ⟨b, hb⟩ := GoMap.mem_keys_iff.1 (Order.mem_run.1 hk)
    rw [h k, Option.map_eq_some_iff] at hb
    exact ⟨hb.choose, hb.choose_spec.1⟩
  have hkeys : ((o.run d.keys).filterMap f).map key = o.run d.keys := by
    generalize o.run d.keys = ks at hmem
    induction ks with
    | nil => rfl
    | cons k ks ih =>
      obtain ⟨v, hv⟩ := hmem k (by simp)
      rw [List.filterMap_cons, hv, List.map_cons, hkey k v hv,
        ih fun k' hk' => hmem k' (by simp [hk'])]
  refine ⟨(o.run d.keys).filterMap f, ?_, ?_, fun v => ?_⟩
  · rw [GoMap.range, List.map_filterMap]
    refine List.filterMap_congr fun k hk => ?_
    obtain ⟨v, hv⟩ := hmem k hk
    rw [h k, hv]
    simp [hkey k v hv]
  · rw [hkeys]
    exact (o.perm _).nodup_iff.2 d.keys_nodup
  · rw [List.mem_filterMap]
    constructor
    · rintro ⟨k, -, hv⟩
      rw [hkey k v hv, hv]
    · intro hv
      refine ⟨key v, Order.mem_run.2 (GoMap.mem_keys_iff.2 ⟨enc v, ?_⟩), hv⟩
      rw [h, hv]
      rfl

theorem inMap_represents : (inMap key).Represents key (MapOf (V := V) id) where
  empty := fun _ => rfl
  save := fun v h => h.insert (key v) v
  delete := fun k h => h.erase k
  load := by
    intro d f o h hkey
    obtain ⟨vs, hrange, hnodup, hmem⟩ := h.exists_range hkey o
    refine ⟨vs, ?_, hnodup, hmem⟩
    simp only [inMap, hrange, List.map_map]
    simp [Function.comp_def]

/-- **Encoding the records changes nothing**, if they can be read back. -/
theorem encoded_represents {c : Codec V β} (hc : c.RoundTrips) :
    (encoded key c).Represents key (MapOf c.marshal) where
  empty := fun _ => rfl
  save := fun v h => h.insert (key v) v
  delete := fun k h => h.erase k
  load := by
    intro d f o h hkey
    obtain ⟨vs, hrange, hnodup, hmem⟩ := h.exists_range hkey o
    refine ⟨vs, ?_, hnodup, hmem⟩
    simp only [encoded, hrange]
    have hread : ∀ l : List V,
        (l.map fun v => (key v, c.marshal v)).mapM (fun p => c.unmarshal p.2) = some l := by
      intro l
      induction l with
      | nil => rfl
      | cons v l ih => simp [hc v, ih]
    exact hread vs

end RecordStore
