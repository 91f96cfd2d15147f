import NodeAgent.Wireguard.Conservation
import NodeAgent.Wireguard.Parts
/-!
# Samples, syncs and pulls at the same time

The updater reads the device, then the store, and only then gives its
samples to the tracker; syncs come part by part. In between anything may
happen. No more is reported of a key than the kernel has counted, and
nothing stays in the tracker of a key that has left the store, unless the
updater gives the tracker a sample of a key whose stats were dropped since
it read the device.
-/

namespace NodeAgent

namespace Wireguard

/-! ## The backend at work -/

/-- How far a pass of the updater has come. -/
inductive Stage
  /-- It has the active peers of the device, by key and endpoint, -/
  | read (active : List (Key × String))
  /-- and the emails the store had for them. -/
  | mapped (rows : List SampleRow)

/-- A pass of the updater. -/
structure Pass where
  /-- The counters when it read the device. -/
  device : String → Gauge.Source Direction
  stage : Stage
  /-- The keys whose stats were dropped since. -/
  removed : List String

/-- The rows of its batch, once it has one. -/
def Pass.rows (pass : Pass) : List SampleRow :=
  match pass.stage with
  | .read _ => []
  | .mapped rows => rows

/-- **A backend at work.** -/
structure Concurrent where
  wg : WireGuard
  /-- The counters of the peers in the kernel, by key. -/
  peers : String → Gauge.Source Direction
  updater : Option Pass
  /-- What is left of the sync there is, if there is one. -/
  sync : List Action
  /-- What pulls that reset have reported, by key. -/
  reported : String → Direction → ℤ

namespace Concurrent

/-- What can happen. -/
inductive Event
  /-- A peer of the device transfers something. -/
  | carry (key : Key) (bytes : Direction → ℕ)
  /-- `updateConnectedPeers`: `GetDevice`, with the peers that have been
  active; -/
  | readDevice (active : List (Key × String))
  /-- `GetEmailMap`; -/
  | readEmails
  /-- `UpdateStatsBatch`. -/
  | applyBatch (now : ℤ)
  /-- A call of `SyncUsers`, `UpdateUsers` or the like, -/
  | startSync (env : Env) (op : Op)
  /-- and one part of it. -/
  | syncStep
  /-- `CleanupDeletedEntries`. -/
  | cleanup (o : Order String)
  /-- `GetStats`. -/
  | getStats (keys : List String) (reset : Bool)
  /-- `GetUsersStats`. -/
  | getUsersStats (o : Order String) (reset : Bool)

def start (wg : WireGuard) : Concurrent where
  wg := wg
  peers := fun _ => .fresh
  updater := none
  sync := []
  reported := fun _ _ => 0

/-- The tracker of the backend changes. -/
def withTracker (s : Concurrent) (t : Tracker) : Concurrent :=
  { s with wg := s.wg.withTracker t }

/-- The rows of the peers the store knows. -/
def rowsOf (ps : PeerStore) (active : List (Key × String)) : List SampleRow :=
  active.filterMap fun p =>
    (ps.getEmailMap p.1.string).map fun email => ⟨p.1.string, email, p.2⟩

/-- One part of a sync. -/
def perform (s : Concurrent) (a : Action) : Concurrent :=
  { s with
    wg := s.wg.perform a
    -- the counters of a peer go with it
    peers :=
      match a with
      | .kernel device replaced => fun k =>
        if replaced || device.lacks k then (s.peers k).restart else s.peers k
      | .store _ | .removeStats _ => s.peers
    updater :=
      match a with
      | .removeStats key => s.updater.map fun pass => { pass with removed := key :: pass.removed }
      | .kernel _ _ | .store _ => s.updater }

/-- After a pull. -/
def pulled (s : Concurrent) (reset : Bool) (pull : Tracker × List Stat) : Concurrent :=
  { s.withTracker pull.1 with reported := credited reset s.reported (Tracker.shown pull.2) }

def step (N : GoNet.Lib) (s : Concurrent) : Event → Concurrent
  | .carry key bytes =>
    if (s.wg.device key).isSome then
      { s with
        peers := fun k => if k = key.string then (s.peers k).carry bytes else s.peers k }
    else s
  | .readDevice active =>
    match s.updater with
    | some _ => s
    | none =>
      let there := active.filter fun p => (s.wg.device p.1).isSome
      { s with updater := some ⟨s.peers, .read there, []⟩ }
  | .readEmails =>
    match s.updater with
    | some ⟨device, .read active, removed⟩ =>
      { s with updater := some ⟨device, .mapped (rowsOf s.wg.peerStore active), removed⟩ }
    | some ⟨_, .mapped _, _⟩ | none => s
  | .applyBatch now =>
    match s.updater with
    | some ⟨device, .mapped rows, _⟩ =>
      { s.withTracker (s.wg.statsTracker.updateStatsBatch
          (rows.map (Metered.sampleOf device)) now) with updater := none }
    | some ⟨_, .read _, _⟩ | none => s
  | .startSync env op =>
    -- one sync at a time
    match s.sync with
    | [] => { s with sync := s.wg.actions N env op }
    | _ :: _ => s
  | .syncStep =>
    match s.sync with
    | [] => s
    | a :: rest => { s.perform a with sync := rest }
  | .cleanup o => s.withTracker (s.wg.statsTracker.cleanupDeletedEntries o)
  | .getStats keys reset => s.pulled reset (s.wg.statsTracker.getStats keys reset)
  | .getUsersStats o reset => s.pulled reset (s.wg.statsTracker.getUsersStats o reset)

/-- All the kernel has counted for a key. -/
def counted (s : Concurrent) (k : String) (d : Direction) : ℕ :=
  (s.peers k).total d

/-- The pass whose batch is applied. -/
def applied (s : Concurrent) : Event → Option Pass
  | .applyBatch _ => s.updater
  | _ => none

/-- The counters in a batch are those of non-negative words. -/
def Counts (s : Concurrent) (ev : Event) : Prop :=
  ∀ pass ∈ s.applied ev, Readable pass.device (pass.rows.map SampleRow.publicKey)

/-- **The keys of the lists can be told apart.** -/
def Spelled (N : GoNet.Lib) (s : Concurrent) : Event → Prop
  | .startSync _ op => op.Spelled N s.wg.config
  | _ => True

/-- **No stats were dropped of a key of the batch** since the device was
read. -/
def Fresh (s : Concurrent) (ev : Event) : Prop :=
  ∀ pass ∈ s.applied ev, ∀ row ∈ pass.rows, row.publicKey ∉ pass.removed

variable {N : GoNet.Lib} {s : Concurrent} {k : String}

/-- **What an event can do.** -/
inductive Moves (N : GoNet.Lib) (s : Concurrent) : Event → Concurrent → Prop
  /-- Nothing, where there is nothing to do. -/
  | stays (ev : Event) : Moves N s ev s
  | carry {key : Key} {bytes : Direction → ℕ} (hthere : (s.wg.device key).isSome = true) :
      Moves N s (.carry key bytes)
        { s with peers := fun k => if k = key.string then (s.peers k).carry bytes else s.peers k }
  | readDevice {active : List (Key × String)} (hidle : s.updater = none) :
      Moves N s (.readDevice active)
        { s with
          updater :=
            some ⟨s.peers, .read (active.filter fun p => (s.wg.device p.1).isSome), []⟩ }
  | readEmails {device : String → Gauge.Source Direction} {active : List (Key × String)}
      {removed : List String} (hread : s.updater = some ⟨device, .read active, removed⟩) :
      Moves N s .readEmails
        { s with updater := some ⟨device, .mapped (rowsOf s.wg.peerStore active), removed⟩ }
  | applyBatch {device : String → Gauge.Source Direction} {rows : List SampleRow}
      {removed : List String} {now : ℤ}
      (hmapped : s.updater = some ⟨device, .mapped rows, removed⟩) :
      Moves N s (.applyBatch now)
        { s.withTracker (s.wg.statsTracker.updateStatsBatch
            (rows.map (Metered.sampleOf device)) now) with updater := none }
  | startSync {env : Env} {op : Op} (hidle : s.sync = []) :
      Moves N s (.startSync env op) { s with sync := s.wg.actions N env op }
  | syncStep {a : Action} {rest : List Action} (hsync : s.sync = a :: rest) :
      Moves N s .syncStep { s.perform a with sync := rest }
  | cleanup (o : Order String) :
      Moves N s (.cleanup o) (s.withTracker (s.wg.statsTracker.cleanupDeletedEntries o))
  | getStats (keys : List String) (reset : Bool) :
      Moves N s (.getStats keys reset) (s.pulled reset (s.wg.statsTracker.getStats keys reset))
  | getUsersStats (o : Order String) (reset : Bool) :
      Moves N s (.getUsersStats o reset)
        (s.pulled reset (s.wg.statsTracker.getUsersStats o reset))

theorem moves_step (N : GoNet.Lib) (s : Concurrent) (ev : Event) : Moves N s ev (s.step N ev) := by
  cases ev with
  | carry key bytes =>
    rw [step]
    split_ifs with hthere
    · exact .carry hthere
    · exact .stays _
  | readDevice active =>
    rw [step]
    split
    · exact .stays _
    · next hidle => exact .readDevice hidle
  | readEmails =>
    rw [step]
    split
    · next hread => exact .readEmails hread
    · exact .stays _
    · exact .stays _
  | applyBatch now =>
    rw [step]
    split
    · next hmapped => exact .applyBatch hmapped
    · exact .stays _
    · exact .stays _
  | startSync env op =>
    rw [step]
    split
    · next hidle => exact .startSync hidle
    · exact .stays _
  | syncStep =>
    rw [step]
    split
    · exact .stays _
    · next hsync => exact .syncStep hsync
  | cleanup o => exact .cleanup o
  | getStats keys reset => exact .getStats keys reset
  | getUsersStats o reset => exact .getUsersStats o reset

/-! ## The kernel and the store -/

/-- **The sync there is comes in order**, and what is not in the kernel has
nothing on its counters. -/
structure Planned (s : Concurrent) : Prop where
  oneToOne : s.wg.peerStore.OneToOne
  orderly : Orderly s.wg.device s.wg.peerStore s.sync
  cold : ∀ k, s.wg.device.lacks k = true → ∀ d, (s.peers k).count d = 0

variable {rest : List Action}

theorem Planned.perform {a : Action} (h : s.Planned)
    (hsync : s.sync = a :: rest) : ({ s.perform a with sync := rest } : Concurrent).Planned := by
  have horderly := h.orderly
  rw [hsync] at horderly
  cases a with
  | kernel device replaced =>
    refine ⟨h.oneToOne, horderly.2, fun k hk d => ?_⟩
    have hlacks : device.lacks k = true := hk
    show (if (replaced || device.lacks k) = true then _ else _ :
      Gauge.Source Direction).count d = 0
    rw [hlacks, Bool.or_true, if_pos rfl]
    rfl
  | store ps => exact ⟨horderly.1.1, horderly.2, h.cold⟩
  | removeStats key => exact ⟨h.oneToOne, horderly.2, h.cold⟩

theorem Planned.step (h : s.Planned) {ev : Event} (hspelled : s.Spelled N ev) :
    (s.step N ev).Planned := by
  have hmoves := moves_step N s ev
  generalize s.step N ev = after at hmoves ⊢
  cases hmoves with
  | stays => exact h
  | @carry key bytes hthere =>
    refine ⟨h.oneToOne, h.orderly, fun k hk d => ?_⟩
    have hne : k ≠ key.string := by
      rintro rfl
      have hlacks : s.wg.device.lacks key.string = true := hk
      rw [Device.lacks, parseKey_string, Option.bind_some, Option.isNone_iff_eq_none] at hlacks
      rw [hlacks] at hthere
      cases hthere
    dsimp only
    rw [if_neg hne]
    exact h.cold k hk d
  | startSync => exact ⟨h.oneToOne, orderly_actions h.oneToOne hspelled, h.cold⟩
  | syncStep hsync => exact h.perform hsync
  | _ => exact ⟨h.oneToOne, h.orderly, h.cold⟩

/-! ## Never more than was counted -/

/-- **What is reported and due of a key is covered by its peer, and was by
what the updater has read of it**, unless its stats were dropped since. -/
def CoveredAt (s : Concurrent) (k : String) (r : Option (Gauge.Reading Direction)) : Prop :=
  Gauge.Covered (s.reported k) r (s.peers k) ∧
    ∀ pass, s.updater = some pass → k ∉ pass.removed →
      Gauge.Covered (s.reported k) r (pass.device k) ∧ (pass.device k).Leads (s.peers k)

def Covered (s : Concurrent) : Prop :=
  ∀ k, ∃ r, s.wg.statsTracker.Stands k r ∧ s.CoveredAt k r

theorem Covered.reported_le (h : s.Covered) (k : String) (d : Direction) :
    s.reported k d ≤ s.counted k d := by
  obtain ⟨r, -, hcovered, -⟩ := h k
  exact hcovered.reported_le d

variable {device : String → Gauge.Source Direction} {rows : List SampleRow} {t : Tracker}

theorem stands_updateStatsBatch {reported : Direction → ℤ} {src : Gauge.Source Direction}
    {r : Option (Gauge.Reading Direction)} (hstands : t.Stands k r)
    (hnow : Gauge.Covered reported r src)
    (hread : k ∈ rows.map SampleRow.publicKey →
      Gauge.Covered reported r (device k) ∧ (device k).Leads src)
    (hcounts : Readable device (rows.map SampleRow.publicKey)) (now : ℤ) :
    ∃ r', (t.updateStatsBatch (rows.map (Metered.sampleOf device)) now).Stands k r' ∧
      Gauge.Covered reported r' src := by
  unfold Tracker.updateStatsBatch
  induction rows generalizing t r with
  | nil => exact ⟨r, hstands, hnow⟩
  | cons row rows ih =>
    have hlater : Readable device (rows.map SampleRow.publicKey) :=
      fun k' hk' => hcounts k' (List.mem_cons_of_mem _ hk')
    by_cases hk : k = row.publicKey
    · subst hk
      obtain ⟨hcovered, hleads⟩ := hread (List.mem_cons_self ..)
      obtain ⟨r', hstands', htaken⟩ := Tracker.Stands.applySample
        (s := Metered.sampleOf device row) hstands
        (Metered.shows_sampleOf (hcounts _ (List.mem_cons_self ..))) now
      exact ih hstands' (hcovered.sample hleads htaken)
        (fun _ => ⟨hcovered.sample (Gauge.Source.leads_refl _) htaken, hleads⟩) hlater
    · exact ih (hstands.applySample_other hk now) hnow
        (fun hmem => hread (List.mem_cons_of_mem _ hmem)) hlater

variable {removed : List String} {now : ℤ}

theorem Covered.applyBatch (h : s.Covered)
    (hpass : s.updater = some ⟨device, .mapped rows, removed⟩)
    (hcounts : s.Counts (.applyBatch now)) (hfresh : s.Fresh (.applyBatch now)) :
    ({ s.withTracker (s.wg.statsTracker.updateStatsBatch
        (rows.map (Metered.sampleOf device)) now) with updater := none } : Concurrent).Covered := by
  intro k
  obtain ⟨r, hstands, hnow, hread⟩ := h k
  have hbatch : k ∈ rows.map SampleRow.publicKey →
      Gauge.Covered (s.reported k) r (device k) ∧ (device k).Leads (s.peers k) := by
    intro hmem
    obtain ⟨row, hrow, rfl⟩ := List.mem_map.1 hmem
    exact hread _ hpass (hfresh _ hpass row hrow)
  obtain ⟨r', hstands', hnow'⟩ := stands_updateStatsBatch hstands hnow hbatch
    (hcounts _ hpass) now
  exact ⟨r', hstands', hnow', fun pass hnone => by cases hnone⟩

theorem Covered.pulled (h : s.Covered) (keys : List String) (reset : Bool) :
    (s.pulled reset (s.wg.statsTracker.getStats keys reset)).Covered := by
  intro k
  obtain ⟨r, hstands, hnow, hread⟩ := h k
  cases reset with
  | false =>
    refine ⟨r, ?_, hnow, hread⟩
    unfold Concurrent.pulled
    rw [Tracker.getStats_false]
    exact hstands
  | true =>
    obtain ⟨r', hstands', hpulled⟩ := hstands.getStats keys
    refine ⟨r', hstands', hnow.pulled hpulled, fun pass hpass hk => ?_⟩
    obtain ⟨hcovered, hleads⟩ := hread pass hpass hk
    exact ⟨hcovered.pulled hpulled, hleads⟩

theorem Covered.perform {a : Action} (h : s.Covered) (hplan : s.Planned)
    (hsync : s.sync = a :: rest) : ({ s.perform a with sync := rest } : Concurrent).Covered := by
  intro k
  obtain ⟨r, hstands, hnow, hread⟩ := h k
  cases a with
  | kernel device replaced =>
    refine ⟨r, hstands, ?_, fun pass hpass hk => ?_⟩
    · show Gauge.Covered _ _ (if (replaced || device.lacks k) = true then _ else _)
      split_ifs
      · exact hnow.restart
      · exact hnow
    · obtain ⟨hcovered, hleads⟩ := hread pass hpass hk
      refine ⟨hcovered, ?_⟩
      show Gauge.Source.Leads _ (if (replaced || device.lacks k) = true then _ else _)
      split_ifs
      · exact hleads.restart
      · exact hleads
  | store ps => exact ⟨r, hstands, hnow, hread⟩
  | removeStats key =>
    -- the passes on their way, and what is dropped since
    have hpasses : ∀ pass, (s.updater.map fun pass =>
        { pass with removed := key :: pass.removed }) = some pass → k ∉ pass.removed →
        k ≠ key ∧ Gauge.Covered (s.reported k) r (pass.device k) ∧
          (pass.device k).Leads (s.peers k) := by
      intro pass hpass hk
      obtain ⟨before, hbefore, rfl⟩ := Option.map_eq_some_iff.1 hpass
      rw [List.mem_cons, not_or] at hk
      exact ⟨hk.1, hread before hbefore hk.2⟩
    by_cases hk : k = key
    · subst hk
      refine ⟨_, hstands.removeStats, ?_, fun pass hpass hmem => ?_⟩
      · cases r with
        | none => exact hnow
        | some r =>
          -- its peer has left the kernel, and its counters with it
          have horderly := hplan.orderly
          rw [hsync] at horderly
          exact hnow.retire rfl (hplan.cold k horderly.1)
      · exact absurd rfl (hpasses pass hpass hmem).1
    · refine ⟨r, hstands.congr ?_, hnow, fun pass hpass hmem => (hpasses pass hpass hmem).2⟩
      exact (s.wg.statsTracker.lookup_removeStats key k).trans (if_neg hk)

theorem Covered.cleanup (h : s.Covered) (o : Order String) :
    (s.withTracker (s.wg.statsTracker.cleanupDeletedEntries o)).Covered := by
  intro k
  obtain ⟨r, hstands, hnow, hread⟩ := h k
  rcases hstands.cleanup o with hsame | ⟨hnone, q, rfl, hgone⟩
  · exact ⟨r, hsame, hnow, hread⟩
  · refine ⟨none, hnone, hnow.forget hgone, fun pass hpass hk => ?_⟩
    obtain ⟨hcovered, hleads⟩ := hread pass hpass hk
    exact ⟨hcovered.forget hgone, hleads⟩

theorem Covered.step (h : s.Covered) (hplan : s.Planned) {ev : Event} (hcounts : s.Counts ev)
    (hfresh : s.Fresh ev) : (s.step N ev).Covered := by
  have hmoves := moves_step N s ev
  generalize s.step N ev = after at hmoves ⊢
  cases hmoves with
  | stays => exact h
  | @carry key bytes hthere =>
    intro k
    obtain ⟨r, hstands, hnow, hread⟩ := h k
    refine ⟨r, hstands, ?_, fun pass hpass hk => ?_⟩
    · dsimp only
      split_ifs
      · exact hnow.carry bytes
      · exact hnow
    · obtain ⟨hcovered, hleads⟩ := hread pass hpass hk
      refine ⟨hcovered, ?_⟩
      dsimp only
      split_ifs
      · exact hleads.carry bytes
      · exact hleads
  | readDevice hidle =>
    intro k
    obtain ⟨r, hstands, hnow, -⟩ := h k
    refine ⟨r, hstands, hnow, fun pass hpass _ => ?_⟩
    -- the counters are as they were read
    obtain rfl := Option.some.inj hpass
    exact ⟨hnow, Gauge.Source.leads_refl _⟩
  | @readEmails device active removed hbefore =>
    intro k
    obtain ⟨r, hstands, hnow, hread⟩ := h k
    refine ⟨r, hstands, hnow, fun pass hpass hk => ?_⟩
    obtain rfl := Option.some.inj hpass
    exact hread ⟨device, .read active, removed⟩ hbefore hk
  | applyBatch hpass => exact h.applyBatch hpass hcounts hfresh
  | startSync => exact h
  | syncStep hsync => exact h.perform hplan hsync
  | cleanup o => exact h.cleanup o
  | getStats keys reset => exact h.pulled keys reset
  | getUsersStats o reset => exact h.pulled _ reset

/-! ## Nothing of a key that is gone -/

/-- **A key is in the tracker for good, or on its way there.** -/
def Active (s : Concurrent) (k : String) : Prop :=
  (∃ e, s.wg.statsTracker.lookup k = some e ∧ e.isDeleted = false) ∨
    ∃ pass, s.updater = some pass ∧ k ∈ pass.rows.map SampleRow.publicKey ∧ k ∉ pass.removed

/-- **A key is in the store, or its stats will be dropped** by the sync
there is. -/
def Housed (s : Concurrent) (k : String) : Prop :=
  s.wg.peerStore.peers.lookup k ≠ none ∨ .removeStats k ∈ s.sync

def Tidy (s : Concurrent) : Prop :=
  ∀ k, s.Active k → s.Housed k

/-- **Every entry that is not marked deleted is of a key in the store.** -/
def Owned (s : Concurrent) : Prop :=
  ∀ k e, s.wg.statsTracker.lookup k = some e → e.isDeleted = false →
    s.wg.peerStore.peers.lookup k ≠ none

theorem Tidy.owned (h : s.Tidy) (hidle : s.sync = []) : s.Owned := by
  intro k e he hlive
  rcases h k (Or.inl ⟨e, he, hlive⟩) with hstore | hlater
  · exact hstore
  · rw [hidle] at hlater
    cases hlater

theorem Tidy.withTracker (h : s.Tidy) (hsub : ∀ k e, t.lookup k = some e → e.isDeleted = false →
      ∃ e', s.wg.statsTracker.lookup k = some e' ∧ e'.isDeleted = false) :
    (s.withTracker t).Tidy := by
  rintro k (⟨e, he, hlive⟩ | hpass)
  · exact h k (Or.inl (hsub k e he hlive))
  · exact h k (Or.inr hpass)

theorem live_of_getStats {keys : List String} {reset : Bool} {e : Entry}
    (he : (t.getStats keys reset).1.lookup k = some e) (hlive : e.isDeleted = false) :
    ∃ e', t.lookup k = some e' ∧ e'.isDeleted = false := by
  cases reset with
  | false =>
    rw [Tracker.getStats_false] at he
    exact ⟨e, he, hlive⟩
  | true =>
    rw [Tracker.lookup_getStats] at he
    split_ifs at he
    · obtain ⟨e', he', hpulled⟩ := Option.bind_eq_some_iff.1 he
      unfold Entry.pulled at hpulled
      split_ifs at hpulled with hdeleted
      exact ⟨e', he', Bool.eq_false_iff.2 hdeleted⟩
    · exact ⟨e, he, hlive⟩

theorem live_of_cleanup {o : Order String} {e : Entry}
    (he : (t.cleanupDeletedEntries o).lookup k = some e) (hlive : e.isDeleted = false) :
    ∃ e', t.lookup k = some e' ∧ e'.isDeleted = false := by
  rw [Tracker.lookup_cleanup] at he
  exact ⟨e, (Option.filter_eq_some_iff.1 he).1, hlive⟩

theorem publicKey_samples (device : String → Gauge.Source Direction) (rows : List SampleRow) :
    (rows.map (Metered.sampleOf device)).map Sample.publicKey = rows.map SampleRow.publicKey := by
  rw [List.map_map]
  rfl

theorem Tidy.applyBatch (h : s.Tidy) (hpass : s.updater = some ⟨device, .mapped rows, removed⟩)
    (hfresh : s.Fresh (.applyBatch now)) :
    ({ s.withTracker (s.wg.statsTracker.updateStatsBatch
        (rows.map (Metered.sampleOf device)) now) with updater := none } : Concurrent).Tidy := by
  rintro k (⟨e, he, hlive⟩ | ⟨_, hnone, -⟩)
  · have hbatch := s.wg.statsTracker.lookup_updateStatsBatch
      (rows.map (Metered.sampleOf device)) now k
    rw [publicKey_samples] at hbatch
    by_cases hk : k ∈ rows.map SampleRow.publicKey
    · obtain ⟨row, hrow, rfl⟩ := List.mem_map.1 hk
      exact h _ (Or.inr ⟨_, hpass, hk, hfresh _ hpass row hrow⟩)
    · exact h k (Or.inl ⟨e, (hbatch.2 hk).symm.trans he, hlive⟩)
  · cases hnone

theorem lookup_of_mem_rowsOf {ps : PeerStore} {active : List (Key × String)} {row : SampleRow}
    (h : row ∈ rowsOf ps active) : ps.peers.lookup row.publicKey ≠ none := by
  obtain ⟨p, -, hemail⟩ := List.mem_filterMap.1 h
  obtain ⟨email, howner, rfl⟩ := Option.map_eq_some_iff.1 hemail
  obtain ⟨peer, hpeer, -⟩ := Option.map_eq_some_iff.1 howner
  intro hnone
  rw [show ps.peers.lookup p.1.string = none from hnone] at hpeer
  cases hpeer

theorem Tidy.perform {a : Action} (h : s.Tidy) (hplan : s.Planned)
    (hsync : s.sync = a :: rest) : ({ s.perform a with sync := rest } : Concurrent).Tidy := by
  have horderly := hplan.orderly
  rw [hsync] at horderly
  cases a with
  | kernel device replaced =>
    intro k hk
    rcases h k hk with hstore | hlater
    · exact Or.inl hstore
    · rw [hsync] at hlater
      exact Or.inr ((List.mem_cons.1 hlater).resolve_left (by simp))
  | store ps =>
    intro k hk
    rcases h k hk with hstore | hlater
    · by_cases hleft : ps.peers.lookup k = none
      · exact Or.inr (horderly.1.2 k hstore hleft)
      · exact Or.inl hleft
    · rw [hsync] at hlater
      exact Or.inr ((List.mem_cons.1 hlater).resolve_left (by simp))
  | removeStats key =>
    -- of the key itself nothing is left, and the others were so before
    have hbefore : ∀ k, ({ s.perform (.removeStats key) with sync := rest } :
        Concurrent).Active k → k ≠ key ∧ s.Active k := by
      rintro k (⟨e, he, hlive⟩ | ⟨pass, hpass, hk, hnot⟩)
      · have hlookup := s.wg.statsTracker.lookup_removeStats key k
        rw [show (s.wg.statsTracker.removeStats key).lookup k = some e from he] at hlookup
        split_ifs at hlookup with hkey
        · obtain ⟨e', -, rfl⟩ := Option.map_eq_some_iff.1 hlookup.symm
          cases hlive
        · exact ⟨hkey, Or.inl ⟨e, hlookup.symm, hlive⟩⟩
      · obtain ⟨before, hpass', rfl⟩ := Option.map_eq_some_iff.1 hpass
        rw [List.mem_cons, not_or] at hnot
        exact ⟨hnot.1, Or.inr ⟨before, hpass', hk, hnot.2⟩⟩
    intro k hk
    obtain ⟨hne, hactive⟩ := hbefore k hk
    rcases h k hactive with hstore | hlater
    · exact Or.inl hstore
    · rw [hsync] at hlater
      exact Or.inr ((List.mem_cons.1 hlater).resolve_left (by simpa using hne))

theorem Tidy.step (h : s.Tidy) (hplan : s.Planned) {ev : Event} (hfresh : s.Fresh ev) :
    (s.step N ev).Tidy := by
  have hmoves := moves_step N s ev
  generalize s.step N ev = after at hmoves ⊢
  cases hmoves with
  | stays => exact h
  | carry => exact h
  | readDevice hidle =>
    rintro k (hentry | ⟨pass, hpass, hk, -⟩)
    · exact h k (Or.inl hentry)
    · -- it has no batch yet
      rw [← Option.some.inj hpass] at hk
      cases hk
  | readEmails hbefore =>
    rintro k (hentry | ⟨pass, hpass, hk, -⟩)
    · exact h k (Or.inl hentry)
    · -- the store has just been read
      rw [← Option.some.inj hpass] at hk
      obtain ⟨row, hrow, rfl⟩ := List.mem_map.1 hk
      exact Or.inl (lookup_of_mem_rowsOf hrow)
  | applyBatch hpass => exact h.applyBatch hpass hfresh
  | startSync hidle =>
    intro k hk
    rcases h k hk with hstore | hlater
    · exact Or.inl hstore
    · rw [hidle] at hlater
      cases hlater
  | syncStep hsync => exact h.perform hplan hsync
  | cleanup o => exact h.withTracker fun k e he hlive => live_of_cleanup he hlive
  | getStats keys reset => exact h.withTracker fun k e he hlive => live_of_getStats he hlive
  | getUsersStats o reset => exact h.withTracker fun k e he hlive => live_of_getStats he hlive

/-- **What was dropped since the updater read the device is gone**, or
marked deleted. -/
def Dropped (s : Concurrent) : Prop :=
  ∀ pass, s.updater = some pass → ∀ k ∈ pass.removed, ∀ e,
    s.wg.statsTracker.lookup k = some e → e.isDeleted = true

theorem Dropped.withTracker (h : s.Dropped)
    (hsub : ∀ k e, t.lookup k = some e → e.isDeleted = false →
      ∃ e', s.wg.statsTracker.lookup k = some e' ∧ e'.isDeleted = false) :
    (s.withTracker t).Dropped := by
  intro pass hpass k hk e he
  by_contra hlive
  obtain ⟨e', he', hlive'⟩ := hsub k e he (Bool.eq_false_iff.2 hlive)
  rw [h pass hpass k hk e' he'] at hlive'
  cases hlive'

theorem Dropped.perform (h : s.Dropped) (a : Action) (rest : List Action) :
    ({ s.perform a with sync := rest } : Concurrent).Dropped := by
  cases a with
  | kernel device replaced => exact h
  | store ps => exact h
  | removeStats key =>
    intro pass hpass k hk e he
    obtain ⟨before, hbefore, rfl⟩ := Option.map_eq_some_iff.1 hpass
    have hlookup := s.wg.statsTracker.lookup_removeStats key k
    rw [show (s.wg.statsTracker.removeStats key).lookup k = some e from he] at hlookup
    split_ifs at hlookup with hkey
    · obtain ⟨e', -, rfl⟩ := Option.map_eq_some_iff.1 hlookup.symm
      rfl
    · exact h before hbefore k ((List.mem_cons.1 hk).resolve_left hkey) e hlookup.symm

theorem Dropped.step (h : s.Dropped) (ev : Event) : (s.step N ev).Dropped := by
  have hmoves := moves_step N s ev
  generalize s.step N ev = after at hmoves ⊢
  cases hmoves with
  | stays => exact h
  | carry => exact h
  | readDevice hidle =>
    intro pass hpass k hk
    rw [← Option.some.inj hpass] at hk
    cases hk
  | readEmails hread =>
    intro pass hpass k hk
    rw [← Option.some.inj hpass] at hk
    exact h _ hread k hk
  | applyBatch hpass => exact fun _ hnone => by cases hnone
  | startSync hidle => exact h
  | syncStep hsync => exact h.perform _ _
  | cleanup o => exact h.withTracker fun k e he hlive => live_of_cleanup he hlive
  | getStats keys reset => exact h.withTracker fun k e he hlive => live_of_getStats he hlive
  | getUsersStats o reset => exact h.withTracker fun k e he hlive => live_of_getStats he hlive

/-! ## Runs -/

/-- What a run keeps. -/
structure Kept (s : Concurrent) : Prop where
  planned : s.Planned
  covered : s.Covered
  tidy : s.Tidy
  dropped : s.Dropped

theorem kept_start {env : Env} {config : Option Config} {users : List (Option User)}
    {wg : WireGuard} (hnew : WireGuard.new N env config users = .ok wg)
    (hdistinct : Distinct N wg.config users) : (start wg).Kept := by
  have hempty : wg.statsTracker = ∅ := WireGuard.new_statsTracker hnew
  have hnone : ∀ k, wg.statsTracker.lookup k = none := by
    intro k
    rw [hempty]
    rfl
  refine ⟨⟨oneToOne_new hnew hdistinct, trivial, fun _ _ _ => rfl⟩, fun k => ?_, ?_,
    fun _ hpass => by cases hpass⟩
  · exact ⟨none, Tracker.stands_none_iff.2 (hnone k), Gauge.Covered.fresh,
      fun pass hpass => by cases hpass⟩
  · rintro k (⟨e, he, -⟩ | ⟨_, hpass, -⟩)
    · rw [show (start wg).wg.statsTracker.lookup k = none from hnone k] at he
      cases he
    · cases hpass

theorem kept_of_run {s₀ : Concurrent} (hstart : s₀.Kept)
    (h : Runs.Path (step N) (fun s ev => s.Counts ev ∧ s.Spelled N ev ∧ s.Fresh ev) s₀ s) :
    s.Kept :=
  h.invariant (I := Kept) (fun _ _ hs hok =>
    ⟨hs.planned.step hok.2.1, hs.covered.step hs.planned hok.1 hok.2.2,
      hs.tidy.step hs.planned hok.2.2, hs.dropped.step _⟩) hstart

/-- **A pull of all that resets leaves nothing of a key that is gone**,
once no sync is under way. -/
theorem Owned.getUsersStats (h : s.Owned) (o : Order String) (k : String)
    (hk : (s.wg.statsTracker.getUsersStats o true).1.lookup k ≠ none) :
    s.wg.peerStore.peers.lookup k ≠ none := by
  obtain ⟨e, he⟩ := Option.ne_none_iff_exists'.1 hk
  rw [Tracker.getUsersStats, Tracker.lookup_getStats] at he
  split_ifs at he with hmem
  · obtain ⟨e', he', hpulled⟩ := Option.bind_eq_some_iff.1 he
    unfold Entry.pulled at hpulled
    split_ifs at hpulled with hdeleted
    exact h k e' he' (Bool.eq_false_iff.2 hdeleted)
  · -- every key that is there is pulled
    refine absurd ?_ hmem
    exact List.mem_map.2 ⟨(k, e), GoMap.mem_range.2 he, rfl⟩

theorem step_applyBatch_read {active : List (Key × String)}
    (hpass : s.updater = some ⟨device, .read active, removed⟩) :
    s.step N (.applyBatch now) = s := by
  simp only [step, hpass]

theorem step_applyBatch_mapped (hpass : s.updater = some ⟨device, .mapped rows, removed⟩) :
    s.step N (.applyBatch now) =
      { s.withTracker (s.wg.statsTracker.updateStatsBatch
          (rows.map (Metered.sampleOf device)) now) with updater := none } := by
  simp only [step, hpass]

/-- **Applied when no sync is under way, a batch leaves only keys of the
store exactly if it has no others.** -/
theorem owned_applyBatch_iff (h : s.Kept) {pass : Pass} (hpass : s.updater = some pass)
    (hidle : s.sync = []) (now : ℤ) :
    (s.step N (.applyBatch now)).Owned ↔
      ∀ row ∈ pass.rows, s.wg.peerStore.peers.lookup row.publicKey ≠ none := by
  have howned := h.tidy.owned hidle
  obtain ⟨device, stage, removed⟩ := pass
  cases stage with
  | read active =>
    rw [step_applyBatch_read hpass]
    exact iff_of_true howned fun row hrow => by cases hrow
  | mapped rows =>
    have hbatch := s.wg.statsTracker.lookup_updateStatsBatch
      (rows.map (Metered.sampleOf device)) now
    simp only [publicKey_samples] at hbatch
    rw [step_applyBatch_mapped hpass]
    constructor
    · intro hafter row hrow
      obtain ⟨e, he, hlive⟩ := (hbatch row.publicKey).1 (List.mem_map.2 ⟨row, hrow, rfl⟩)
      exact hafter row.publicKey e he hlive
    · intro hrows k e he hlive
      by_cases hk : k ∈ rows.map SampleRow.publicKey
      · obtain ⟨row, hrow, rfl⟩ := List.mem_map.1 hk
        exact hrows row hrow
      · exact howned k e (((hbatch k).2 hk).symm.trans he) hlive

/-- **A batch brings nothing back that was dropped since the device was
read, exactly if it is fresh.** -/
theorem fresh_applyBatch_iff (h : s.Kept) {pass : Pass} (hpass : s.updater = some pass) (now : ℤ) :
    s.Fresh (.applyBatch now) ↔ ∀ k ∈ pass.removed, ∀ e,
      (s.step N (.applyBatch now)).wg.statsTracker.lookup k = some e → e.isDeleted = true := by
  have hfresh : s.Fresh (.applyBatch now) ↔ ∀ row ∈ pass.rows, row.publicKey ∉ pass.removed := by
    simp [Fresh, applied, hpass]
  rw [hfresh]
  obtain ⟨device, stage, removed⟩ := pass
  cases stage with
  | read active =>
    rw [step_applyBatch_read hpass]
    exact iff_of_true (fun row hrow => by cases hrow) (h.dropped _ hpass)
  | mapped rows =>
    have hbatch := s.wg.statsTracker.lookup_updateStatsBatch
      (rows.map (Metered.sampleOf device)) now
    simp only [publicKey_samples] at hbatch
    rw [step_applyBatch_mapped hpass]
    constructor
    · intro hrows k hk e he
      refine h.dropped _ hpass k hk e (((hbatch k).2 fun hmem => ?_).symm.trans he)
      obtain ⟨row, hrow, rfl⟩ := List.mem_map.1 hmem
      exact hrows row hrow hk
    · intro hafter row hrow hk
      obtain ⟨e, he, hlive⟩ := (hbatch row.publicKey).1 (List.mem_map.2 ⟨row, hrow, rfl⟩)
      rw [hafter _ hk e he] at hlive
      cases hlive

end Concurrent

/-- **No double report.** If the keys of the lists can be told apart, and
the updater gives the tracker no sample of a key whose stats were dropped
since it read the device, then in every state of a run no more has been
reported of a key than the kernel has counted; and when no sync is under
way every entry that is not marked deleted is of a key in the store, and a
pull of all that resets leaves no others. The condition is exact: a batch
that gives the tracker such a sample brings back what was dropped, and one
that does not brings nothing back; and applied when no sync is under way, a
batch leaves an entry of a key that is not in the store exactly if it has
one. -/
theorem reports_once (N : GoNet.Lib) {env : Env} {config : Option Config}
    {users : List (Option User)} {wg : WireGuard} (hnew : WireGuard.new N env config users = .ok wg)
    (hdistinct : Distinct N wg.config users) {s : Concurrent}
    (hrun : Runs.Path (Concurrent.step N)
      (fun s ev => s.Counts ev ∧ s.Spelled N ev ∧ s.Fresh ev) (.start wg) s) :
    (∀ k d, s.reported k d ≤ s.counted k d) ∧
      (s.sync = [] → s.Owned ∧ ∀ o k,
        (s.wg.statsTracker.getUsersStats o true).1.lookup k ≠ none →
          s.wg.peerStore.peers.lookup k ≠ none) ∧
      ∀ pass now, s.updater = some pass →
        (s.Fresh (.applyBatch now) ↔ ∀ k ∈ pass.removed, ∀ e,
          (s.step N (.applyBatch now)).wg.statsTracker.lookup k = some e → e.isDeleted = true) ∧
        (s.sync = [] → ((s.step N (.applyBatch now)).Owned ↔
          ∀ row ∈ pass.rows, s.wg.peerStore.peers.lookup row.publicKey ≠ none)) := by
  have hkept := Concurrent.kept_of_run (Concurrent.kept_start hnew hdistinct) hrun
  refine ⟨hkept.covered.reported_le, fun hidle => ?_, fun pass now hpass =>
    ⟨Concurrent.fresh_applyBatch_iff hkept hpass now, fun hidle =>
      Concurrent.owned_applyBatch_iff hkept hpass hidle now⟩⟩
  have howned := hkept.tidy.owned hidle
  exact ⟨howned, howned.getUsersStats⟩

/-! ## Runs that can be computed -/

instance Concurrent.decidableCounts (s : Concurrent) (ev : Concurrent.Event) :
    Decidable (s.Counts ev) :=
  inferInstanceAs (Decidable (∀ pass ∈ s.applied ev, Readable _ _))

instance Concurrent.decidableFresh (s : Concurrent) (ev : Concurrent.Event) :
    Decidable (s.Fresh ev) :=
  inferInstanceAs (Decidable (∀ pass ∈ s.applied ev, ∀ row ∈ pass.rows,
    row.publicKey ∉ pass.removed))

namespace Demo

def readsPeers : List Concurrent.Event :=
  [.readDevice [(key 1, "203.0.113.7")], .readEmails]

def dropsFirst : List Concurrent.Event :=
  [.startSync .calm (.updateUsers [some ⟨"a", some ⟨(key 1).string, ["10.0.0.2/32"]⟩, []⟩]),
    .syncStep, .syncStep, .syncStep]

def sampledOnce : List Concurrent.Event :=
  .carry (key 1) (fun _ => 100) :: readsPeers ++ [.applyBatch 1]

def inTurn : List Concurrent.Event :=
  sampledOnce ++ dropsFirst ++ [.getUsersStats .given true]

/-- A second pass has read the peer before it is removed, and goes on after
a pull has reported the rest of it. -/
def crossed : List Concurrent.Event :=
  (sampledOnce ++ readsPeers) ++ dropsFirst ++
    [.getUsersStats .given true, .applyBatch 2, .getUsersStats .given true]

theorem spelled_dropsFirst : ∀ ev ∈ dropsFirst, ∀ s : Concurrent, s.Spelled GoNet.std ev := by
  intro ev hev s
  rcases List.mem_cons.1 hev with rfl | hev
  · intro u hu key' hkey
    obtain rfl := Option.some.inj (List.mem_singleton.1 hu)
    have hparsed : parseKey (key 1).string = some key' := hkey
    rw [parseKey_string] at hparsed
    rw [← Option.some.inj hparsed]
    rfl
  · simp only [List.mem_cons, List.not_mem_nil, or_false, or_self] at hev
    rw [hev]
    trivial

theorem spelled_around {before after : List Concurrent.Event}
    (hother : ∀ ev ∈ before ++ after, ∀ s : Concurrent, s.Spelled GoNet.std ev) :
    ∀ ev ∈ before ++ dropsFirst ++ after, ∀ s : Concurrent, s.Spelled GoNet.std ev := by
  intro ev hev
  rw [List.mem_append, List.mem_append] at hev
  rcases hev with (hev | hev) | hev
  · exact hother ev (List.mem_append_left _ hev)
  · exact spelled_dropsFirst ev hev
  · exact hother ev (List.mem_append_right _ hev)

def concurrentAfter (events : List Concurrent.Event) (wg : WireGuard) : Concurrent :=
  events.foldl (Concurrent.step GoNet.std) (.start wg)

theorem distinct_pair {wg : WireGuard}
    (hwg : WireGuard.new GoNet.std .calm (some config) pair = .ok wg) :
    Distinct GoNet.std wg.config pair := by
  obtain ⟨hconfig, -⟩ := WireGuard.new_ok hwg
  rw [← Option.some.inj hconfig]
  exact Or.inr keysApart_pair

end Demo

/-- In turn the traffic is reported once. -/
theorem reports_once_inTurn :
    ∃ wg, WireGuard.new GoNet.std .calm (some Demo.config) Demo.pair = .ok wg ∧
      let s := Demo.concurrentAfter Demo.inTurn wg
      s.reported (Demo.key 1).string .uplink = 100 ∧
      s.reported (Demo.key 1).string .uplink ≤ s.counted (Demo.key 1).string .uplink := by
  obtain ⟨wg, hwg⟩ := Demo.new_pair
  obtain ⟨hallowed, hvalue⟩ := Demo.holds_of_pair (fun wg =>
    Runs.Allowed (Concurrent.step GoNet.std) (fun s ev => s.Counts ev ∧ s.Fresh ev) Demo.inTurn
        (.start wg) ∧
      (Demo.concurrentAfter Demo.inTurn wg).reported (Demo.key 1).string .uplink = 100) hwg
    (by decide +kernel)
  have hspelled : ∀ ev ∈ Demo.inTurn, ∀ s : Concurrent, s.Spelled GoNet.std ev :=
    Demo.spelled_around (by simp [Demo.sampledOnce, Demo.readsPeers, Concurrent.Spelled])
  refine ⟨wg, hwg, hvalue, (reports_once GoNet.std hwg (Demo.distinct_pair hwg)
    ((Runs.Path.append .refl (hallowed.and_forall hspelled)).mono ?_)).1 _ _⟩
  exact fun s ev hok => ⟨hok.1.1, hok.2 s, hok.1.2⟩

/-- Crossed with a removal and a pull, 100 bytes are reported twice, and an
entry stays for a key that is not in the store. -/
theorem crossed_twice :
    ∃ wg s, WireGuard.new GoNet.std .calm (some Demo.config) Demo.pair = .ok wg ∧
      Distinct GoNet.std wg.config Demo.pair ∧
      Runs.Path (Concurrent.step GoNet.std) (fun s ev => s.Counts ev ∧ s.Spelled GoNet.std ev)
        (.start wg) s ∧
      s.counted (Demo.key 1).string .uplink = 100 ∧
      s.reported (Demo.key 1).string .uplink = 200 ∧
      s.updater = none ∧ s.sync = [] ∧ ¬ s.Owned := by
  obtain ⟨wg, hwg⟩ := Demo.new_pair
  obtain ⟨hallowed, hcounted, hreported, hupdater, hsync, hentry, hstore⟩ :=
    Demo.holds_of_pair (fun wg =>
      Runs.Allowed (Concurrent.step GoNet.std) (fun s ev => s.Counts ev) Demo.crossed (.start wg) ∧
        let s := Demo.concurrentAfter Demo.crossed wg
        s.counted (Demo.key 1).string .uplink = 100 ∧
        s.reported (Demo.key 1).string .uplink = 200 ∧ s.updater.isNone ∧ s.sync.isEmpty ∧
        (s.wg.statsTracker.lookup (Demo.key 1).string).map Entry.isDeleted = some false ∧
        (s.wg.peerStore.peers.lookup (Demo.key 1).string).isNone) hwg (by decide +kernel)
  have hspelled : ∀ ev ∈ Demo.crossed, ∀ s : Concurrent, s.Spelled GoNet.std ev :=
    Demo.spelled_around (by simp [Demo.sampledOnce, Demo.readsPeers, Concurrent.Spelled])
  refine ⟨wg, _, hwg, Demo.distinct_pair hwg,
    (Runs.Path.append .refl (hallowed.and_forall hspelled)).mono
      fun s ev hok => ⟨hok.1, hok.2 s⟩, hcounted, hreported,
    Option.isNone_iff_eq_none.1 hupdater, List.isEmpty_iff.1 hsync, fun howned => ?_⟩
  obtain ⟨e, he, hlive⟩ := Option.map_eq_some_iff.1 hentry
  exact howned _ e he hlive (Option.isNone_iff_eq_none.1 hstore)

end Wireguard

end NodeAgent
