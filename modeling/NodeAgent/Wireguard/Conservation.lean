import NodeAgent.Common.Runs
import NodeAgent.Wireguard.Helpers.Tracker
/-!
# The tracker loses nothing it has counted

What the tracker has reported of a key, and what it would report now, is
booked. Samples, removals, clean-ups and pulls in any order never make it
less, and it is never more than the peer has transferred, though the
kernel's counters may start again at any time. As long as they do not, it
is the last sample.

The counters are signed words. What is booked survives until what has not
been reported reaches `2^63`: then it turns negative, and the next pull
drops it.
-/

namespace NodeAgent

namespace Wireguard

/-! ## The tracker beside its peers -/

/-- Who is sampled, and under which email and endpoint. -/
structure SampleRow where
  publicKey : String
  email : String
  endpointIP : String

/-- **The tracker, and what it is about.** -/
structure Metered where
  tracker : Tracker
  /-- The counters of the peers, by key. -/
  peers : String → Gauge.Source Direction
  /-- What pulls that reset have reported, by key. -/
  reported : String → Direction → ℤ
  /-- The last sample of a key. -/
  sampled : String → Direction → ℕ

namespace Metered

/-- What can happen. -/
inductive Event
  /-- A peer transfers something. -/
  | carry (key : String) (bytes : Direction → ℕ)
  /-- The counters of a peer start again. -/
  | restart (key : String)
  /-- `UpdateStatsBatch` with what the counters show. -/
  | update (rows : List SampleRow) (now : ℤ)
  /-- `RemoveStats`, when the peer has left the kernel. -/
  | remove (key : String)
  /-- `CleanupDeletedEntries`. -/
  | cleanup (o : Order String)
  /-- `GetStats`. -/
  | getStats (keys : List String) (reset : Bool)
  /-- `GetUsersStats`. -/
  | getUsersStats (o : Order String) (reset : Bool)
  /-- `ClearAllStats`. -/
  | clear

def start : Metered where
  tracker := ∅
  peers := fun _ => .fresh
  reported := fun _ _ => 0
  sampled := fun _ _ => 0

/-- The sample of a row. -/
def sampleOf (peers : String → Gauge.Source Direction) (row : SampleRow) : Sample where
  publicKey := row.publicKey
  email := row.email
  rx := Int64.ofNat ((peers row.publicKey).count .downlink)
  tx := Int64.ofNat ((peers row.publicKey).count .uplink)
  endpointIP := row.endpointIP

/-- After a pull. -/
def pulled (m : Metered) (reset : Bool) (pull : Tracker × List Stat) : Metered :=
  { m with
    tracker := pull.1
    reported := credited reset m.reported (Tracker.shown pull.2) }

def step (m : Metered) : Event → Metered
  | .carry key bytes =>
    { m with peers := fun k => if k = key then (m.peers k).carry bytes else m.peers k }
  | .restart key =>
    { m with peers := fun k => if k = key then (m.peers k).restart else m.peers k }
  | .update rows now =>
    { m with
      tracker := m.tracker.updateStatsBatch (rows.map (sampleOf m.peers)) now
      sampled := fun k =>
        if k ∈ rows.map SampleRow.publicKey then (m.peers k).count else m.sampled k }
  | .remove key =>
    { m with
      tracker := m.tracker.removeStats key
      peers := fun k => if k = key then (m.peers k).restart else m.peers k }
  | .cleanup o => { m with tracker := m.tracker.cleanupDeletedEntries o }
  | .getStats keys reset => m.pulled reset (m.tracker.getStats keys reset)
  | .getUsersStats o reset => m.pulled reset (m.tracker.getUsersStats o reset)
  | .clear => { m with tracker := m.tracker.clearAllStats }

/-- **What is booked of a key**: what was reported, and what a pull would
report now. -/
def booked (m : Metered) (k : String) (d : Direction) : ℤ :=
  m.reported k d + m.tracker.pending k d

/-- All a peer has transferred. -/
def transferred (m : Metered) (k : String) (d : Direction) : ℕ :=
  (m.peers k).total d

end Metered

/-! ## What is pending -/

namespace Tracker

variable {t : Tracker} {s : Sample} {c : Direction → ℕ} {now : ℤ} {k : String} {d : Direction}

/-- **Every entry stands for a reading of which all that is due fits in a
word.** -/
def Sound (t : Tracker) : Prop :=
  ∀ k e, t.lookup k = some e → ∃ r, e.Owes r ∧ ∀ d, r.due d < 2 ^ 63

theorem sound_empty : Sound ∅ :=
  fun k e h => by cases h

theorem Sound.nonneg (h : t.Sound) {e : Entry} (he : t.lookup k = some e) (d : Direction) :
    0 ≤ (e.due d).toInt := by
  obtain ⟨r, howes, hfits⟩ := h k e he
  rw [howes.toInt_due hfits]
  omega

/-- **There is room for a sample**: where it is taken as growth, all that
has not been reported stays below `2^63`. -/
def Fits (t : Tracker) (s : Sample) : Prop :=
  ∀ e, t.lookup s.publicKey = some e → ¬ e.Readded → ¬ e.Fallen s →
    ∀ d, (s.bytes d).toInt - (e.base d).toInt < 2 ^ 63

theorem pending_of_lookup_eq {t' : Tracker} (h : t'.lookup k = t.lookup k) :
    t'.pending k d = t.pending k d := by
  rw [pending, pending, h]

/-- The entry a sample goes to. -/
def entryFor (t : Tracker) (s : Sample) : Entry :=
  (t.lookup s.publicKey).getD (Entry.new s.email)

/-- **What a sample adds to what is pending**: what the counters have grown
by, but nothing where they are taken to have started again. -/
def growth (t : Tracker) (s : Sample) (d : Direction) : ℤ :=
  if (t.entryFor s).Readded ∨ (t.entryFor s).Fallen s then 0
  else (s.bytes d).toInt - ((t.entryFor s).current d).toInt

theorem owes_sample {e : Entry} {r : Gauge.Reading Direction} (howes : e.Owes r)
    (hfits : ∀ d, r.due d < 2 ^ 63) (hs : s.Shows c)
    (hroom : ¬ e.Readded → ¬ e.Fallen s →
      ∀ d, (s.bytes d).toInt - (e.base d).toInt < 2 ^ 63) (now : ℤ) :
    ∃ r', (e.applySample s now).Owes r' ∧ (∀ d, r'.due d < 2 ^ 63) ∧ ∀ d, (r'.due d : ℤ) =
      r.due d + if e.Readded ∨ e.Fallen s then 0 else (s.bytes d).toInt - (e.current d).toInt := by
  by_cases hr : e.Readded
  · exact ⟨_, howes.readded hs hr now, hfits, fun d => by rw [if_pos (Or.inl hr), add_zero]⟩
  · by_cases hf : e.Fallen s
    · have hkept : (fun d => if e.due d < 0 then 0 else r.due d) = r.due := by
        funext d
        refine if_neg fun hneg => ?_
        rw [Int64.lt_iff_toInt_lt, howes.toInt_due hfits, Int64.toInt_zero] at hneg
        omega
      have hfallen := howes.fallen hs hr hf now
      rw [hkept] at hfallen
      exact ⟨_, hfallen, hfits, fun d => by rw [if_pos (Or.inr hf), add_zero]⟩
    · obtain ⟨hle, hgrown⟩ := howes.grown hs hr hf now
      refine ⟨_, hgrown, fun d => ?_, fun d => ?_⟩
      · have hd := hroom hr hf d
        have hled := hle d
        rw [hs.bytes, Words.toInt_ofNat (hs.small d), howes.toInt_base hfits] at hd
        dsimp only
        omega
      · have hled := hle d
        rw [if_neg (not_or.2 ⟨hr, hf⟩), hs.bytes, Words.toInt_ofNat (hs.small d), howes.current,
          Words.toInt_ofNat (howes.small d)]
        push_cast [hled]
        omega

theorem Sound.entryFor (h : t.Sound) (hs : s.Shows c) (hroom : t.Fits s) :
    ∃ r, (t.entryFor s).Owes r ∧ (∀ d, r.due d < 2 ^ 63) ∧
      (∀ d, t.pending s.publicKey d = r.due d) ∧
      (¬ (t.entryFor s).Readded → ¬ (t.entryFor s).Fallen s →
        ∀ d, (s.bytes d).toInt - ((t.entryFor s).base d).toInt < 2 ^ 63) := by
  unfold Tracker.entryFor
  cases he : t.lookup s.publicKey with
  | none =>
    refine ⟨_, Entry.owes_new s.email, fun d => Nat.two_pow_pos 63, fun d => ?_, fun _ _ d => ?_⟩
    · rw [pending, he]
      rfl
    · have hbase : ((Entry.new s.email).base d).toInt = 0 := by cases d <;> rfl
      have hsmall := hs.small d
      rw [Option.getD_none, hbase, hs.bytes, Words.toInt_ofNat hsmall]
      omega
  | some e =>
    obtain ⟨r, howes, hfits⟩ := h _ e he
    refine ⟨r, howes, hfits, fun d => ?_, hroom e he⟩
    rw [pending, he]
    exact howes.toInt_due hfits d

/-- **What is pending after a sample.** -/
theorem Sound.applySample (h : t.Sound) (hs : s.Shows c) (hroom : t.Fits s) (now : ℤ) :
    (t.applySample s now).Sound ∧ ∀ k d, (t.applySample s now).pending k d =
      t.pending k d + if k = s.publicKey then t.growth s d else 0 := by
  obtain ⟨r, howes, hfits, hpending, hroom'⟩ := h.entryFor hs hroom
  obtain ⟨r', howes', hfits', hmore⟩ := owes_sample howes hfits hs hroom' now
  have hlookup := t.lookup_applySample s now
  refine ⟨fun k e' hk => ?_, fun k d => ?_⟩
  · rw [hlookup] at hk
    split_ifs at hk
    · obtain rfl := Option.some.inj hk
      exact ⟨r', howes', hfits'⟩
    · exact h k e' hk
  · by_cases hk : k = s.publicKey
    · subst hk
      rw [if_pos rfl, hpending, Tracker.growth, ← hmore d, pending, hlookup, if_pos rfl]
      exact howes'.toInt_due hfits' d
    · rw [if_neg hk, add_zero]
      exact pending_of_lookup_eq (by rw [hlookup, if_neg hk])

theorem growth_nonneg (t : Tracker) (s : Sample) (d : Direction) : 0 ≤ t.growth s d := by
  unfold growth
  split_ifs with hagain
  · exact le_refl _
  · have hle : ¬ s.bytes d < (t.entryFor s).current d := fun hlt => hagain (Or.inr ⟨d, hlt⟩)
    rw [Int64.lt_iff_toInt_lt] at hle
    omega

theorem Sound.removeStats (h : t.Sound) (key : String) :
    (t.removeStats key).Sound ∧ ∀ k d, (t.removeStats key).pending k d = t.pending k d := by
  have hlookup := t.lookup_removeStats key
  refine ⟨fun k e hk => ?_, fun k d => ?_⟩
  · rw [hlookup] at hk
    split_ifs at hk with heq
    · obtain ⟨e', he', rfl⟩ := Option.map_eq_some_iff.1 hk
      obtain ⟨r, howes, hfits⟩ := h key e' he'
      have hstands : (t.removeStats key).Stands key (some { r with gone := true }) :=
        Stands.removeStats (stands_some_iff.2 ⟨e', he', howes⟩)
      obtain ⟨e'', he'', howes''⟩ := stands_some_iff.1 hstands
      rw [hlookup, if_pos rfl, he'] at he''
      obtain rfl := Option.some.inj he''
      exact ⟨_, howes'', hfits⟩
    · exact h k e hk
  · rw [pending, pending, hlookup]
    split_ifs with heq
    · subst heq
      cases t.lookup k with
      | none => rfl
      | some e => cases d <;> rfl
    · rfl

theorem pullOne_conserves (h : ∀ e, t.lookup k = some e → ∀ d, 0 ≤ (e.due d).toInt)
    (stats : List Stat) (key : String) :
    (∀ e, (Tracker.pullOne true (t, stats) key).1.lookup k = some e → ∀ d, 0 ≤ (e.due d).toInt) ∧
      ∀ d, shown (Tracker.pullOne true (t, stats) key).2 k d +
          (Tracker.pullOne true (t, stats) key).1.pending k d =
        shown stats k d + t.pending k d := by
  obtain ⟨hlookup, hshown⟩ := pullOne_eq true t stats key
  by_cases heq : key = k
  · subst heq
    have hkey := hlookup key
    rw [if_pos ⟨rfl, rfl⟩] at hkey
    -- of what is left of the entry nothing is due
    have hzero : ∀ e e' : Entry, e.pulled = some e' → ∀ d, e'.due d = 0 := by
      intro e e' he d
      unfold Entry.pulled at he
      split_ifs at he
      rw [← Option.some.inj he]
      cases d <;> exact Int64.sub_self _
    refine ⟨fun e' he' d => ?_, fun d => ?_⟩
    · rw [hkey] at he'
      obtain ⟨e, -, hpulled⟩ := Option.bind_eq_some_iff.1 he'
      rw [hzero e e' hpulled d]
      exact le_refl _
    · rw [hshown, if_pos rfl, pending, pending, hkey]
      cases he : t.lookup key with
      | none => simp
      | some e =>
        have hnonneg := h e he d
        have hrest : (e.pulled.elim 0 fun e' => (e'.due d).toInt) = 0 := by
          cases hpulled : e.pulled with
          | none => rfl
          | some e' =>
            simp only [Option.elim, hzero e e' hpulled d]
            rfl
        simp only [Option.elim, Option.bind_some] at hrest ⊢
        rw [hrest]
        omega
  · have hsame : (Tracker.pullOne true (t, stats) key).1.lookup k = t.lookup k := by
      rw [hlookup, if_neg fun hand => heq hand.1.symm]
    refine ⟨fun e he => h e (hsame ▸ he), fun d => ?_⟩
    rw [hshown, if_neg heq, add_zero, pending_of_lookup_eq hsame]

/-- **A pull that resets reports what was pending.** -/
theorem getStats_conserves (h : ∀ e, t.lookup k = some e → ∀ d, 0 ≤ (e.due d).toInt)
    (keys : List String) (d : Direction) :
    shown (t.getStats keys true).2 k d + (t.getStats keys true).1.pending k d =
      t.pending k d := by
  have hall : (∀ e, (t.getStats keys true).1.lookup k = some e → ∀ d, 0 ≤ (e.due d).toInt) ∧
      ∀ d, shown (t.getStats keys true).2 k d + (t.getStats keys true).1.pending k d =
        t.pending k d := by
    unfold Tracker.getStats
    induction keys using List.reverseRecOn with
    | nil => exact ⟨h, fun d => zero_add _⟩
    | append_singleton keys key ih =>
      obtain ⟨hnonneg, hsame⟩ := ih
      rw [List.foldl_append, List.foldl_cons, List.foldl_nil]
      obtain ⟨hnonneg', hsame'⟩ := pullOne_conserves hnonneg
        (keys.foldl (Tracker.pullOne true) (t, [])).2 key
      exact ⟨hnonneg', fun d => (hsame' d).trans (hsame d)⟩
  exact hall.2 d

theorem Sound.getStats (h : t.Sound) (keys : List String) : (t.getStats keys true).1.Sound := by
  intro k e' he'
  cases he : t.lookup k with
  | none =>
    obtain ⟨r', hstands, hpulled⟩ := Stands.getStats (stands_none_iff.2 he) keys
    rw [hpulled.of_none.2, stands_none_iff, he'] at hstands
    cases hstands
  | some e =>
    obtain ⟨r, howes, hfits⟩ := h k e he
    obtain ⟨r', hstands, hpulled⟩ := Stands.getStats (stands_some_iff.2 ⟨e, he, howes⟩) keys
    rcases hpulled.of_some with ⟨q, rfl, -, -, hle⟩ | ⟨rfl, -⟩
    · obtain ⟨e'', he'', howes''⟩ := stands_some_iff.1 hstands
      rw [he'] at he''
      obtain rfl := Option.some.inj he''
      exact ⟨q, howes'', fun d => (hle d).trans_lt (hfits d)⟩
    · rw [stands_none_iff, he'] at hstands
      cases hstands

theorem Sound.cleanup (h : t.Sound) (o : Order String) :
    (t.cleanupDeletedEntries o).Sound ∧
      ∀ k d, (t.cleanupDeletedEntries o).pending k d = t.pending k d := by
  have hlookup := t.lookup_cleanup o
  refine ⟨fun k e hk => ?_, fun k d => ?_⟩
  · rw [hlookup] at hk
    exact h k e (Option.filter_eq_some_iff.1 hk).1
  · rw [pending, pending, hlookup]
    cases t.lookup k with
    | none => rfl
    | some e =>
      rw [Option.filter_some]
      split_ifs with hspent
      · rfl
      · have hall : e.isSpent = true := by simpa using hspent
        rw [Entry.isSpent, Bool.and_eq_true, Bool.and_eq_true, decide_eq_true_eq,
          decide_eq_true_eq] at hall
        have hzero : e.due d = 0 := by
          cases d with
          | uplink => exact (congrArg (· - e.baseTx) hall.2).trans (Int64.sub_self _)
          | downlink => exact (congrArg (· - e.baseRx) hall.1.2).trans (Int64.sub_self _)
        simp [hzero]

end Tracker

namespace Metered

open Tracker

variable {m : Metered} {k : String} {d : Direction}

/-! ## Never less -/

/-- The rows that are sampled, and when. -/
def Event.batch : Event → Option (List SampleRow × ℤ)
  | .update rows now => some (rows, now)
  | _ => none

/-- **The counters that are sampled are those of non-negative words.** -/
def Counts (m : Metered) (ev : Event) : Prop :=
  ∀ b ∈ ev.batch, Readable m.peers (b.1.map SampleRow.publicKey)

/-- **There is room for what is sampled.** -/
def Fits (m : Metered) (ev : Event) : Prop :=
  ∀ b ∈ ev.batch, Runs.Allowed (fun t s => Tracker.applySample t s b.2) Tracker.Fits
    (b.1.map (sampleOf m.peers)) m.tracker

variable {row : SampleRow}

theorem shows_sampleOf {peers : String → Gauge.Source Direction}
    (h : ∀ d, (peers row.publicKey).count d < 2 ^ 63) :
    (sampleOf peers row).Shows (peers row.publicKey).count where
  bytes := fun d => by cases d <;> rfl
  small := h

theorem sound_updateStatsBatch {t : Tracker} {samples : List Sample} {now : ℤ} (h : t.Sound)
    (hshows : ∀ s ∈ samples, ∃ c, s.Shows c)
    (hroom : Runs.Allowed (fun t s => Tracker.applySample t s now) Tracker.Fits samples t) :
    (t.updateStatsBatch samples now).Sound ∧
      ∀ k d, t.pending k d ≤ (t.updateStatsBatch samples now).pending k d := by
  unfold updateStatsBatch
  induction samples generalizing t with
  | nil => exact ⟨h, fun k d => le_refl _⟩
  | cons s samples ih =>
    obtain ⟨c, hs⟩ := hshows s (List.mem_cons_self ..)
    obtain ⟨hsound, hpending⟩ := h.applySample hs hroom.1 now
    obtain ⟨hsound', hmore'⟩ := ih hsound (fun s' hs' => hshows s' (List.mem_cons_of_mem _ hs'))
      hroom.2
    refine ⟨hsound', fun k d => le_trans ?_ (hmore' k d)⟩
    have hgrowth := t.growth_nonneg s d
    rw [hpending]
    split_ifs <;> omega

theorem sound_pulled (h : m.tracker.Sound) (keys : List String) (reset : Bool) :
    (m.pulled reset (m.tracker.getStats keys reset)).tracker.Sound ∧
      ∀ k d, (m.pulled reset (m.tracker.getStats keys reset)).booked k d = m.booked k d := by
  cases reset with
  | false =>
    unfold pulled booked
    rw [getStats_false]
    exact ⟨h, fun k d => rfl⟩
  | true =>
    refine ⟨h.getStats keys, fun k d => ?_⟩
    have hkd := getStats_conserves (k := k) (fun e he => h.nonneg he) keys d
    show m.reported k d + shown (m.tracker.getStats keys true).2 k d +
      (m.tracker.getStats keys true).1.pending k d = m.reported k d + m.tracker.pending k d
    omega

/-- **One step**: the entries stay sound, and but for `ClearAllStats` no
less is booked than before. -/
theorem step_sound (h : m.tracker.Sound) {ev : Event} (hcounts : m.Counts ev) (hfits : m.Fits ev) :
    (m.step ev).tracker.Sound ∧ (ev ≠ .clear → ∀ k d, m.booked k d ≤ (m.step ev).booked k d) := by
  cases ev with
  | carry key bytes => exact ⟨h, fun _ k d => le_refl _⟩
  | restart key => exact ⟨h, fun _ k d => le_refl _⟩
  | update rows now =>
    have hshows : ∀ s ∈ rows.map (sampleOf m.peers), ∃ c, s.Shows c := by
      intro s hs
      obtain ⟨row, hrow, rfl⟩ := List.mem_map.1 hs
      exact ⟨_, shows_sampleOf (hcounts _ rfl _ (List.mem_map_of_mem hrow))⟩
    obtain ⟨hsound, hmore⟩ := sound_updateStatsBatch h hshows (hfits _ rfl)
    exact ⟨hsound, fun _ k d => Int.add_le_add_left (hmore k d) _⟩
  | remove key =>
    obtain ⟨hsound, hsame⟩ := h.removeStats key
    exact ⟨hsound, fun _ k d => (congrArg (m.reported k d + ·) (hsame k d)).ge⟩
  | cleanup o =>
    obtain ⟨hsound, hsame⟩ := h.cleanup o
    exact ⟨hsound, fun _ k d => (congrArg (m.reported k d + ·) (hsame k d)).ge⟩
  | getStats keys reset =>
    obtain ⟨hsound, hsame⟩ := sound_pulled h keys reset
    exact ⟨hsound, fun _ k d => (hsame k d).ge⟩
  | getUsersStats o reset =>
    obtain ⟨hsound, hsame⟩ := sound_pulled h ((GoMap.range o m.tracker).map Prod.fst) reset
    exact ⟨hsound, fun _ k d => (hsame k d).ge⟩
  | clear => exact ⟨sound_empty, fun hne => absurd rfl hne⟩

theorem sound_of_run (h : Runs.Path step (fun m ev => m.Counts ev ∧ m.Fits ev) start m) :
    m.tracker.Sound :=
  h.invariant (I := fun m => m.tracker.Sound)
    (fun _ _ hm hok => (step_sound hm hok.1 hok.2).1) sound_empty

/-! ## Never more than was transferred -/

/-- **What is reported and due of every key is covered by its peer.** -/
def Covered (m : Metered) : Prop :=
  ∀ k, ∃ r, m.tracker.Stands k r ∧ Gauge.Covered (m.reported k) r (m.peers k)

theorem Covered.booked_le (h : m.Covered) (k : String) (d : Direction) :
    m.booked k d ≤ m.transferred k d := by
  obtain ⟨r, hstands, hcovered⟩ := h k
  unfold booked transferred pending
  cases r with
  | none =>
    rw [stands_none_iff.1 hstands]
    have hle := hcovered.reported_le d
    simpa using hle
  | some r =>
    obtain ⟨e, he, howes⟩ := stands_some_iff.1 hstands
    have hdue := howes.toInt_due_le d
    have hall := hcovered.booked_le d
    rw [he]
    simp only [Option.elim]
    omega

theorem covered_applySample {m : Metered} (h : m.Covered)
    (hcount : ∀ d, (m.peers row.publicKey).count d < 2 ^ 63) (now : ℤ) :
    ({ m with tracker := m.tracker.applySample (sampleOf m.peers row) now } : Metered).Covered := by
  intro k
  obtain ⟨r, hstands, hcovered⟩ := h k
  by_cases hk : k = row.publicKey
  · subst hk
    obtain ⟨r', hstands', htaken⟩ := Stands.applySample (s := sampleOf m.peers row) hstands
      (shows_sampleOf hcount) now
    exact ⟨some r', hstands', hcovered.sample (Gauge.Source.leads_refl _) htaken⟩
  · exact ⟨r, hstands.applySample_other hk now, hcovered⟩

theorem covered_update {m : Metered} (h : m.Covered) {rows : List SampleRow}
    (hcounts : Readable m.peers (rows.map SampleRow.publicKey)) (now : ℤ) :
    ({ m with tracker := m.tracker.updateStatsBatch (rows.map (sampleOf m.peers)) now } :
      Metered).Covered := by
  unfold updateStatsBatch
  induction rows using List.reverseRecOn with
  | nil => exact h
  | append_singleton rows row ih =>
    rw [List.map_append] at hcounts ⊢
    rw [List.foldl_append]
    exact covered_applySample (ih fun k hk => hcounts k (List.mem_append_left _ hk))
      (hcounts row.publicKey (by simp)) now

theorem covered_pulled (h : m.Covered) (keys : List String) (reset : Bool) :
    (m.pulled reset (m.tracker.getStats keys reset)).Covered := by
  intro k
  obtain ⟨r, hstands, hcovered⟩ := h k
  cases reset with
  | false =>
    refine ⟨r, ?_, hcovered⟩
    unfold pulled
    rw [getStats_false]
    exact hstands
  | true =>
    obtain ⟨r', hstands', hpulled⟩ := hstands.getStats keys
    exact ⟨r', hstands', hcovered.pulled hpulled⟩

/-- **One step**, but for `ClearAllStats`. -/
theorem Covered.step (h : m.Covered) {ev : Event} (hcounts : m.Counts ev) (hclear : ev ≠ .clear) :
    (m.step ev).Covered := by
  cases ev with
  | carry key bytes =>
    intro k
    obtain ⟨r, hstands, hcovered⟩ := h k
    refine ⟨r, hstands, ?_⟩
    show Gauge.Covered _ _ (if k = key then _ else _)
    split_ifs
    · exact hcovered.carry bytes
    · exact hcovered
  | restart key =>
    intro k
    obtain ⟨r, hstands, hcovered⟩ := h k
    refine ⟨r, hstands, ?_⟩
    show Gauge.Covered _ _ (if k = key then _ else _)
    split_ifs
    · exact hcovered.restart
    · exact hcovered
  | update rows now => exact covered_update h (hcounts _ rfl) now
  | remove key =>
    intro k
    obtain ⟨r, hstands, hcovered⟩ := h k
    by_cases hk : k = key
    · -- its peer is gone from the kernel, and its counters with it
      subst hk
      refine ⟨_, hstands.removeStats, ?_⟩
      show Gauge.Covered _ _ (if k = k then _ else _)
      rw [if_pos rfl]
      cases r with
      | none => exact hcovered.restart
      | some r => exact hcovered.restart.retire rfl fun _ => rfl
    · refine ⟨r, hstands.congr ?_, ?_⟩
      · exact (m.tracker.lookup_removeStats key k).trans (if_neg hk)
      · show Gauge.Covered _ _ (if k = key then _ else _)
        rw [if_neg hk]
        exact hcovered
  | cleanup o =>
    intro k
    obtain ⟨r, hstands, hcovered⟩ := h k
    rcases hstands.cleanup o with hsame | ⟨hnone, q, rfl, hgone⟩
    · exact ⟨r, hsame, hcovered⟩
    · exact ⟨none, hnone, hcovered.forget hgone⟩
  | getStats keys reset => exact covered_pulled h keys reset
  | getUsersStats o reset => exact covered_pulled h _ reset
  | clear => exact absurd rfl hclear

theorem covered_of_run (h : Runs.Path step (fun m ev => m.Counts ev ∧ ev ≠ .clear) start m) :
    m.Covered :=
  h.invariant (I := Covered) (fun _ _ hm hok => hm.step hok.1 hok.2)
    fun _ => ⟨none, stands_none_iff.2 rfl, Gauge.Covered.fresh⟩

/-! ## The last sample -/

/-- **The counters of a key are left alone**: they do not start again, and
the key is not removed. -/
def Undisturbed (k : String) (ev : Event) : Prop :=
  ev ≠ .restart k ∧ ev ≠ .remove k ∧ ev ≠ .clear

/-- **The tracker has just what it saw last of a key**, reported or due;
`last` is what it saw. -/
def Exact (m : Metered) (k : String) (last : Direction → ℕ) : Prop :=
  (m.tracker.Stands k none ∧ ∀ d, m.reported k d = 0 ∧ last d = 0) ∨
    ∃ r, m.tracker.Stands k (some r) ∧ r.gone = false ∧ r.seen = last ∧
      ∀ d, 0 ≤ m.reported k d ∧ m.reported k d + r.due d = last d ∧
        last d ≤ (m.peers k).count d

variable {last : Direction → ℕ}

theorem Exact.booked_eq (h : m.Exact k last) (d : Direction) :
    m.booked k d = last d := by
  unfold booked pending
  rcases h with ⟨hnone, hzero⟩ | ⟨r, hstands, -, rfl, hall⟩
  · rw [stands_none_iff.1 hnone, (hzero d).1, (hzero d).2]
    rfl
  · obtain ⟨e, he, howes⟩ := stands_some_iff.1 hstands
    have hfits : ∀ d, r.due d < 2 ^ 63 := by
      intro d
      have hsmall := howes.small d
      have hd := hall d
      omega
    rw [he]
    simp only [Option.elim]
    rw [howes.toInt_due hfits]
    exact (hall d).2.1

theorem Exact.applySample {m : Metered} (h : m.Exact row.publicKey last)
    (hcount : ∀ d, (m.peers row.publicKey).count d < 2 ^ 63) (now : ℤ) :
    ({ m with tracker := m.tracker.applySample (sampleOf m.peers row) now } : Metered).Exact
      row.publicKey (m.peers row.publicKey).count := by
  have hshows := shows_sampleOf hcount
  have hlookup := m.tracker.lookup_applySample (sampleOf m.peers row) now row.publicKey
  rw [if_pos (show row.publicKey = (sampleOf m.peers row).publicKey from rfl)] at hlookup
  right
  rcases h with ⟨hnone, hzero⟩ | ⟨r, hstands, hgone, rfl, hall⟩
  · have howes := Entry.owes_new row.email
    have hr : ¬ (Entry.new row.email).Readded := howes.not_readded rfl
    have hf : ¬ (Entry.new row.email).Fallen (sampleOf m.peers row) := by
      rintro ⟨d, hd⟩
      exact absurd ((howes.lt_iff hshows).1 hd) (Nat.not_lt_zero _)
    obtain ⟨-, hgrown⟩ := howes.grown hshows hr hf now
    have hthere : m.tracker.lookup (sampleOf m.peers row).publicKey = none :=
      stands_none_iff.1 hnone
    rw [hthere, Option.getD_none] at hlookup
    refine ⟨_, stands_some_iff.2 ⟨_, hlookup, hgrown⟩, rfl, rfl, fun d => ?_⟩
    have hd := (hzero d).1
    dsimp only
    omega
  · obtain ⟨e, he, howes⟩ := stands_some_iff.1 hstands
    have hf : ¬ e.Fallen (sampleOf m.peers row) := by
      rintro ⟨d, hd⟩
      have hlt := (howes.lt_iff hshows).1 hd
      have hle := (hall d).2.2
      omega
    obtain ⟨hle, hgrown⟩ := howes.grown hshows (howes.not_readded hgone) hf now
    have hthere : m.tracker.lookup (sampleOf m.peers row).publicKey = some e := he
    rw [hthere, Option.getD_some] at hlookup
    refine ⟨_, stands_some_iff.2 ⟨_, hlookup, hgrown⟩, rfl, rfl, fun d => ?_⟩
    have hd := hall d
    have hled := hle d
    dsimp only
    omega

theorem Exact.update {m : Metered} (h : m.Exact k last)
    {rows : List SampleRow} (hcounts : Readable m.peers (rows.map SampleRow.publicKey)) (now : ℤ) :
    ({ m with tracker := m.tracker.updateStatsBatch (rows.map (sampleOf m.peers)) now } :
      Metered).Exact k
        (if k ∈ rows.map SampleRow.publicKey then (m.peers k).count else last) := by
  unfold updateStatsBatch
  induction rows using List.reverseRecOn with
  | nil => simpa using h
  | append_singleton rows row ih =>
    rw [List.map_append] at hcounts
    have hsofar := ih fun k hk => hcounts k (List.mem_append_left _ hk)
    rw [List.map_append, List.foldl_append, List.map_append]
    by_cases hk : k = row.publicKey
    · subst hk
      rw [if_pos (by simp)]
      exact hsofar.applySample (hcounts row.publicKey (by simp)) now
    · have hmem : k ∈ rows.map SampleRow.publicKey ++ [row].map SampleRow.publicKey ↔
          k ∈ rows.map SampleRow.publicKey := by simp [hk]
      simp only [hmem]
      rcases hsofar with ⟨hnone, hzero⟩ | ⟨r, hstands, hrest⟩
      · exact Or.inl ⟨hnone.applySample_other hk now, hzero⟩
      · exact Or.inr ⟨r, hstands.applySample_other hk now, hrest⟩

theorem Exact.pulled (h : m.Exact k last) (keys : List String)
    (reset : Bool) : (m.pulled reset (m.tracker.getStats keys reset)).Exact k last := by
  cases reset with
  | false =>
    unfold Metered.pulled
    rw [getStats_false]
    exact h
  | true =>
    have hbooked := h.booked_eq
    rcases h with ⟨hnone, hzero⟩ | ⟨r, hstands, hgone, rfl, hall⟩
    · obtain ⟨r', hstands', hpulled⟩ := hnone.getStats keys
      obtain ⟨hnothing, rfl⟩ := hpulled.of_none
      refine Or.inl ⟨hstands', fun d => ⟨?_, (hzero d).2⟩⟩
      show m.reported k d + shown (m.tracker.getStats keys true).2 k d = 0
      rw [hnothing, (hzero d).1]
      rfl
    · obtain ⟨e, he, howes⟩ := stands_some_iff.1 hstands
      have hfits : ∀ d, r.due d < 2 ^ 63 := by
        intro d
        have hsmall := howes.small d
        have hd := hall d
        omega
      have hsame := getStats_conserves (t := m.tracker) (k := k) (fun e' he' d => by
        rw [he] at he'
        rw [← Option.some.inj he', howes.toInt_due hfits]
        omega) keys
      obtain ⟨r', hstands', hpulled⟩ := hstands.getStats keys
      have hnonneg := hpulled.nonneg
      obtain ⟨q, rfl, hqseen, hqgone, hle⟩ | ⟨-, hdead⟩ := hpulled.of_some
      swap
      · rw [hgone] at hdead
        cases hdead
      refine Or.inr ⟨q, hstands', hqgone.trans hgone, hqseen, fun d => ?_⟩
      obtain ⟨e', he', howes'⟩ := stands_some_iff.1 hstands'
      have hleft : (m.tracker.getStats keys true).1.pending k d = q.due d := by
        rw [pending, he']
        exact howes'.toInt_due (fun d => (hle d).trans_lt (hfits d)) d
      have hbefore : m.tracker.pending k d = r.due d := by
        rw [pending, he]
        exact howes.toInt_due hfits d
      have hd := hsame d
      have hnn := hnonneg d
      have halld := hall d
      rw [hleft, hbefore] at hd
      show 0 ≤ m.reported k d + shown (m.tracker.getStats keys true).2 k d ∧
        m.reported k d + shown (m.tracker.getStats keys true).2 k d + q.due d = r.seen d ∧
          r.seen d ≤ (m.peers k).count d
      omega

/-- **One step** that leaves the counters of the key alone. -/
theorem Exact.step (h : m.Exact k (m.sampled k)) {ev : Event} (hcounts : m.Counts ev)
    (hquiet : Undisturbed k ev) : (m.step ev).Exact k ((m.step ev).sampled k) := by
  cases ev with
  | carry key bytes =>
    rcases h with hnone | ⟨r, hstands, hgone, hseen, hall⟩
    · exact Or.inl hnone
    · refine Or.inr ⟨r, hstands, hgone, hseen, fun d => ⟨(hall d).1, (hall d).2.1, ?_⟩⟩
      refine (hall d).2.2.trans ?_
      show _ ≤ (if k = key then (m.peers k).carry bytes else m.peers k).count d
      split_ifs
      · exact Nat.le_add_right _ _
      · exact le_refl _
  | restart key =>
    have hk : k ≠ key := fun heq => hquiet.1 (by rw [heq])
    rcases h with hnone | ⟨r, hstands, hgone, hseen, hall⟩
    · exact Or.inl hnone
    · refine Or.inr ⟨r, hstands, hgone, hseen, fun d => ⟨(hall d).1, (hall d).2.1, ?_⟩⟩
      show _ ≤ (if k = key then (m.peers k).restart else m.peers k).count d
      rw [if_neg hk]
      exact (hall d).2.2
  | update rows now => exact h.update (hcounts _ rfl) now
  | remove key =>
    have hk : k ≠ key := fun heq => hquiet.2.1 (by rw [heq])
    have hlookup : (m.tracker.removeStats key).lookup k = m.tracker.lookup k :=
      (m.tracker.lookup_removeStats key k).trans (if_neg hk)
    rcases h with ⟨hnone, hzero⟩ | ⟨r, hstands, hgone, hseen, hall⟩
    · exact Or.inl ⟨hnone.congr hlookup, hzero⟩
    · refine Or.inr ⟨r, hstands.congr hlookup, hgone, hseen,
        fun d => ⟨(hall d).1, (hall d).2.1, ?_⟩⟩
      show _ ≤ (if k = key then (m.peers k).restart else m.peers k).count d
      rw [if_neg hk]
      exact (hall d).2.2
  | cleanup o =>
    rcases h with ⟨hnone, hzero⟩ | ⟨r, hstands, hgone, hrest⟩
    · rcases hnone.cleanup o with hsame | ⟨-, q, hq, -⟩
      · exact Or.inl ⟨hsame, hzero⟩
      · cases hq
    · rcases hstands.cleanup o with hsame | ⟨-, q, hq, hdead⟩
      · exact Or.inr ⟨r, hsame, hgone, hrest⟩
      · rw [← Option.some.inj hq, hgone] at hdead
        cases hdead
  | getStats keys reset => exact h.pulled keys reset
  | getUsersStats o reset => exact h.pulled _ reset
  | clear => exact absurd rfl hquiet.2.2

theorem exact_of_run
    (h : Runs.Path step (fun m ev => m.Counts ev ∧ Undisturbed k ev) start m) :
    m.Exact k (m.sampled k) :=
  h.invariant (I := fun m => m.Exact k (m.sampled k)) (fun _ _ hm hok => hm.step hok.1 hok.2)
    (Or.inl ⟨stands_none_iff.2 rfl, fun _ => ⟨rfl, rfl⟩⟩)

/-! ## When there is no room -/

/-- **Without room for it a sample turns what is pending negative.** -/
theorem pending_lt_of_not_fits {t : Tracker} {s : Sample} {c : Direction → ℕ} (h : t.Sound)
    (hs : s.Shows c) (hno : ¬ t.Fits s) (now : ℤ) :
    ∃ d, (t.applySample s now).pending s.publicKey d < t.pending s.publicKey d := by
  unfold Tracker.Fits at hno
  push Not at hno
  obtain ⟨e, he, hr, hf, d, hd⟩ := hno
  obtain ⟨r, howes, hfits⟩ := h _ e he
  refine ⟨d, ?_⟩
  have hnow : (t.applySample s now).pending s.publicKey d = (s.bytes d - e.base d).toInt := by
    rw [pending, lookup_applySample, if_pos rfl, he]
    exact congrArg Int64.toInt (Entry.applySample_due_of_grown hr hf)
  have hbefore : t.pending s.publicKey d = r.due d := by
    rw [pending, he]
    exact howes.toInt_due hfits d
  have hsmall := hs.small d
  have hdue := hfits d
  rw [hs.bytes, Words.toInt_ofNat hsmall, howes.toInt_base hfits] at hd
  rw [hnow, hbefore, Int64.toInt_sub, hs.bytes, Words.toInt_ofNat hsmall, howes.toInt_base hfits,
    Int.bmod_def]
  omega

end Metered

/-- **Tracker conservation.** As long as there is room for what is sampled,
every base is at most its current value, and no step but `ClearAllStats`
makes less of what is booked. In every run without that, room or not, no
more is booked than was transferred, and of a key that is left alone just
the last sample. And from any state reached with room a sample for which
there is none makes less of what is booked. -/
theorem tracker_conserves (m : Metered) :
    (Runs.Path Metered.step (fun m ev => m.Counts ev ∧ m.Fits ev) .start m →
      (∀ k e d, m.tracker.lookup k = some e → e.base d ≤ e.current d) ∧
      (∀ ev, m.Counts ev → m.Fits ev → ev ≠ .clear →
        ∀ k d, m.booked k d ≤ (m.step ev).booked k d) ∧
      ∀ row now, m.Counts (.update [row] now) → ¬ m.Fits (.update [row] now) →
        ∃ d, (m.step (.update [row] now)).booked row.publicKey d < m.booked row.publicKey d) ∧
    (Runs.Path Metered.step (fun m ev => m.Counts ev ∧ ev ≠ .clear) .start m →
      ∀ k d, m.booked k d ≤ m.transferred k d) ∧
    ∀ k, Runs.Path Metered.step (fun m ev => m.Counts ev ∧ Metered.Undisturbed k ev) .start m →
      ∀ d, m.booked k d = m.sampled k d := by
  refine ⟨fun hrun => ?_, fun hrun => (Metered.covered_of_run hrun).booked_le,
    fun k hrun => (Metered.exact_of_run hrun).booked_eq⟩
  have hsound := Metered.sound_of_run hrun
  refine ⟨fun k e d he => ?_, fun ev hcounts hfits => (Metered.step_sound hsound hcounts hfits).2,
    fun row now hcounts hno => ?_⟩
  · obtain ⟨r, howes, hroom⟩ := hsound k e he
    exact howes.base_le hroom d
  · have hshows := Metered.shows_sampleOf (hcounts _ rfl _ (List.mem_singleton_self _))
    have hsample : ¬ m.tracker.Fits (Metered.sampleOf m.peers row) := by
      rintro hfits
      refine hno fun b hb => ?_
      obtain rfl := Option.some.inj hb
      exact ⟨hfits, trivial⟩
    obtain ⟨d, hd⟩ := Metered.pending_lt_of_not_fits hsound hshows hsample now
    exact ⟨d, Int.add_lt_add_left hd _⟩

/-! ## Runs that can be computed -/

instance Tracker.decidableFits (t : Tracker) (s : Sample) : Decidable (t.Fits s) :=
  inferInstanceAs (Decidable (∀ e ∈ t.lookup s.publicKey, ¬ e.Readded → ¬ e.Fallen s →
    ∀ d, (s.bytes d).toInt - (e.base d).toInt < 2 ^ 63))

instance Metered.decidableCounts (m : Metered) (ev : Metered.Event) : Decidable (m.Counts ev) :=
  inferInstanceAs (Decidable (∀ b ∈ ev.batch, Readable _ _))

instance Metered.decidableFits (m : Metered) (ev : Metered.Event) : Decidable (m.Fits ev) :=
  inferInstanceAs (Decidable (∀ b ∈ ev.batch, Runs.Allowed _ _ _ _))

namespace Demo

def peerRow : SampleRow :=
  ⟨"k", "user", "203.0.113.7"⟩

def carried (bytes : ℕ) : Metered.Event :=
  .carry "k" fun _ => bytes

/-- Traffic, a pull, counters that start again, a removal, and the key
again. -/
def meteredDay : List Metered.Event :=
  [carried 100, .update [peerRow] 1, .getStats ["k", "k"] true, carried 20, .update [peerRow] 2,
    .restart "k", carried 30, .update [peerRow] 3, .remove "k", .cleanup .given, carried 5,
    .update [peerRow] 4, carried 7, .update [peerRow, peerRow] 5]

def meteredFlood : List Metered.Event :=
  [carried (2 ^ 63 - 1), .update [peerRow] 1, .restart "k", .update [peerRow] 2, carried 2]

end Demo

/-- After such a day 127 bytes are booked of 162. -/
theorem tracker_conserves_day :
    let m := Demo.meteredDay.foldl Metered.step .start
    (∀ d, m.booked "k" d ≤ (m.step (.getUsersStats .given true)).booked "k" d) ∧
      (m.booked "k" .uplink = 127 ∧ m.transferred "k" .uplink = 162) := by
  intro m
  have hrun : Runs.Path Metered.step (fun m ev => m.Counts ev ∧ m.Fits ev) .start m :=
    Runs.Path.append .refl (by decide +kernel)
  exact ⟨((tracker_conserves m).1 hrun).2.1 (.getUsersStats .given true) (by simp [Metered.Counts,
    Metered.Event.batch]) (by simp [Metered.Fits, Metered.Event.batch]) (by simp) "k",
    by decide +kernel⟩

/-- Two bytes more than fit, across a restart of the counters: what is
booked drops by all that was, and a pull reports nothing. -/
theorem flood_lost :
    ∃ m, Runs.Path Metered.step (fun m ev => m.Counts ev ∧ ev ≠ .clear) .start m ∧
      m.Counts (.update [Demo.peerRow] 3) ∧
      m.booked "k" .uplink = 2 ^ 63 - 1 ∧
      (m.step (.update [Demo.peerRow] 3)).booked "k" .uplink < m.booked "k" .uplink ∧
      ((m.step (.update [Demo.peerRow] 3)).tracker.getUsersStats .given true).2 = [] := by
  have hallowed : Runs.Allowed Metered.step Metered.Counts Demo.meteredFlood .start := by
    decide +kernel
  have hclear : ∀ ev ∈ Demo.meteredFlood, ev ≠ .clear := by
    simp [Demo.meteredFlood, Demo.carried]
  exact ⟨_, Runs.Path.append .refl (hallowed.and_forall hclear), by decide +kernel,
    by decide +kernel, by decide +kernel, by decide +kernel⟩

end Wireguard

end NodeAgent
