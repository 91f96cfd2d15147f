import NodeAgent.Common.Gauge
import NodeAgent.Common.Words
import NodeAgent.Wireguard.Model.Tracker
/-!
# What the tracker does to an entry

The two directions of an entry are handled alike, so they are read here as
functions of the direction. `Owes` says which reading of a counter an
entry stands for: words that wrap around stand for naturals, so it holds
whatever has been counted, and only reading the words back needs a bound.
-/

namespace NodeAgent

namespace Wireguard

/-! ## By direction -/

instance decidableForallDirection (P : Direction → Prop) [∀ d, Decidable (P d)] :
    Decidable (∀ d, P d) :=
  decidable_of_iff (P .uplink ∧ P .downlink)
    ⟨fun h d => by cases d with | uplink => exact h.1 | downlink => exact h.2,
      fun h => ⟨h .uplink, h .downlink⟩⟩

def Sample.bytes (s : Sample) : Direction → Int64
  | .uplink => s.tx
  | .downlink => s.rx

/-- A sample of counters that show `c`. -/
structure Sample.Shows (s : Sample) (c : Direction → ℕ) : Prop where
  bytes : ∀ d, s.bytes d = Int64.ofNat (c d)
  small : ∀ d, c d < 2 ^ 63

namespace Entry

def current (e : Entry) : Direction → Int64
  | .uplink => e.currentTx
  | .downlink => e.currentRx

def base (e : Entry) : Direction → Int64
  | .uplink => e.baseTx
  | .downlink => e.baseRx

def lastDelta (e : Entry) : Direction → Int64
  | .uplink => e.lastDeltaTx
  | .downlink => e.lastDeltaRx

/-- What a pull shows. -/
def due (e : Entry) (d : Direction) : Int64 :=
  e.current d - e.base d

/-- Something was set aside when its peer was removed. -/
def Readded (e : Entry) : Prop :=
  ∃ d, e.lastDelta d ≠ 0

/-- A sample is below the last one. -/
def Fallen (e : Entry) (s : Sample) : Prop :=
  ∃ d, s.bytes d < e.current d

variable {e : Entry} {s : Sample} {now : ℤ} {d : Direction}

theorem readded_iff : e.Readded ↔ e.lastDeltaRx ≠ 0 ∨ e.lastDeltaTx ≠ 0 := by
  constructor
  · rintro ⟨d, hd⟩
    cases d with
    | uplink => exact Or.inr hd
    | downlink => exact Or.inl hd
  · rintro (h | h)
    · exact ⟨.downlink, h⟩
    · exact ⟨.uplink, h⟩

theorem fallen_iff : e.Fallen s ↔ s.rx < e.currentRx ∨ s.tx < e.currentTx := by
  constructor
  · rintro ⟨d, hd⟩
    cases d with
    | uplink => exact Or.inr hd
    | downlink => exact Or.inl hd
  · rintro (h | h)
    · exact ⟨.downlink, h⟩
    · exact ⟨.uplink, h⟩

instance decidableReadded (e : Entry) : Decidable e.Readded :=
  decidable_of_iff _ readded_iff.symm

instance decidableFallen (e : Entry) (s : Sample) : Decidable (e.Fallen s) :=
  decidable_of_iff _ fallen_iff.symm

/-! ## A sample -/

theorem applySample_email : (e.applySample s now).email = s.email := by
  unfold applySample
  dsimp only
  split_ifs <;> rfl

theorem applySample_isDeleted : (e.applySample s now).isDeleted = false := by
  unfold applySample
  dsimp only
  split_ifs <;> rfl

theorem applySample_lastDelta : (e.applySample s now).lastDelta d = 0 := by
  unfold applySample
  by_cases hreadded : e.lastDeltaRx ≠ 0 ∨ e.lastDeltaTx ≠ 0
  · simp only [hreadded, if_true]
    cases d <;> split_ifs <;> rfl
  · simp only [hreadded, if_false]
    rw [not_or, not_not, not_not] at hreadded
    cases d <;> split_ifs <;> simp [lastDelta, hreadded]

theorem applySample_current : (e.applySample s now).current d = s.bytes d := by
  unfold applySample
  dsimp only
  cases d <;> split_ifs <;> simp_all [current, Sample.bytes]

/-- **What is due after a sample**: what was set aside, what was due if the
counters have started again, or all since the base. -/
theorem applySample_due_of_readded (h : e.Readded) :
    (e.applySample s now).due d = e.lastDelta d := by
  have hsub : ∀ a b : Int64, a - (a - b) = b := by grind
  rw [readded_iff] at h
  rw [due, applySample_current]
  unfold applySample
  simp only [h, if_true, not_true_eq_false, false_and, if_false]
  cases d <;> split_ifs <;> simp [base, Sample.bytes, lastDelta, hsub]

theorem applySample_due_of_fallen (h : ¬ e.Readded) (hf : e.Fallen s) :
    (e.applySample s now).due d = if e.due d < 0 then 0 else e.due d := by
  have hsub : ∀ a b : Int64, a - (a - b) = b := by grind
  rw [readded_iff] at h
  have hchanged : ¬ (e.currentRx = s.rx ∧ e.currentTx = s.tx) := by
    rintro ⟨hrx, htx⟩
    rw [fallen_iff, hrx, htx] at hf
    simp at hf
  rw [fallen_iff] at hf
  rw [due, applySample_current]
  unfold applySample
  simp only [h, if_false, hchanged, not_false_eq_true, hf, and_self, if_true]
  by_cases hactive : e.currentRx < s.rx ∨ e.currentTx < s.tx
  · simp only [hactive, if_true]
    cases d with
    | uplink => exact hsub s.tx _
    | downlink => exact hsub s.rx _
  · simp only [hactive, if_false]
    cases d with
    | uplink => exact hsub s.tx _
    | downlink => exact hsub s.rx _

theorem applySample_due_of_grown (h : ¬ e.Readded) (hf : ¬ e.Fallen s) :
    (e.applySample s now).due d = s.bytes d - e.base d := by
  rw [readded_iff] at h
  rw [fallen_iff] at hf
  rw [due, applySample_current]
  unfold applySample
  simp only [h, hf, if_false, and_false]
  cases d <;> split_ifs <;> rfl

/-! ## The reading it stands for -/

/-- **An entry stands for a reading**: up to wrapping around, of what is
due; and what was set aside is what is due, once its peer is gone. -/
structure Owes (e : Entry) (r : Gauge.Reading Direction) : Prop where
  current : ∀ d, e.current d = Int64.ofNat (r.seen d)
  small : ∀ d, r.seen d < 2 ^ 63
  due : ∀ d, e.due d = Int64.ofNat (r.due d)
  gone : e.isDeleted = r.gone
  aside : ∀ d, e.lastDelta d = if r.gone then e.due d else 0

theorem owes_new (email : String) : (Entry.new email).Owes ⟨fun _ => 0, fun _ => 0, false⟩ where
  current := fun d => by cases d <;> rfl
  small := fun _ => Nat.two_pow_pos 63
  due := fun d => by cases d <;> exact Int64.sub_self 0
  gone := rfl
  aside := fun d => by cases d <;> rfl

theorem owes_applySample {c : Direction → ℕ} (hs : s.Shows c) {due : Direction → ℕ}
    (hdue : ∀ d, (e.applySample s now).due d = Int64.ofNat (due d)) :
    (e.applySample s now).Owes ⟨c, due, false⟩ where
  current := fun d => by rw [applySample_current, hs.bytes]
  small := hs.small
  due := hdue
  gone := applySample_isDeleted
  aside := fun _ => applySample_lastDelta

namespace Owes

variable {r : Gauge.Reading Direction} {c : Direction → ℕ} (h : e.Owes r)
include h

theorem not_readded (hr : r.gone = false) : ¬ e.Readded := by
  rintro ⟨d, hd⟩
  rw [h.aside, hr] at hd
  exact hd rfl

theorem lt_iff (hs : s.Shows c) : s.bytes d < e.current d ↔ c d < r.seen d := by
  rw [hs.bytes, h.current, Int64.lt_iff_toInt_lt, Words.toInt_ofNat (hs.small d),
    Words.toInt_ofNat (h.small d)]
  omega

theorem seen_unique {q : Gauge.Reading Direction} (hq : e.Owes q) : r.seen = q.seen := by
  funext d
  have heq := congrArg Int64.toInt ((h.current d).symm.trans (hq.current d))
  rw [Words.toInt_ofNat (h.small d), Words.toInt_ofNat (hq.small d)] at heq
  exact_mod_cast heq

theorem readded (hs : s.Shows c) (hr : e.Readded) (now : ℤ) :
    (e.applySample s now).Owes ⟨c, r.due, false⟩ := by
  refine owes_applySample hs fun d => ?_
  have hgone : r.gone = true := by
    by_contra hlive
    exact h.not_readded (Bool.eq_false_iff.2 hlive) hr
  rw [applySample_due_of_readded hr, h.aside, hgone, if_pos rfl, h.due]

theorem fallen (hs : s.Shows c) (hr : ¬ e.Readded) (hf : e.Fallen s) (now : ℤ) :
    (e.applySample s now).Owes ⟨c, fun d => if e.due d < 0 then 0 else r.due d, false⟩ := by
  refine owes_applySample hs fun d => ?_
  rw [applySample_due_of_fallen hr hf]
  split_ifs
  · rfl
  · exact h.due d

theorem grown (hs : s.Shows c) (hr : ¬ e.Readded) (hf : ¬ e.Fallen s) (now : ℤ) :
    (∀ d, r.seen d ≤ c d) ∧
      (e.applySample s now).Owes ⟨c, fun d => r.due d + (c d - r.seen d), false⟩ := by
  have hle : ∀ d, r.seen d ≤ c d := by
    intro d
    by_contra hlt
    exact hf ⟨d, (h.lt_iff hs).2 (by omega)⟩
  refine ⟨hle, owes_applySample hs fun d => ?_⟩
  have hsplit : s.bytes d - e.base d = e.due d + (s.bytes d - e.current d) := by
    unfold Entry.due
    grind
  rw [applySample_due_of_grown hr hf, hsplit, Int64.ofNat_add, Int64.ofNat_sub _ _ (hle d), h.due,
    hs.bytes, h.current]

/-- **A sample is taken**, whatever has been counted. -/
theorem taken (hs : s.Shows c) (now : ℤ) :
    ∃ r', (e.applySample s now).Owes r' ∧ Gauge.Taken (some r) c r' := by
  by_cases hr : e.Readded
  · exact ⟨_, h.readded hs hr now, rfl, rfl, fun d => Or.inl (le_refl _)⟩
  · by_cases hf : e.Fallen s
    · refine ⟨_, h.fallen hs hr hf now, rfl, rfl, fun d => Or.inl ?_⟩
      dsimp only
      split_ifs
      · exact Nat.zero_le _
      · exact le_refl _
    · obtain ⟨hle, howes⟩ := h.grown hs hr hf now
      exact ⟨_, howes, rfl, rfl, fun d => Or.inr ⟨hle d, le_refl _⟩⟩

theorem toInt_due_le (d : Direction) : (e.due d).toInt ≤ r.due d := by
  rw [h.due, Int64.toInt_ofNat', Int.bmod_def, show Int64.size = 2 ^ 64 from rfl]
  omega

section
variable (hfits : ∀ d, r.due d < 2 ^ 63)
include hfits

theorem toInt_due (d : Direction) : (e.due d).toInt = r.due d := by
  rw [h.due, Words.toInt_ofNat (hfits d)]

theorem toInt_base (d : Direction) : (e.base d).toInt = r.seen d - r.due d := by
  have hbase : e.base d = Int64.ofNat (r.seen d) - Int64.ofNat (r.due d) := by
    rw [← h.current, ← h.due, Entry.due]
    grind
  have hsmall := h.small d
  have hdue := hfits d
  rw [hbase, Int64.toInt_sub, Words.toInt_ofNat hsmall, Words.toInt_ofNat hdue, Int.bmod_def]
  omega

theorem base_le (d : Direction) : e.base d ≤ e.current d := by
  rw [Int64.le_iff_toInt_le, h.toInt_base hfits, h.current, Words.toInt_ofNat (h.small d)]
  omega

end

end Owes

end Entry

/-- An entry after a pull that resets. -/
def Entry.pulled (e : Entry) : Option Entry :=
  if e.isDeleted then none else some e.reset

namespace Tracker

variable {t : Tracker} {s : Sample} {now : ℤ} {k : String} {d : Direction}

/-! ## The tracker, a key at a time -/

/-- **What the tracker has under a key stands for a reading**, or for
none. -/
def Stands (t : Tracker) (k : String) (r : Option (Gauge.Reading Direction)) : Prop :=
  match t.lookup k, r with
  | none, none => True
  | some e, some r => e.Owes r
  | _, _ => False

theorem stands_none_iff : t.Stands k none ↔ t.lookup k = none := by
  unfold Stands
  cases t.lookup k <;> simp

theorem stands_some_iff {r : Gauge.Reading Direction} :
    t.Stands k (some r) ↔ ∃ e, t.lookup k = some e ∧ e.Owes r := by
  unfold Stands
  cases t.lookup k <;> simp

theorem Stands.congr {t' : Tracker} {r : Option (Gauge.Reading Direction)} (h : t.Stands k r)
    (heq : t'.lookup k = t.lookup k) : t'.Stands k r := by
  unfold Stands at h ⊢
  rw [heq]
  exact h

theorem lookup_applySample (t : Tracker) (s : Sample) (now : ℤ) (k : String) :
    (t.applySample s now).lookup k =
      if k = s.publicKey then
        some (((t.lookup s.publicKey).getD (Entry.new s.email)).applySample s now)
      else t.lookup k :=
  GoMap.lookup_insert_eq ..

/-- **A sample of the key is taken.** -/
theorem Stands.applySample {r : Option (Gauge.Reading Direction)} {c : Direction → ℕ}
    (h : t.Stands s.publicKey r) (hs : s.Shows c) (now : ℤ) :
    ∃ r', (t.applySample s now).Stands s.publicKey (some r') ∧ Gauge.Taken r c r' := by
  have hlookup := t.lookup_applySample s now s.publicKey
  rw [if_pos rfl] at hlookup
  cases r with
  | none =>
    rw [stands_none_iff] at h
    rw [h, Option.getD_none] at hlookup
    obtain ⟨r', howes, hseen, hgone, hdue⟩ := (Entry.owes_new s.email).taken hs now
    refine ⟨r', stands_some_iff.2 ⟨_, hlookup, howes⟩, hseen, hgone, fun i => ?_⟩
    rcases hdue i with hle | ⟨-, hle⟩
    · exact hle.trans (Nat.zero_le _)
    · simpa using hle
  | some r =>
    obtain ⟨e, he, howes⟩ := stands_some_iff.1 h
    rw [he, Option.getD_some] at hlookup
    obtain ⟨r', howes', htaken⟩ := howes.taken hs now
    exact ⟨r', stands_some_iff.2 ⟨_, hlookup, howes'⟩, htaken⟩

theorem Stands.applySample_other {r : Option (Gauge.Reading Direction)} (h : t.Stands k r)
    (hk : k ≠ s.publicKey) (now : ℤ) : (t.applySample s now).Stands k r :=
  h.congr (by rw [lookup_applySample, if_neg hk])

/-- **After a batch every key of it is there**, and the others are as they
were. -/
theorem lookup_updateStatsBatch (t : Tracker) (samples : List Sample) (now : ℤ) (k : String) :
    (k ∈ samples.map Sample.publicKey →
        ∃ e, (t.updateStatsBatch samples now).lookup k = some e ∧ e.isDeleted = false) ∧
      (k ∉ samples.map Sample.publicKey →
        (t.updateStatsBatch samples now).lookup k = t.lookup k) := by
  unfold updateStatsBatch
  induction samples using List.reverseRecOn with
  | nil => exact ⟨fun hk => by simp at hk, fun _ => rfl⟩
  | append_singleton samples s ih =>
    rw [List.foldl_append, List.foldl_cons, List.foldl_nil, lookup_applySample, List.map_append,
      List.mem_append, List.map_singleton, List.mem_singleton]
    by_cases hk : k = s.publicKey
    · rw [if_pos hk]
      exact ⟨fun _ => ⟨_, rfl, Entry.applySample_isDeleted⟩, fun hno => absurd (Or.inr hk) hno⟩
    · rw [if_neg hk]
      exact ⟨fun hmem => ih.1 (hmem.resolve_right hk), fun hno => ih.2 fun h => hno (Or.inl h)⟩

/-- What a pull would show of a key. -/
def pending (t : Tracker) (k : String) (d : Direction) : ℤ :=
  (t.lookup k).elim 0 fun e => (e.due d).toInt

/-! ## Removals -/

theorem lookup_removeStats (t : Tracker) (key k : String) :
    (t.removeStats key).lookup k =
      if k = key then (t.lookup key).map Entry.removed else t.lookup k := by
  unfold removeStats
  cases he : t.lookup key with
  | none =>
    split_ifs with hk
    · rw [hk, he]
      rfl
    · rfl
  | some e =>
    dsimp only
    rw [GoMap.lookup_insert_eq]
    split_ifs <;> rfl

theorem Stands.removeStats {r : Option (Gauge.Reading Direction)} (h : t.Stands k r) :
    (t.removeStats k).Stands k (r.map fun r => { r with gone := true }) := by
  have hlookup := t.lookup_removeStats k k
  rw [if_pos rfl] at hlookup
  cases r with
  | none =>
    rw [stands_none_iff] at h
    rw [h] at hlookup
    exact stands_none_iff.2 hlookup
  | some r =>
    obtain ⟨e, he, howes⟩ := stands_some_iff.1 h
    rw [he] at hlookup
    refine stands_some_iff.2 ⟨_, hlookup, ⟨fun d => ?_, howes.small, fun d => ?_, rfl, fun d => ?_⟩⟩
    · have hcur := howes.current d
      cases d <;> exact hcur
    · have hdue := howes.due d
      cases d <;> exact hdue
    · cases d <;> rfl

/-! ## Pulls -/

/-- What rows show for a key in a direction. -/
def shown (stats : List Stat) (k : String) (d : Direction) : ℤ :=
  ((stats.filter fun row => row.link = k ∧ row.type = d.name).map fun row => row.value.toInt).sum

theorem shown_append (stats stats' : List Stat) :
    shown (stats ++ stats') k d = shown stats k d + shown stats' k d := by
  simp [shown]

/-- The row of a direction, if there is traffic in it. -/
def deltaRow (name link : String) (e : Entry) (d : Direction) : List Stat :=
  if 0 < e.due d then [⟨name, d.name, link, e.due d⟩] else []

theorem buildDeltaStats_eq (name link : String) (e : Entry) :
    buildDeltaStats name link (e.currentRx - e.baseRx) (e.currentTx - e.baseTx) =
      deltaRow name link e .uplink ++ deltaRow name link e .downlink := by
  unfold buildDeltaStats
  by_cases hzero : e.currentRx - e.baseRx = 0 ∧ e.currentTx - e.baseTx = 0
  · -- nothing in either direction
    have hup : e.due .uplink = 0 := hzero.2
    have hdown : e.due .downlink = 0 := hzero.1
    rw [if_pos hzero]
    simp [deltaRow, hup, hdown]
  · rw [if_neg hzero]
    rfl

theorem shown_deltaRow (name link : String) (e : Entry) (d' : Direction) :
    shown (deltaRow name link e d') k d =
      if link = k ∧ d' = d then max 0 (e.due d).toInt else 0 := by
  have hname : d'.name = d.name ↔ d' = d := by cases d' <;> cases d <;> decide
  have hpos : 0 < e.due d' ↔ 0 < (e.due d').toInt := by
    rw [Int64.lt_iff_toInt_lt, Int64.toInt_zero]
  unfold deltaRow shown
  by_cases hrow : link = k ∧ d' = d
  · rw [if_pos hrow]
    obtain ⟨rfl, rfl⟩ := hrow
    by_cases hdue : 0 < e.due d'
    · rw [if_pos hdue]
      rw [hpos] at hdue
      simp only [List.filter_cons, List.filter_nil, and_self, decide_true, if_true, List.map_cons,
        List.map_nil, List.sum_cons, List.sum_nil]
      omega
    · rw [if_neg hdue]
      rw [hpos] at hdue
      simp only [List.filter_nil, List.map_nil, List.sum_nil]
      omega
  · rw [if_neg hrow]
    split_ifs
    · simp [hname, hrow]
    · rfl

/-- **The rows of a key show what is due**, if it is positive. -/
theorem shown_buildDeltaStats (name link : String) (e : Entry) :
    shown (buildDeltaStats name link (e.currentRx - e.baseRx) (e.currentTx - e.baseTx)) k d =
      if link = k then max 0 (e.due d).toInt else 0 := by
  rw [buildDeltaStats_eq, shown_append, shown_deltaRow, shown_deltaRow]
  by_cases hk : link = k
  · cases d <;> simp [hk]
  · simp [hk]

theorem pullOne_eq (reset : Bool) (t : Tracker) (stats : List Stat) (key : String) :
    (∀ k, (pullOne reset (t, stats) key).1.lookup k =
        if k = key ∧ reset = true then (t.lookup key).bind Entry.pulled else t.lookup k) ∧
      ∀ k d, shown (pullOne reset (t, stats) key).2 k d = shown stats k d +
        if key = k then ((t.lookup key).elim 0 fun e => max 0 (e.due d).toInt) else 0 := by
  unfold pullOne
  cases he : t.lookup key with
  | none =>
    dsimp only
    refine ⟨fun k => ?_, fun k d => by simp⟩
    split_ifs with hk
    · rw [hk.1, he]
      rfl
    · rfl
  | some e =>
    refine ⟨fun k => ?_, fun k d => ?_⟩
    · cases reset with
      | false => simp
      | true =>
        cases hdel : e.isDeleted with
        | true =>
          simp only [Bool.not_true, Bool.false_eq_true, if_false, if_true, and_true,
            GoMap.lookup_erase_eq, Option.bind_some, Entry.pulled, hdel]
        | false =>
          simp only [Bool.not_true, Bool.false_eq_true, if_false, and_true,
            GoMap.lookup_insert_eq, Option.bind_some, Entry.pulled, hdel]
    · dsimp only
      rw [shown_append, shown_buildDeltaStats]
      rfl

theorem Stands.pullOne {r : Option (Gauge.Reading Direction)} (h : t.Stands k r)
    (stats : List Stat) (key : String) :
    ∃ r' v, (Tracker.pullOne true (t, stats) key).1.Stands k r' ∧ Gauge.Pulled r v r' ∧
      ∀ d, shown (Tracker.pullOne true (t, stats) key).2 k d = shown stats k d + v d := by
  obtain ⟨hlookup, hshown⟩ := pullOne_eq true t stats key
  by_cases hk : key = k
  · subst hk
    have hkey := hlookup key
    rw [if_pos ⟨rfl, rfl⟩] at hkey
    cases r with
    | none =>
      have hnone := stands_none_iff.1 h
      refine ⟨none, 0, stands_none_iff.2 (by rw [hkey, hnone]; rfl), .idle none, fun d => ?_⟩
      rw [hshown, hnone]
      simp
    | some r =>
      obtain ⟨e, he, howes⟩ := stands_some_iff.1 h
      have hrows : ∀ d, shown (Tracker.pullOne true (t, stats) key).2 key d =
          shown stats key d + max 0 (e.due d).toInt := by
        intro d
        rw [hshown, if_pos rfl, he]
        rfl
      have hbound : ∀ d, 0 ≤ max 0 (e.due d).toInt ∧ max 0 (e.due d).toInt ≤ r.due d := by
        intro d
        have hle := howes.toInt_due_le d
        omega
      rw [he, Option.bind_some, Entry.pulled] at hkey
      cases hgone : r.gone with
      | true =>
        rw [howes.gone, hgone, if_pos rfl] at hkey
        exact ⟨none, _, stands_none_iff.2 hkey, .drop hbound hgone, hrows⟩
      | false =>
        rw [howes.gone, hgone, if_neg (by decide)] at hkey
        refine ⟨_, _, stands_some_iff.2 ⟨_, hkey, ?_⟩, .reset hbound hgone, hrows⟩
        have haside : ∀ d, e.lastDelta d = 0 := by
          intro d
          rw [howes.aside, hgone]
          rfl
        refine ⟨fun d => ?_, howes.small, fun d => ?_, howes.gone, fun d => ?_⟩
        · have hcur := howes.current d
          cases d <;> exact hcur
        · cases d <;> exact Int64.sub_self _
        · have hnone := haside d
          simp only [hgone]
          cases d <;> exact hnone
  · refine ⟨r, 0, h.congr ?_, .idle r, fun d => ?_⟩
    · rw [hlookup, if_neg (fun hand => hk hand.1.symm)]
    · rw [hshown, if_neg hk]
      rfl

/-- **A pull that resets.** -/
theorem Stands.getStats {r : Option (Gauge.Reading Direction)} (h : t.Stands k r)
    (keys : List String) :
    ∃ r', (t.getStats keys true).1.Stands k r' ∧
      Gauge.Pulled r (shown (t.getStats keys true).2 k) r' := by
  unfold Tracker.getStats
  induction keys using List.reverseRecOn with
  | nil => exact ⟨r, h, .idle r⟩
  | append_singleton keys key ih =>
    obtain ⟨r₁, hstands, hpulled⟩ := ih
    obtain ⟨r', v, hstands', hpulled', hshown⟩ := hstands.pullOne
      (keys.foldl (Tracker.pullOne true) (t, [])).2 key
    rw [List.foldl_append, List.foldl_cons, List.foldl_nil]
    refine ⟨r', hstands', ?_⟩
    have hsum : shown (Tracker.pullOne true (keys.foldl (Tracker.pullOne true) (t, [])) key).2 k =
        shown (keys.foldl (Tracker.pullOne true) (t, [])).2 k + v := funext hshown
    rw [hsum]
    exact hpulled.trans hpulled'

/-- **What a pull that resets leaves under a key.** -/
theorem lookup_getStats (t : Tracker) (keys : List String) (k : String) :
    (t.getStats keys true).1.lookup k =
      if k ∈ keys then (t.lookup k).bind Entry.pulled else t.lookup k := by
  -- pulled once more, an entry stays as it is
  have hagain : ∀ o : Option Entry, (o.bind Entry.pulled).bind Entry.pulled =
      o.bind Entry.pulled := by
    intro o
    cases o with
    | none => rfl
    | some e => cases hdel : e.isDeleted <;> simp [Entry.pulled, Entry.reset, hdel]
  unfold Tracker.getStats
  induction keys using List.reverseRecOn with
  | nil => simp
  | append_singleton keys key ih =>
    obtain ⟨hlookup, -⟩ := pullOne_eq true (keys.foldl (Tracker.pullOne true) (t, [])).1
      (keys.foldl (Tracker.pullOne true) (t, [])).2 key
    rw [List.foldl_append, List.foldl_cons, List.foldl_nil, hlookup]
    by_cases hk : k = key
    · subst hk
      rw [if_pos ⟨rfl, rfl⟩, if_pos (by simp), ih]
      split_ifs
      · exact hagain _
      · rfl
    · rw [if_neg fun hand => hk hand.1, ih]
      simp [hk]

theorem getStats_false (t : Tracker) (keys : List String) : (t.getStats keys false).1 = t := by
  unfold getStats
  refine List.foldlRecOn (motive := fun acc : Tracker × List Stat => acc.1 = t) keys _ rfl ?_
  rintro ⟨t', stats⟩ (rfl : t' = t) key -
  unfold pullOne
  cases t'.lookup key <;> rfl

/-! ## Cleaning up -/

theorem lookup_cleanup (o : Order String) (t : Tracker) (k : String) :
    (t.cleanupDeletedEntries o).lookup k = (t.lookup k).filter fun e => !e.isSpent := by
  have hmem : k ∈ ((GoMap.range o t).filter fun p => p.2.isSpent).map Prod.fst ↔
      ∃ e, t.lookup k = some e ∧ e.isSpent = true := by
    simp only [List.mem_map, List.mem_filter, GoMap.mem_range]
    constructor
    · rintro ⟨p, ⟨hp, hspent⟩, rfl⟩
      exact ⟨p.2, hp, hspent⟩
    · rintro ⟨e, he, hspent⟩
      exact ⟨(k, e), ⟨he, hspent⟩, rfl⟩
  rw [cleanupDeletedEntries, GoMap.lookup_eraseKeys]
  cases he : t.lookup k with
  | none => simp
  | some e =>
    rw [he] at hmem
    by_cases hspent : e.isSpent = true
    · rw [if_pos (hmem.2 ⟨e, rfl, hspent⟩), Option.filter_some, hspent]
      rfl
    · rw [if_neg, Option.filter_some, if_pos (by simpa using hspent)]
      rw [hmem]
      rintro ⟨e', he', hspent'⟩
      exact hspent (Option.some.inj he' ▸ hspent')

theorem Stands.cleanup {r : Option (Gauge.Reading Direction)} (h : t.Stands k r)
    (o : Order String) :
    (t.cleanupDeletedEntries o).Stands k r ∨
      (t.cleanupDeletedEntries o).Stands k none ∧ ∃ q, r = some q ∧ q.gone = true := by
  have hlookup := t.lookup_cleanup o k
  cases r with
  | none =>
    rw [stands_none_iff.1 h] at hlookup
    exact Or.inl (stands_none_iff.2 hlookup)
  | some r =>
    obtain ⟨e, he, howes⟩ := stands_some_iff.1 h
    rw [he, Option.filter_some] at hlookup
    split_ifs at hlookup with hspent
    · exact Or.inl (stands_some_iff.2 ⟨e, hlookup, howes⟩)
    · refine Or.inr ⟨stands_none_iff.2 hlookup, r, rfl, ?_⟩
      have hgone : e.isSpent = true := by simpa using hspent
      rw [Entry.isSpent, Bool.and_eq_true, Bool.and_eq_true] at hgone
      rw [← howes.gone]
      exact hgone.1.1

end Tracker

/-! ## Beside the peers -/

/-- **The counters of these keys are those of non-negative words.** -/
def Readable (peers : String → Gauge.Source Direction) (keys : List String) : Prop :=
  ∀ k ∈ keys, ∀ d, (peers k).count d < 2 ^ 63

instance decidableReadable (peers : String → Gauge.Source Direction) (keys : List String) :
    Decidable (Readable peers keys) :=
  inferInstanceAs (Decidable (∀ k ∈ keys, ∀ d, (peers k).count d < 2 ^ 63))

/-- What has been reported after a pull: what it shows, if it resets. -/
def credited {ι : Type} (reset : Bool) (reported shown : ι → Direction → ℤ) : ι → Direction → ℤ :=
  if reset then reported + shown else reported

end Wireguard

end NodeAgent
