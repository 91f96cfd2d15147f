import NodeAgent.Wireguard.Conservation
import NodeAgent.Wireguard.Exclusive
/-!
# Whose traffic it is

The tracker is kept by key, and an entry bears the email of the last
sample. The bytes that come up on the counters of a key in a sample are
those of the user who has it. They are reported under that user unless the
tracker misses them or gives them away. It misses what is on counters that
have started again since it saw them last. And when a key comes to another
user, the next sample puts the new email on the entry, and with it on all
that is still due.
-/

namespace NodeAgent

namespace Wireguard

namespace Tracker

variable {t : Tracker} {s : Sample} {now : ℤ} {k email owner : String} {d : Direction}

/-! ## Rows and entries by user -/

/-- What rows show for a key under an email. -/
def shownFor (stats : List Stat) (k email : String) (d : Direction) : ℤ :=
  shown (stats.filter fun row => row.name = email) k d

/-- What a pull would show of a key under an email. -/
def pendingFor (t : Tracker) (k email : String) (d : Direction) : ℤ :=
  (t.lookup k).elim 0 fun e => if e.email = email then (e.due d).toInt else 0

/-- The entry of a key, if there is one, bears this email. -/
def OwnedBy (t : Tracker) (k owner : String) : Prop :=
  ∀ e, t.lookup k = some e → e.email = owner

theorem exists_ownedBy (t : Tracker) (k : String) : ∃ owner, t.OwnedBy k owner := by
  cases he : t.lookup k with
  | none => exact ⟨"", fun e h => by rw [he] at h; cases h⟩
  | some e => exact ⟨e.email, fun e' h => by rw [he] at h; rw [Option.some.inj h]⟩

theorem OwnedBy.pendingFor_eq (h : t.OwnedBy k owner) (email : String) (d : Direction) :
    t.pendingFor k email d = if owner = email then t.pending k d else 0 := by
  unfold pendingFor pending
  cases he : t.lookup k with
  | none => simp
  | some e =>
    rw [← h e he]
    rfl

theorem shownFor_eq {stats : List Stat} (h : ∀ row ∈ stats, row.link = k → row.name = owner)
    (email : String) (d : Direction) :
    shownFor stats k email d = if owner = email then shown stats k d else 0 := by
  unfold shownFor shown
  rw [List.filter_filter]
  split_ifs with howner
  · refine congrArg (fun rows : List Stat => (rows.map fun row => row.value.toInt).sum)
      (List.filter_congr fun row hrow => ?_)
    simp only [Bool.and_eq_left_iff_imp, decide_eq_true_eq]
    exact fun hand => (h row hrow hand.1).trans howner
  · rw [List.filter_eq_nil_iff.2]
    · rfl
    · intro row hrow hand
      rw [Bool.and_eq_true, decide_eq_true_eq, decide_eq_true_eq] at hand
      exact howner ((h row hrow hand.1.1).symm.trans hand.2)

theorem OwnedBy.pullOne (h : t.OwnedBy k owner) {stats : List Stat}
    (hrows : ∀ row ∈ stats, row.link = k → row.name = owner) (reset : Bool) (key : String) :
    (Tracker.pullOne reset (t, stats) key).1.OwnedBy k owner ∧
      ∀ row ∈ (Tracker.pullOne reset (t, stats) key).2, row.link = k → row.name = owner := by
  refine ⟨fun e' he' => ?_, ?_⟩
  · rw [(pullOne_eq reset t stats key).1] at he'
    split_ifs at he' with hk
    · obtain ⟨e, he, hpulled⟩ := Option.bind_eq_some_iff.1 he'
      unfold Entry.pulled at hpulled
      split_ifs at hpulled
      rw [← Option.some.inj hpulled]
      exact h e (hk.1 ▸ he)
    · exact h e' he'
  · unfold Tracker.pullOne
    cases he : t.lookup key with
    | none => exact hrows
    | some e =>
      intro row hrow hlink
      dsimp only at hrow
      rw [buildDeltaStats_eq, List.mem_append, List.mem_append] at hrow
      have hnew : ∀ d', row ∈ deltaRow e.email key e d' → row.name = owner := by
        intro d' hmem
        unfold deltaRow at hmem
        split_ifs at hmem
        · obtain rfl := List.mem_singleton.1 hmem
          exact h e ((show key = k from hlink) ▸ he)
        · cases hmem
      rcases hrow with hold | hup | hdown
      · exact hrows row hold hlink
      · exact hnew _ hup
      · exact hnew _ hdown

/-- **A pull reports under the email of the entry.** -/
theorem OwnedBy.getStats (h : t.OwnedBy k owner) (keys : List String) (reset : Bool) :
    (t.getStats keys reset).1.OwnedBy k owner ∧
      ∀ row ∈ (t.getStats keys reset).2, row.link = k → row.name = owner :=
  List.foldlRecOn (motive := fun acc : Tracker × List Stat => acc.1.OwnedBy k owner ∧
      ∀ row ∈ acc.2, row.link = k → row.name = owner) keys (Tracker.pullOne reset)
    ⟨h, by simp⟩ fun _ hacc key _ => hacc.1.pullOne hacc.2 reset key

/-- **What a pull that resets reports under an email was pending under
it.** -/
theorem getStats_conservesFor (h : t.Sound) (keys : List String) (k email : String)
    (d : Direction) :
    shownFor (t.getStats keys true).2 k email d + (t.getStats keys true).1.pendingFor k email d =
      t.pendingFor k email d := by
  obtain ⟨owner, howner⟩ := t.exists_ownedBy k
  obtain ⟨howner', hrows⟩ := howner.getStats keys true
  rw [shownFor_eq hrows, howner'.pendingFor_eq, howner.pendingFor_eq]
  split_ifs
  · exact getStats_conserves (fun e he => h.nonneg he) keys d
  · rfl

theorem pendingFor_of_lookup_eq {t' : Tracker} (h : t'.lookup k = t.lookup k) :
    t'.pendingFor k email d = t.pendingFor k email d := by
  rw [pendingFor, pendingFor, h]

theorem pendingFor_removeStats (t : Tracker) (key k email : String) (d : Direction) :
    (t.removeStats key).pendingFor k email d = t.pendingFor k email d := by
  rw [pendingFor, pendingFor, lookup_removeStats]
  split_ifs with hk
  · subst hk
    cases t.lookup k with
    | none => rfl
    | some e => cases d <;> rfl
  · rfl

theorem pendingFor_cleanup (h : t.Sound) (o : Order String) (k email : String) (d : Direction) :
    (t.cleanupDeletedEntries o).pendingFor k email d = t.pendingFor k email d := by
  obtain ⟨owner, howner⟩ := t.exists_ownedBy k
  have howner' : (t.cleanupDeletedEntries o).OwnedBy k owner := by
    intro e he
    rw [lookup_cleanup] at he
    exact howner e (Option.filter_eq_some_iff.1 he).1
  rw [howner'.pendingFor_eq, howner.pendingFor_eq, (h.cleanup o).2]

/-! ## Samples -/

/-- **Nothing of another user's is left to report** under the key of a
sample. -/
def Settled (t : Tracker) (s : Sample) : Prop :=
  ∀ e, t.lookup s.publicKey = some e → e.email ≠ s.email → ∀ d, e.due d = 0

theorem Settled.pendingFor_eq (h : t.Settled s) (email : String) (d : Direction) :
    t.pendingFor s.publicKey email d = if s.email = email then t.pending s.publicKey d else 0 := by
  unfold pendingFor pending
  cases he : t.lookup s.publicKey with
  | none => simp
  | some e =>
    simp only [Option.elim]
    by_cases hemail : e.email = s.email
    · rw [hemail]
    · rw [h e he hemail d]
      simp

theorem ownedBy_applySample (t : Tracker) (s : Sample) (now : ℤ) :
    (t.applySample s now).OwnedBy s.publicKey s.email := by
  intro e he
  rw [lookup_applySample, if_pos rfl] at he
  rw [← Option.some.inj he]
  exact Entry.applySample_email

/-- **What a sample adds is added under its email.** -/
theorem Settled.applySample (h : t.Settled s) (now : ℤ) (k email : String) (d : Direction) :
    (t.applySample s now).pendingFor k email d = t.pendingFor k email d +
      if k = s.publicKey ∧ s.email = email then
        (t.applySample s now).pending k d - t.pending k d
      else 0 := by
  by_cases hk : k = s.publicKey
  · subst hk
    rw [(t.ownedBy_applySample s now).pendingFor_eq, h.pendingFor_eq]
    by_cases hemail : s.email = email
    · rw [if_pos hemail, if_pos hemail, if_pos ⟨rfl, hemail⟩]
      omega
    · rw [if_neg hemail, if_neg hemail, if_neg fun hand => hemail hand.2]
      rfl
  · rw [if_neg fun hand => hk hand.1, add_zero]
    exact pendingFor_of_lookup_eq (by rw [lookup_applySample, if_neg hk])

/-! ## Counters that start again -/

/-- **The entry of a key has seen its counters as far as they have been
sampled**, unless they have started again since. -/
def Marked (t : Tracker) (k : String) (mark : Direction → ℕ) : Prop :=
  mark = (fun _ => 0) ∨ ∃ r, t.Stands k (some r) ∧ r.gone = false ∧ r.seen = mark

/-- **The tracker goes on where it was**: the counters show nothing, or
what it has of the key is of a peer that was not removed, and it saw the
counters last where they were sampled last. -/
def Steady (t : Tracker) (s : Sample) (mark : Direction → ℕ) : Prop :=
  (∀ d, s.bytes d = 0) ∨
    ∀ e, t.lookup s.publicKey = some e → ¬ e.Readded ∧ ∀ d, e.current d = Int64.ofNat (mark d)

variable {mark : Direction → ℕ}

theorem Marked.congr {t' : Tracker} (h : t.Marked k mark)
    (heq : t'.lookup k = t.lookup k) : t'.Marked k mark := by
  rcases h with hzero | ⟨r, hstands, hrest⟩
  · exact Or.inl hzero
  · exact Or.inr ⟨r, hstands.congr heq, hrest⟩

theorem Marked.cleanup (h : t.Marked k mark) (o : Order String) :
    (t.cleanupDeletedEntries o).Marked k mark := by
  rcases h with hzero | ⟨r, hstands, hgone, hseen⟩
  · exact Or.inl hzero
  · rcases hstands.cleanup o with hsame | ⟨-, q, hq, hdead⟩
    · exact Or.inr ⟨r, hsame, hgone, hseen⟩
    · rw [← Option.some.inj hq, hgone] at hdead
      cases hdead

theorem Marked.getStats (h : t.Marked k mark) (keys : List String) :
    (t.getStats keys true).1.Marked k mark := by
  rcases h with hzero | ⟨r, hstands, hgone, hseen⟩
  · exact Or.inl hzero
  · obtain ⟨r', hstands', hpulled⟩ := hstands.getStats keys
    rcases hpulled.of_some with ⟨q, rfl, hqseen, hqgone, -⟩ | ⟨-, hdead⟩
    · exact Or.inr ⟨q, hstands', hqgone.trans hgone, hqseen.trans hseen⟩
    · rw [hgone] at hdead
      cases hdead

theorem Sound.marked_applySample {c : Direction → ℕ} (h : t.Sound) (hs : s.Shows c)
    (hroom : t.Fits s) (now : ℤ) : (t.applySample s now).Marked s.publicKey c := by
  obtain ⟨r, howes, -⟩ := h.entryFor hs hroom
  obtain ⟨r', howes', htaken⟩ := howes.taken hs now
  have hlookup := t.lookup_applySample s now s.publicKey
  rw [if_pos rfl] at hlookup
  exact Or.inr ⟨r', stands_some_iff.2 ⟨_, hlookup, howes'⟩, htaken.gone, htaken.seen⟩

/-- **An entry is given just what has not been sampled** exactly if the
counters show nothing, or it was not set aside and saw them last where
they were sampled last. -/
theorem growth_entry_iff {e : Entry} {r : Gauge.Reading Direction} {c mark : Direction → ℕ}
    (howes : e.Owes r) (hs : s.Shows c) (hmark : mark = (fun _ => 0) ∨ r.gone = false ∧ r.seen = mark)
    (hle : ∀ d, mark d ≤ c d) :
    (∀ d, (if e.Readded ∨ e.Fallen s then 0 else (s.bytes d).toInt - (e.current d).toInt) =
        (c d : ℤ) - mark d) ↔
      (∀ d, s.bytes d = 0) ∨ ¬ e.Readded ∧ ∀ d, e.current d = Int64.ofNat (mark d) := by
  have hbytes : ∀ d, (s.bytes d).toInt = c d := fun d => by
    rw [hs.bytes, Words.toInt_ofNat (hs.small d)]
  have hcurrent : ∀ d, (e.current d).toInt = r.seen d := fun d => by
    rw [howes.current, Words.toInt_ofNat (howes.small d)]
  have hnothing : ∀ d, s.bytes d = 0 ↔ c d = 0 := fun d => by
    rw [← Int64.toInt_inj, hbytes, Int64.toInt_zero]
    omega
  have hsame : ∀ d, e.current d = Int64.ofNat (mark d) ↔ r.seen d = mark d := fun d => by
    rw [← Int64.toInt_inj, hcurrent, Words.toInt_ofNat ((hle d).trans_lt (hs.small d))]
    omega
  simp only [hnothing, hsame, hbytes, hcurrent]
  by_cases hagain : e.Readded ∨ e.Fallen s
  · -- nothing is added; the counters have started again
    have hzero : mark = fun _ => 0 := by
      refine hmark.resolve_right ?_
      rintro ⟨hgone, rfl⟩
      rcases hagain with hr | ⟨d, hd⟩
      · exact howes.not_readded hgone hr
      · exact absurd ((howes.lt_iff hs).1 hd) (Nat.not_lt.2 (hle d))
    subst hzero
    simp only [if_pos hagain]
    constructor
    · intro hall
      exact Or.inl fun d => by have hd := hall d; omega
    · rintro (hall | ⟨hr, hseen⟩) d
      · have hd := hall d
        omega
      · obtain ⟨d', hd'⟩ := hagain.resolve_left hr
        have hlt := (howes.lt_iff hs).1 hd'
        rw [hseen d'] at hlt
        exact absurd hlt (Nat.not_lt_zero _)
  · rw [not_or] at hagain
    simp only [if_neg (not_or.2 hagain)]
    constructor
    · intro hall
      exact Or.inr ⟨hagain.1, fun d => by have hd := hall d; omega⟩
    · rintro (hall | ⟨-, hseen⟩) d
      · have hgrown : ¬ c d < r.seen d := fun hlt => hagain.2 ⟨d, (howes.lt_iff hs).2 hlt⟩
        have hd := hall d
        have hled := hle d
        omega
      · rw [hseen d]

/-- **A sample adds just what has not been sampled exactly if the tracker
goes on where it was.** -/
theorem Marked.growth_iff {c mark : Direction → ℕ} (hmarked : t.Marked s.publicKey mark)
    (h : t.Sound) (hs : s.Shows c) (hle : ∀ d, mark d ≤ c d) :
    (∀ d, t.growth s d = c d - mark d) ↔ t.Steady s mark := by
  unfold Tracker.growth Tracker.entryFor Tracker.Steady
  cases he : t.lookup s.publicKey with
  | none =>
    have hzero : mark = fun _ => 0 := by
      refine hmarked.resolve_right ?_
      rintro ⟨r, hstands, -⟩
      obtain ⟨e, he', -⟩ := stands_some_iff.1 hstands
      rw [he] at he'
      cases he'
    subst hzero
    have howes := Entry.owes_new s.email
    rw [Option.getD_none, growth_entry_iff howes hs (Or.inl rfl) hle]
    refine iff_of_true (Or.inr ⟨howes.not_readded rfl, howes.current⟩) (Or.inr ?_)
    simp
  | some e =>
    obtain ⟨r, howes, -⟩ := h _ e he
    have hmark : mark = (fun _ => 0) ∨ r.gone = false ∧ r.seen = mark := by
      refine hmarked.imp_right ?_
      rintro ⟨q, hstands, hgone, rfl⟩
      obtain ⟨e', he', hq⟩ := stands_some_iff.1 hstands
      rw [he] at he'
      obtain rfl := Option.some.inj he'
      exact ⟨howes.gone.symm.trans (hq.gone.trans hgone), howes.seen_unique hq⟩
    rw [Option.getD_some, growth_entry_iff howes hs hmark hle]
    simp

end Tracker

/-! ## The backend and who is charged -/

/-- **The backend, its peers, and whose traffic is whose.** -/
structure Charged where
  wg : WireGuard
  /-- The counters of the peers, by key. -/
  peers : String → Gauge.Source Direction
  /-- How far the counters of a key have been sampled since they started. -/
  sampled : String → Direction → ℕ
  /-- The bytes samples have found on the counters of a key while a user had
  it, by key and email. -/
  caused : String → String → Direction → ℤ
  /-- What pulls that reset have reported, by key and email. -/
  reported : String → String → Direction → ℤ

namespace Charged

/-- What can happen. -/
inductive Event
  /-- A peer transfers something. -/
  | carry (key : String) (bytes : Direction → ℕ)
  /-- The counters of a peer start again. -/
  | restart (key : String)
  /-- A call of `SyncUsers`, `UpdateUsers` or the like. -/
  | sync (env : Env) (op : Op)
  /-- `updateConnectedPeers`, with the peers of the device that have been
  active, by key and endpoint. -/
  | sample (active : List (String × String)) (now : ℤ)
  /-- `CleanupDeletedEntries`. -/
  | cleanup (o : Order String)
  /-- `GetStats`. -/
  | getStats (keys : List String) (reset : Bool)
  /-- `GetUsersStats`. -/
  | getUsersStats (o : Order String) (reset : Bool)

def start (wg : WireGuard) : Charged where
  wg := wg
  peers := fun _ => .fresh
  sampled := fun _ _ => 0
  caused := fun _ _ _ => 0
  reported := fun _ _ _ => 0

/-- The tracker of the backend changes. -/
def withTracker (s : Charged) (t : Tracker) : Charged :=
  { s with wg := s.wg.withTracker t }

/-- The counters of some keys start again. -/
def restarted (s : Charged) (keys : List String) : Charged :=
  { s with
    peers := fun k => if k ∈ keys then (s.peers k).restart else s.peers k
    sampled := fun k => if k ∈ keys then fun _ => 0 else s.sampled k }

/-- The samples of a pass: peers the store does not know are skipped. -/
def samples (s : Charged) (active : List (String × String)) : List Sample :=
  active.filterMap fun p =>
    (s.wg.peerStore.getEmailMap p.1).map fun email =>
      Metered.sampleOf s.peers ⟨p.1, email, p.2⟩

/-- After a pull. -/
def pulled (s : Charged) (reset : Bool) (pull : Tracker × List Stat) : Charged :=
  { s.withTracker pull.1 with
    reported := fun k => credited reset (s.reported k) (Tracker.shownFor pull.2 k) }

def step (N : GoNet.Lib) (s : Charged) : Event → Charged
  | .carry key bytes =>
    { s with peers := fun k => if k = key then (s.peers k).carry bytes else s.peers k }
  | .restart key => s.restarted [key]
  | .sync env op =>
    let out := s.wg.exec N env op
    -- a key whose stats are dropped has left the kernel, and its counters with it
    { s with wg := out.wg }.restarted out.statsRemoved
  | .sample active now =>
    let keys := (s.samples active).map Sample.publicKey
    { s.withTracker (s.wg.statsTracker.updateStatsBatch (s.samples active) now) with
      sampled := fun k => if k ∈ keys then (s.peers k).count else s.sampled k
      -- what was not there before is the present owner's
      caused := fun k email d => s.caused k email d +
        if k ∈ keys ∧ s.wg.peerStore.getEmailMap k = some email then
          ((s.peers k).count d : ℤ) - s.sampled k d
        else 0 }
  | .cleanup o => s.withTracker (s.wg.statsTracker.cleanupDeletedEntries o)
  | .getStats keys reset => s.pulled reset (s.wg.statsTracker.getStats keys reset)
  | .getUsersStats o reset => s.pulled reset (s.wg.statsTracker.getUsersStats o reset)

/-- **Every byte sampled while a user had a key has been reported under
that user, or is still to be**, and nothing else. -/
def Attributed (s : Charged) : Prop :=
  ∀ k email d, s.reported k email d + s.wg.statsTracker.pendingFor k email d = s.caused k email d

/-- The peers that are sampled, and when. -/
def Event.batch : Event → Option (List (String × String) × ℤ)
  | .sample active now => some (active, now)
  | _ => none

/-- The counters that are sampled are those of non-negative words. -/
def Counts (s : Charged) (ev : Event) : Prop :=
  ∀ b ∈ ev.batch, Readable s.peers (b.1.map Prod.fst)

/-- What is sampled meets a condition, sample by sample. -/
def Samples (P : Tracker → Sample → Prop) (s : Charged) (ev : Event) : Prop :=
  ∀ b ∈ ev.batch, Runs.Allowed (fun t s => Tracker.applySample t s b.2) P
    (s.samples b.1) s.wg.statsTracker

/-- **The tracker goes on where it was** with every key that is sampled. -/
def Steady (s : Charged) (ev : Event) : Prop :=
  ∀ b ∈ ev.batch, ∀ x ∈ s.samples b.1, s.wg.statsTracker.Steady x (s.sampled x.publicKey)

variable {N : GoNet.Lib} {s : Charged}

/-! ## One step -/

variable {active : List (String × String)}

theorem shows_samples {now : ℤ} (h : s.Counts (.sample active now)) :
    ∀ x ∈ s.samples active, x.Shows (s.peers x.publicKey).count := by
  intro x hx
  obtain ⟨p, hp, hemail⟩ := List.mem_filterMap.1 hx
  obtain ⟨email, -, rfl⟩ := Option.map_eq_some_iff.1 hemail
  exact Metered.shows_sampleOf (h _ rfl _ (List.mem_map_of_mem hp))

theorem email_of_mem_samples {x : Sample}
    (hx : x ∈ s.samples active) : s.wg.peerStore.getEmailMap x.publicKey = some x.email := by
  obtain ⟨p, -, hemail⟩ := List.mem_filterMap.1 hx
  obtain ⟨email, howner, rfl⟩ := Option.map_eq_some_iff.1 hemail
  exact howner

/-- **A batch of samples adds to what is pending under the owner of the
key**, and under nobody else. -/
theorem pendingFor_updateStatsBatch {owner : String → Option String} {t : Tracker} {now : ℤ}
    (samples : List Sample) (howner : ∀ x ∈ samples, owner x.publicKey = some x.email)
    (hsettled : Runs.Allowed (fun t s => Tracker.applySample t s now) Tracker.Settled samples t)
    (k email : String) (d : Direction) :
    (t.updateStatsBatch samples now).pendingFor k email d = t.pendingFor k email d +
      if owner k = some email then
        (t.updateStatsBatch samples now).pending k d - t.pending k d
      else 0 := by
  unfold Tracker.updateStatsBatch
  induction samples generalizing t with
  | nil => simp
  | cons x samples ih =>
    have hlater := ih (fun y hy => howner y (List.mem_cons_of_mem _ hy)) hsettled.2
    have hnow := hsettled.1.applySample now k email d
    have hx := howner x (List.mem_cons_self ..)
    rw [List.foldl_cons, hlater, hnow]
    by_cases hk : k = x.publicKey
    · subst hk
      rw [hx]
      simp only [true_and, Option.some.injEq]
      split_ifs <;> omega
    · have hsame : (t.applySample x now).pending k d = t.pending k d :=
        Tracker.pending_of_lookup_eq (by rw [Tracker.lookup_applySample, if_neg hk])
      rw [if_neg fun hand => hk hand.1, hsame, add_zero]

section

variable {t : Tracker} {now : ℤ} {count mark : String → Direction → ℕ} {x : Sample}

theorem marked_next (h : t.Sound) (hx : x.Shows (count x.publicKey)) (hroom : t.Fits x)
    (hmarked : ∀ k, t.Marked k (mark k)) (k : String) :
    (t.applySample x now).Marked k (if k = x.publicKey then count k else mark k) := by
  by_cases hk : k = x.publicKey
  · subst hk
    simpa using h.marked_applySample hx hroom now
  · have hother : (t.applySample x now).lookup k = t.lookup k := by
      rw [Tracker.lookup_applySample, if_neg hk]
    simpa only [if_neg hk] using (hmarked k).congr hother

theorem steady_next (hx : x.Shows (count x.publicKey)) {y : Sample}
    (hy : t.Steady y (mark y.publicKey)) : (t.applySample x now).Steady y
      (if y.publicKey = x.publicKey then count y.publicKey else mark y.publicKey) := by
  by_cases heq : y.publicKey = x.publicKey
  · refine Or.inr fun e he => ?_
    rw [heq, Tracker.lookup_applySample, if_pos rfl] at he
    obtain rfl := Option.some.inj he
    refine ⟨?_, fun d => ?_⟩
    · rintro ⟨d, hd⟩
      exact hd Entry.applySample_lastDelta
    · rw [Entry.applySample_current, hx.bytes, if_pos heq, heq]
  · unfold Tracker.Steady at hy ⊢
    rw [Tracker.lookup_applySample, if_neg heq, if_neg heq]
    exact hy

/-- **What a batch adds**: all that has not been sampled of its keys, where
the tracker goes on where it was; and it has then seen all of it. -/
theorem pending_updateStatsBatch (h : t.Sound) (samples : List Sample)
    (hshows : ∀ x ∈ samples, x.Shows (count x.publicKey))
    (hroom : Runs.Allowed (fun t s => Tracker.applySample t s now) Tracker.Fits samples t)
    (hmarked : ∀ k, t.Marked k (mark k)) (hle : ∀ k d, mark k d ≤ count k d) :
    (∀ k, (t.updateStatsBatch samples now).Marked k
        (if k ∈ samples.map Sample.publicKey then count k else mark k)) ∧
      ((∀ x ∈ samples, t.Steady x (mark x.publicKey)) → ∀ k d,
        (t.updateStatsBatch samples now).pending k d = t.pending k d +
          if k ∈ samples.map Sample.publicKey then (count k d : ℤ) - mark k d else 0) := by
  unfold Tracker.updateStatsBatch
  induction samples generalizing t mark with
  | nil => simpa using hmarked
  | cons x samples ih =>
    have hx := hshows x (List.mem_cons_self ..)
    obtain ⟨hsound, hadded⟩ := h.applySample hx hroom.1 now
    have hle' : ∀ k d, (if k = x.publicKey then count k else mark k) d ≤ count k d := by
      intro k d
      by_cases hk : k = x.publicKey
      · simp [hk]
      · simpa only [if_neg hk] using hle k d
    obtain ⟨hmarked', hpending⟩ :=
      ih hsound (fun y hy => hshows y (List.mem_cons_of_mem _ hy)) hroom.2
        (marked_next h hx hroom.1 hmarked) hle'
    refine ⟨fun k => ?_, fun hsteady k d => ?_⟩
    · have hk := hmarked' k
      rw [List.foldl_cons, List.map_cons]
      by_cases hmem : k ∈ samples.map Sample.publicKey
      · simpa [hmem] using hk
      · by_cases heq : k = x.publicKey
        · simpa [hmem, heq] using hk
        · simpa [hmem, heq] using hk
    · have hgrowth := ((hmarked x.publicKey).growth_iff h hx (hle x.publicKey)).2
        (hsteady x (List.mem_cons_self ..))
      have hlater :=
        hpending (fun y hy => steady_next hx (hsteady y (List.mem_cons_of_mem _ hy))) k d
      rw [List.foldl_cons, hlater, hadded, List.map_cons]
      by_cases heq : k = x.publicKey
      · subst heq
        have hd := hgrowth d
        by_cases hmem : x.publicKey ∈ samples.map Sample.publicKey
        · simp [hmem]
          omega
        · simp [hmem]
          omega
      · simp [heq]

end

theorem restartLocked_statsRemoved (N : GoNet.Lib) (env : Env) (wg : WireGuard) :
    (wg.restartLocked N env).statsRemoved = [] := by
  unfold WireGuard.restartLocked
  repeat' split
  all_goals rfl

/-- **An operation touches the tracker by `RemoveStats` only.** -/
theorem exec_statsTracker (N : GoNet.Lib) (env : Env) (wg : WireGuard) (op : Op) :
    (wg.exec N env op).wg.statsTracker =
      (wg.exec N env op).statsRemoved.foldl Tracker.removeStats wg.statsTracker := by
  have hrefuses : ∀ {out : Outcome}, out.Refuses wg →
      out.wg.statsTracker = out.statsRemoved.foldl Tracker.removeStats wg.statsTracker := by
    intro out hout
    rw [hout.state, hout.stats]
    rfl
  have hcommits : ∀ {out : Outcome} {store device}, out.Commits wg store device →
      out.wg.statsTracker = out.statsRemoved.foldl Tracker.removeStats wg.statsTracker := by
    intro out store device hout
    rw [hout.state, hout.stats]
    rfl
  have hmerge : ∀ users, (wg.syncUsersPartialReconcile N env users).wg.statsTracker =
      (wg.syncUsersPartialReconcile N env users).statsRemoved.foldl Tracker.removeStats
        wg.statsTracker := by
    intro users
    rcases wg.syncUsersPartialReconcile_cases N env users with hout | ⟨D, -, -, hout⟩
    · exact hrefuses hout
    · exact hcommits hout
  have hrestart : ∀ wg : WireGuard, (wg.restartLocked N env).wg.statsTracker = wg.statsTracker := by
    intro wg
    rcases wg.restartLocked_cases N env with hout | ⟨configs, -, hstate⟩
    · rw [hout.state]
    · rw [hstate]
  cases op with
  | new config users => rfl
  | syncUser user =>
    cases user with
    | none => rfl
    | some u => exact hmerge [some u]
  | syncUsers users =>
    show (wg.syncUsersFull N env users).wg.statsTracker = _
    rcases wg.syncUsersFull_cases N env users with
      hout | ⟨D, -, ⟨-, hsame⟩ | ⟨-, hout⟩⟩
    · exact hrefuses hout
    · show (wg.syncUsersFull N env users).wg.statsTracker =
        (wg.syncUsersFull N env users).statsRemoved.foldl _ _
      rw [hsame]
      rfl
    · exact hcommits hout
  | updateUsers users => exact hmerge users
  | updateUsersAndRestart users =>
    show (wg.updateUsersAndRestart N env users).wg.statsTracker =
      (wg.updateUsersAndRestart N env users).statsRemoved.foldl _ _
    unfold WireGuard.updateUsersAndRestart
    dsimp only
    split
    · exact hmerge users
    · have hnone := restartLocked_statsRemoved N env (wg.syncUsersPartialReconcile N env users).wg
      unfold Outcome.statsRemoved at hnone ⊢
      dsimp only
      rw [List.filterMap_append, hnone, List.append_nil, hrestart]
      exact hmerge users
  | restart =>
    show (wg.restartLocked N env).wg.statsTracker =
      (wg.restartLocked N env).statsRemoved.foldl _ _
    rw [restartLocked_statsRemoved, hrestart]
    rfl

/-- What a run keeps. -/
structure Kept (s : Charged) : Prop where
  sound : s.wg.statsTracker.Sound
  marked : ∀ k, s.wg.statsTracker.Marked k (s.sampled k)
  sampled_le : ∀ k d, s.sampled k d ≤ (s.peers k).count d
  attributed : s.Attributed

theorem Kept.foldl_removeStats {t : Tracker} (h : t.Sound) (keys : List String) :
    (keys.foldl Tracker.removeStats t).Sound ∧
      (∀ k email d, (keys.foldl Tracker.removeStats t).pendingFor k email d =
        t.pendingFor k email d) ∧
      ∀ k, k ∉ keys → (keys.foldl Tracker.removeStats t).lookup k = t.lookup k :=
  List.foldlRecOn (motive := fun t' : Tracker => t'.Sound ∧
      (∀ k email d, t'.pendingFor k email d = t.pendingFor k email d) ∧
      ∀ k, k ∉ keys → t'.lookup k = t.lookup k) keys Tracker.removeStats
    ⟨h, fun _ _ _ => rfl, fun _ _ => rfl⟩ fun t' ht key hkey => ⟨(ht.1.removeStats key).1,
      fun k email d => (Tracker.pendingFor_removeStats _ key k email d).trans (ht.2.1 k email d),
      fun k hk => by
        have hne : k ≠ key := fun heq => hk (heq ▸ hkey)
        rw [Tracker.lookup_removeStats, if_neg hne]
        exact ht.2.2 k hk⟩

theorem Kept.restarted (h : s.Kept) {keys : List String} {wg : WireGuard}
    (hsound : wg.statsTracker.Sound)
    (hpending : ∀ k email d, wg.statsTracker.pendingFor k email d =
      s.wg.statsTracker.pendingFor k email d)
    (hlookup : ∀ k, k ∉ keys → wg.statsTracker.lookup k = s.wg.statsTracker.lookup k) :
    (({ s with wg := wg } : Charged).restarted keys).Kept where
  sound := hsound
  marked := fun k => by
    show wg.statsTracker.Marked k (if k ∈ keys then fun _ => 0 else s.sampled k)
    split_ifs with hk
    · exact Or.inl rfl
    · exact (h.marked k).congr (hlookup k hk)
  sampled_le := fun k d => by
    show (if k ∈ keys then fun _ => 0 else s.sampled k) d ≤
      (if k ∈ keys then (s.peers k).restart else s.peers k).count d
    split_ifs
    · exact le_refl _
    · exact h.sampled_le k d
  attributed := fun k email d =>
    (congrArg (s.reported k email d + ·) (hpending k email d)).trans (h.attributed k email d)

theorem Kept.pulled (h : s.Kept) (keys : List String) (reset : Bool) :
    (s.pulled reset (s.wg.statsTracker.getStats keys reset)).Kept := by
  cases reset with
  | false =>
    unfold Charged.pulled
    rw [Tracker.getStats_false]
    exact ⟨h.sound, h.marked, h.sampled_le, h.attributed⟩
  | true =>
    refine ⟨h.sound.getStats keys, fun k => (h.marked k).getStats keys, h.sampled_le,
      fun k email d => ?_⟩
    have hsame := Tracker.getStats_conservesFor h.sound keys k email d
    have hbefore := h.attributed k email d
    show s.reported k email d +
        Tracker.shownFor (s.wg.statsTracker.getStats keys true).2 k email d +
          (s.wg.statsTracker.getStats keys true).1.pendingFor k email d = s.caused k email d
    omega

/-- **A batch**: all that samples find on the counters is pending under the
owner of the key. -/
theorem Kept.sample (h : s.Kept) {now : ℤ}
    (hcounts : s.Counts (.sample active now)) (hfits : s.Samples Tracker.Fits (.sample active now))
    (hsettled : s.Samples Tracker.Settled (.sample active now))
    (hsteady : s.Steady (.sample active now)) : (s.step N (.sample active now)).Kept := by
  have hshows := shows_samples hcounts
  obtain ⟨hmarked, hpending⟩ := pending_updateStatsBatch h.sound (s.samples active) hshows
    (hfits _ rfl) h.marked h.sampled_le
  refine ⟨(Metered.sound_updateStatsBatch h.sound (fun x hx => ⟨_, hshows x hx⟩) (hfits _ rfl)).1,
    hmarked, fun k d => ?_, fun k email d => ?_⟩
  · show (if k ∈ (s.samples active).map Sample.publicKey then _ else s.sampled k) d ≤ _
    split_ifs
    · exact le_refl _
    · exact h.sampled_le k d
  · have hadded := pendingFor_updateStatsBatch (s.samples active)
      (fun x hx => email_of_mem_samples hx) (hsettled _ rfl) k email d
    have hbefore := h.attributed k email d
    show s.reported k email d +
      (s.wg.statsTracker.updateStatsBatch (s.samples active) now).pendingFor k email d =
        s.caused k email d + if _ ∧ _ then ((s.peers k).count d : ℤ) - s.sampled k d else 0
    rw [hadded, hpending (hsteady _ rfl) k d, ← hbefore]
    by_cases howner : s.wg.peerStore.getEmailMap k = some email
    · simp only [howner, if_true, and_true]
      omega
    · simp only [howner, if_false, and_false]
      omega

/-- **One step**: there is room for what is sampled, nothing of another
user's is left to report under a key that is sampled, and the tracker goes
on where it was. -/
theorem Kept.step (h : s.Kept) {ev : Event} (hcounts : s.Counts ev)
    (hfits : s.Samples Tracker.Fits ev) (hsettled : s.Samples Tracker.Settled ev)
    (hsteady : s.Steady ev) : (s.step N ev).Kept := by
  cases ev with
  | carry key bytes =>
    refine ⟨h.sound, h.marked, fun k d => (h.sampled_le k d).trans ?_, h.attributed⟩
    show _ ≤ (if k = key then (s.peers k).carry bytes else s.peers k).count d
    split_ifs
    · exact Nat.le_add_right _ _
    · exact le_refl _
  | restart key => exact h.restarted h.sound (fun _ _ _ => rfl) fun _ _ => rfl
  | sync env op =>
    obtain ⟨hsound, hpending, hlookup⟩ :=
      Kept.foldl_removeStats h.sound (s.wg.exec N env op).statsRemoved
    rw [← exec_statsTracker N env s.wg op] at hsound hpending hlookup
    exact h.restarted hsound hpending hlookup
  | sample active now => exact h.sample hcounts hfits hsettled hsteady
  | cleanup o =>
    refine ⟨(h.sound.cleanup o).1, fun k => (h.marked k).cleanup o, h.sampled_le,
      fun k email d => ?_⟩
    exact (congrArg (s.reported k email d + ·)
      (Tracker.pendingFor_cleanup h.sound o k email d)).trans (h.attributed k email d)
  | getStats keys reset => exact h.pulled keys reset
  | getUsersStats o reset => exact h.pulled _ reset

theorem kept_of_run {wg : WireGuard} (hwg : wg.statsTracker = ∅)
    (h : Runs.Path (step N) (fun s ev => s.Counts ev ∧ s.Samples Tracker.Fits ev ∧
      s.Samples Tracker.Settled ev ∧ s.Steady ev) (start wg) s) : s.Kept := by
  refine h.invariant (fun _ _ hs hok => hs.step hok.1 hok.2.1 hok.2.2.1 hok.2.2.2)
    ⟨?_, fun _ => Or.inl rfl, fun _ _ => le_refl _, fun k email d => ?_⟩
  · show wg.statsTracker.Sound
    rw [hwg]
    exact Tracker.sound_empty
  · show 0 + wg.statsTracker.pendingFor k email d = 0
    rw [hwg]
    rfl

end Charged

instance Tracker.decidableSettled (t : Tracker) (s : Sample) : Decidable (t.Settled s) :=
  inferInstanceAs (Decidable (∀ e ∈ t.lookup s.publicKey, e.email ≠ s.email → ∀ d, e.due d = 0))

instance Tracker.decidableSteady (t : Tracker) (s : Sample) (mark : Direction → ℕ) :
    Decidable (t.Steady s mark) :=
  inferInstanceAs (Decidable ((∀ d, s.bytes d = 0) ∨ ∀ e ∈ t.lookup s.publicKey,
    ¬ e.Readded ∧ ∀ d, e.current d = Int64.ofNat (mark d)))

instance Charged.decidableCounts (s : Charged) (ev : Charged.Event) : Decidable (s.Counts ev) :=
  inferInstanceAs (Decidable (∀ b ∈ ev.batch, Readable _ _))

instance Charged.decidableSamples (P : Tracker → Sample → Prop) [∀ t s, Decidable (P t s)]
    (s : Charged) (ev : Charged.Event) : Decidable (s.Samples P ev) :=
  inferInstanceAs (Decidable (∀ b ∈ ev.batch, Runs.Allowed _ _ _ _))

instance Charged.decidableSteady (s : Charged) (ev : Charged.Event) : Decidable (s.Steady ev) :=
  inferInstanceAs (Decidable (∀ b ∈ ev.batch, ∀ x ∈ s.samples b.1, Tracker.Steady _ _ _))

namespace Demo

def sampled (now : ℤ) : Charged.Event :=
  .sample [((key 1).string, "203.0.113.7")] now

end Demo

end Wireguard

end NodeAgent
