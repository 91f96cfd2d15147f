import NodeAgent.Shared.Model.Manager
import NodeAgent.Tenant.Helpers.Registry
import NodeAgent.Xray.Helpers.Stats
import NodeAgent.Common.Words
/-!
# What a poll reads and bills

The loops of `CollectAndEnforce`, each with what it leaves: the rows of an
answer are added up by name, every name's total is compared with the one
last seen, the differences are added up by tenant, and each sum is added
to its tenant's usage. None of it depends on the order of the loops — but
for the last, which an error ends.
-/

namespace NodeAgent

open Words

/-! ## The readings -/

namespace Manager

/-- The sum of the rows under a name. -/
def total (stats : List Stat) (name : String) : Int64 :=
  ((stats.filter fun s => s.name = name).map Stat.value).sum

theorem total_perm {stats stats' : List Stat} (h : stats.Perm stats') (name : String) :
    total stats name = total stats' name :=
  ((h.filter _).map _).sum_eq

theorem total_append (stats stats' : List Stat) (name : String) :
    total (stats ++ stats') name = total stats name + total stats' name := by
  simp [total]

/-- **The readings of a poll**, by name. -/
theorem lookup_currentOf (stats : List Stat) (name : String) :
    (currentOf stats).lookup name =
      if name ∈ stats.map Stat.name then some (total stats name) else none := by
  have hfold : ∀ (l : List Stat) (c : GoMap String Int64),
      (l.foldl (fun c s => c.insert s.name ((c.lookup s.name).getD 0 + s.value)) c).lookup name =
        if name ∈ l.map Stat.name then some ((c.lookup name).getD 0 + total l name)
        else c.lookup name := by
    intro l
    induction l with
    | nil => intro c; simp
    | cons s l ih =>
      intro c
      rw [List.foldl_cons, ih, GoMap.lookup_insert_eq]
      have hsplit : total (s :: l) name = total [s] name + total l name :=
        total_append [s] l name
      by_cases hs : name = s.name
      · have hone : total [s] name = s.value := by simp [total, hs]
        have hempty : name ∉ l.map Stat.name → total l name = 0 := by
          intro hno
          have hnil : (l.filter fun s => s.name = name) = [] := by
            rw [List.filter_eq_nil_iff]
            intro s' hs' heq
            exact hno (List.mem_map.2 ⟨s', hs', by simpa using heq⟩)
          simp [total, hnil]
        rw [if_pos hs, hsplit, hone, if_pos (show name ∈ (s :: l).map Stat.name by simp [hs])]
        split_ifs with hl
        · rw [Option.getD_some, hs, add_assoc]
        · rw [hempty hl, add_zero, hs]
      · have hone : total [s] name = 0 := by
          have hs' : ¬ s.name = name := fun h => hs h.symm
          simp [total, hs']
        rw [if_neg hs, hsplit, hone, zero_add, List.map_cons]
        simp only [List.mem_cons, hs, false_or]
  rw [currentOf, hfold]
  simp

end Manager

theorem buildStatResponse_perm {rows rows' : List QueryStat} (h : rows.Perm rows') :
    (buildStatResponse rows).Perm (buildStatResponse rows') :=
  h.filterMap _

/-- The bytes counted for an email, both directions together. -/
def Process.counted (p : Process) (email : String) : Option ℕ :=
  (p.counters.lookup email).map fun c => c.1 + c.2

/-- Every counter is one that can be read back. -/
def Process.Parseable (p : Process) : Prop :=
  ∀ email ∈ p.counters.keys, NodeAgent.Parseable email ∧ email ≠ ""

/-- The rows of one counter pair. -/
def counterRows (c : String × (ℕ × ℕ)) : List QueryStat :=
  [⟨counterName c.1 .uplink, Int64.ofNat c.2.1⟩, ⟨counterName c.1 .downlink, Int64.ofNat c.2.2⟩]

theorem buildStatResponse_counterRows {c : String × (ℕ × ℕ)} (hp : Parseable c.1)
    (hne : c.1 ≠ "") :
    buildStatResponse (counterRows c) =
      [⟨c.1, "uplink", "traffic", Int64.ofNat c.2.1⟩,
        ⟨c.1, "downlink", "traffic", Int64.ofNat c.2.2⟩] := by
  simp only [buildStatResponse, counterRows, List.filterMap_cons, List.filterMap_nil,
    parseStatName_counterName hp hne, Option.map_some, Direction.name]

theorem buildStatResponse_flatMap {l : List (String × (ℕ × ℕ))}
    (hl : ∀ c ∈ l, Parseable c.1 ∧ c.1 ≠ "") (name : String) :
    (name ∈ (buildStatResponse (l.flatMap counterRows)).map Stat.name ↔ name ∈ l.map Prod.fst) ∧
      Manager.total (buildStatResponse (l.flatMap counterRows)) name =
        (l.map fun c => if c.1 = name then Int64.ofNat (c.2.1 + c.2.2) else 0).sum := by
  induction l with
  | nil => exact ⟨Iff.rfl, rfl⟩
  | cons c l ih =>
    obtain ⟨hc, hne⟩ := hl c (List.mem_cons_self ..)
    obtain ⟨h₁, h₂⟩ := ih fun c' hc' => hl c' (List.mem_cons_of_mem _ hc')
    have happ : buildStatResponse ((c :: l).flatMap counterRows) =
        buildStatResponse (counterRows c) ++ buildStatResponse (l.flatMap counterRows) :=
      List.filterMap_append ..
    rw [happ, buildStatResponse_counterRows hc hne]
    refine ⟨?_, ?_⟩
    · rw [List.map_append, List.mem_append, h₁]
      simp
    · rw [Manager.total_append, h₂, List.map_cons, List.sum_cons]
      congr 1
      by_cases hn : c.1 = name
      · simp [Manager.total, hn, Int64.ofNat_add]
      · simp [Manager.total, hn]

/-- **What a poll reads is what the core counted**, for each email. -/
theorem lookup_currentOf_queryStats {p : Process} (hp : p.Parseable) (o : Order QueryStat)
    (email : String) :
    (Manager.currentOf (buildStatResponse (o.run p.queryStats))).lookup email =
      (p.counted email).map Int64.ofNat := by
  have hperm := buildStatResponse_perm (o.perm p.queryStats)
  obtain ⟨hnames, htotal⟩ := buildStatResponse_flatMap (l := GoMap.range .given p.counters)
    (fun c hc => hp c.1 (GoMap.mem_keys_iff.2 ⟨c.2, GoMap.mem_range.1 hc⟩)) email
  have hmem : email ∈ (buildStatResponse (o.run p.queryStats)).map Stat.name ↔
      email ∈ p.counters.keys := by
    rw [(hperm.map Stat.name).mem_iff]
    exact hnames.trans (by rw [GoMap.range_keys, Order.mem_run])
  rw [Manager.lookup_currentOf, Manager.total_perm hperm]
  cases hc : p.counters.lookup email with
  | none =>
    rw [if_neg (fun h => GoMap.notMem_keys_iff.2 hc (hmem.1 h))]
    simp [Process.counted, hc]
  | some c =>
    have hkey : email ∈ p.counters.keys := GoMap.mem_keys_iff.2 ⟨c, hc⟩
    have hsum : Manager.total (buildStatResponse p.queryStats) email =
        Int64.ofNat (c.1 + c.2) := by
      refine htotal.trans ?_
      rw [GoMap.sum_range, Finset.sum_eq_single email]
      · simp [hc]
      · intro k _ hk
        cases p.counters.lookup k <;> simp [hk]
      · intro hno
        exact absurd (List.mem_toFinset.2 hkey) hno
    rw [if_pos (hmem.2 hkey), hsum]
    simp [Process.counted, hc]

/-! ## The accounting -/

namespace Manager

/-- The traffic last seen for an email. -/
def last (m : Manager) (email : String) : Int64 :=
  (m.lastSeen.lookup email).getD 0

/-- A reading belongs to a tenant. -/
def Reported (m : Manager) (current : GoMap String Int64) (tenantID : String) : Prop :=
  ∃ email ∈ current.keys, m.emailTo.lookup email = some tenantID

/-- What the reading of one email shows for a tenant: nothing, if the
email is not its own. -/
def share (m : Manager) (current : GoMap String Int64) (tenantID email : String) : Int64 :=
  if m.emailTo.lookup email = some tenantID then
    trafficDelta (m.last email) ((current.lookup email).getD 0)
  else 0

/-- **What the readings show for a tenant**: the differences of its own
emails, each of them once. -/
def delta (m : Manager) (current : GoMap String Int64) (tenantID : String) : Int64 :=
  ∑ email ∈ current.keys.toFinset, m.share current tenantID email

theorem delta_of_not_reported {m : Manager} {current : GoMap String Int64} {T : String}
    (h : ¬ m.Reported current T) : m.delta current T = 0 := by
  refine Finset.sum_eq_zero fun email he => if_neg fun hto => ?_
  exact h ⟨email, List.mem_toFinset.1 he, hto⟩

theorem lookup_tally (emailTo : GoMap String String) (lastSeen deltas : GoMap String Int64)
    (p : String × Int64) (tid : String) :
    (tally emailTo (lastSeen, deltas) p).2.lookup tid =
      if emailTo.lookup p.1 = some tid then
        some ((deltas.lookup tid).getD 0 + trafficDelta ((lastSeen.lookup p.1).getD 0) p.2)
      else deltas.lookup tid := by
  cases hto : emailTo.lookup p.1 with
  | none => simp [tally, hto]
  | some t =>
    by_cases ht : t = tid
    · subst ht
      simp [tally, hto]
    · simp [tally, hto, ht, AList.lookup_insert_ne (Ne.symm ht)]

theorem foldl_tally (emailTo : GoMap String String) (l : List (String × Int64))
    (hnodup : (l.map Prod.fst).Nodup) (lastSeen deltas : GoMap String Int64) :
    (∀ p ∈ l, (l.foldl (tally emailTo) (lastSeen, deltas)).1.lookup p.1 = some p.2) ∧
    (∀ email, email ∉ l.map Prod.fst →
      (l.foldl (tally emailTo) (lastSeen, deltas)).1.lookup email = lastSeen.lookup email) ∧
    ∀ tid,
      (((l.foldl (tally emailTo) (lastSeen, deltas)).2.lookup tid).isSome ↔
        (deltas.lookup tid).isSome ∨ ∃ p ∈ l, emailTo.lookup p.1 = some tid) ∧
      ((l.foldl (tally emailTo) (lastSeen, deltas)).2.lookup tid).getD 0 =
        (deltas.lookup tid).getD 0 +
          (l.map fun p => if emailTo.lookup p.1 = some tid then
            trafficDelta ((lastSeen.lookup p.1).getD 0) p.2 else 0).sum := by
  induction l generalizing lastSeen deltas with
  | nil => simp
  | cons p l ih =>
    rw [List.map_cons, List.nodup_cons] at hnodup
    obtain ⟨h₁, h₂, h₃⟩ := ih hnodup.2 (tally emailTo (lastSeen, deltas) p).1
      (tally emailTo (lastSeen, deltas) p).2
    have hseen : ∀ email, (tally emailTo (lastSeen, deltas) p).1.lookup email =
        if email = p.1 then some p.2 else lastSeen.lookup email :=
      fun email => GoMap.lookup_insert_eq ..
    simp only [List.foldl_cons]
    refine ⟨fun q hq => ?_, fun email he => ?_, fun tid => ?_⟩
    · rcases List.mem_cons.1 hq with rfl | hq
      · exact (h₂ _ hnodup.1).trans (by rw [hseen, if_pos rfl])
      · exact h₁ q hq
    · rw [List.map_cons, List.mem_cons, not_or] at he
      exact (h₂ email he.2).trans (by rw [hseen, if_neg he.1])
    · obtain ⟨hsome, hsum⟩ := h₃ tid
      -- the readings still to come have emails of their own
      have hrest : (l.map fun q => if emailTo.lookup q.1 = some tid then
            trafficDelta (((tally emailTo (lastSeen, deltas) p).1.lookup q.1).getD 0) q.2
            else 0) =
          l.map fun q => if emailTo.lookup q.1 = some tid then
            trafficDelta ((lastSeen.lookup q.1).getD 0) q.2 else 0 := by
        refine List.map_congr_left fun q hq => ?_
        have hne : q.1 ≠ p.1 := fun h => hnodup.1 (h ▸ List.mem_map_of_mem hq)
        rw [hseen, if_neg hne]
      rw [hrest] at hsum
      refine ⟨hsome.trans ?_, hsum.trans ?_⟩
      · rw [lookup_tally]
        split_ifs with hto
        · simp [hto]
        · simp [hto]
      · rw [List.map_cons, List.sum_cons, ← add_assoc, lookup_tally]
        congr 1
        split_ifs with hto
        · rfl
        · rw [add_zero]

/-- The last readings after a poll. -/
def seenAfter (env : Env) (m : Manager) (stats : List Stat) : GoMap String Int64 :=
  ((GoMap.range (env.order .current) (currentOf stats)).foldl (tally m.emailTo)
    (m.lastSeen, ∅)).1

/-- What a poll adds to each tenant. -/
def deltasOf (env : Env) (m : Manager) (stats : List Stat) : GoMap String Int64 :=
  ((GoMap.range (env.order .current) (currentOf stats)).foldl (tally m.emailTo)
    (m.lastSeen, ∅)).2

theorem account_eq (env : Env) (m : Manager) (stats : List Stat) :
    m.account env stats =
      ({ m with
          lastSeen := seenAfter env m stats
          reg := (addUsages env.save (GoMap.range (env.order .deltas) (deltasOf env m stats))
            m.reg).1 },
        (addUsages env.save (GoMap.range (env.order .deltas) (deltasOf env m stats)) m.reg).2) :=
  rfl

theorem lookup_seenAfter (env : Env) (m : Manager) (stats : List Stat) (email : String) :
    (seenAfter env m stats).lookup email =
      ((currentOf stats).lookup email).or (m.lastSeen.lookup email) := by
  obtain ⟨h₁, h₂, -⟩ := foldl_tally m.emailTo (GoMap.range (env.order .current) (currentOf stats))
    (GoMap.range_nodup _ _) m.lastSeen ∅
  cases hc : (currentOf stats).lookup email with
  | none =>
    refine h₂ email ?_
    rw [GoMap.range_keys, Order.mem_run]
    exact GoMap.notMem_keys_iff.2 hc
  | some v => exact h₁ (email, v) (GoMap.mem_range.2 hc)

/-- **What is added to a tenant is what the readings show for it**, in any
order of the loops. -/
theorem lookup_deltasOf (env : Env) (m : Manager) (stats : List Stat) (tid : String) (d : Int64) :
    (deltasOf env m stats).lookup tid = some d ↔
      m.Reported (currentOf stats) tid ∧ d = m.delta (currentOf stats) tid := by
  obtain ⟨-, -, h₃⟩ := foldl_tally m.emailTo (GoMap.range (env.order .current) (currentOf stats))
    (GoMap.range_nodup _ _) m.lastSeen ∅
  obtain ⟨hsome, hsum⟩ := h₃ tid
  have hrep : ((deltasOf env m stats).lookup tid).isSome ↔ m.Reported (currentOf stats) tid := by
    refine hsome.trans ?_
    simp only [GoMap.lookup_empty', Option.isSome_none, Bool.false_eq_true, false_or,
      GoMap.mem_range, Reported, GoMap.mem_keys_iff]
    constructor
    · rintro ⟨p, hp, hto⟩
      exact ⟨p.1, ⟨p.2, hp⟩, hto⟩
    · rintro ⟨email, ⟨v, hv⟩, hto⟩
      exact ⟨(email, v), hv, hto⟩
  have hval : ((deltasOf env m stats).lookup tid).getD 0 = m.delta (currentOf stats) tid := by
    refine hsum.trans ?_
    rw [GoMap.sum_range, GoMap.lookup_empty', Option.getD_none, zero_add]
    refine Finset.sum_congr rfl fun email he => ?_
    obtain ⟨v, hv⟩ := GoMap.mem_keys_iff.1 (List.mem_toFinset.1 he)
    rw [share, hv]
    rfl
  cases hd : (deltasOf env m stats).lookup tid with
  | none =>
    have hno : ¬ m.Reported (currentOf stats) tid := fun h => by simpa [hd] using hrep.2 h
    simp [hno]
  | some d' =>
    have hyes : m.Reported (currentOf stats) tid := hrep.1 (by rw [hd]; rfl)
    have hd' : d' = m.delta (currentOf stats) tid := by rw [← hval, hd]; rfl
    simp only [Option.some.injEq, hyes, true_and, hd']
    exact eq_comm

end Manager

/-! ## The usage -/

namespace Manager

variable {save : String → Bool}

theorem addUsages_cons (save : String → Bool) (p : String × Int64) (l : List (String × Int64))
    (r : Registry) :
    (∃ err, addUsages save (p :: l) r = ((r.addUsage (save p.1) p.1 p.2).1, some err)) ∧
        (r.get p.1 = none ∨ save p.1 = false) ∨
      addUsages save (p :: l) r = addUsages save l (r.addUsage (save p.1) p.1 p.2).1 ∧
        (r.get p.1 ≠ none ∧ save p.1 = true) := by
  have herr := Registry.modify_error_iff r (save p.1) p.1
    fun t => { t with usedBytes := t.usedBytes + if p.2 < 0 then 0 else p.2 }
  cases hres : (r.addUsage (save p.1) p.1 p.2).2 with
  | error err =>
    refine Or.inl ⟨⟨.addUsage p.1 err, ?_⟩, herr.1 ⟨err, hres⟩⟩
    obtain ⟨tid, d⟩ := p
    rw [addUsages]
    split
    · rename_i r' err' heq
      rw [heq] at hres ⊢
      cases hres
      rfl
    · rename_i r' t heq
      rw [heq] at hres
      cases hres
  | ok t =>
    have hno : ¬ (r.get p.1 = none ∨ save p.1 = false) := by
      intro h
      obtain ⟨err, herr'⟩ := herr.2 h
      have : (r.addUsage (save p.1) p.1 p.2).2 = .error err := herr'
      rw [hres] at this
      cases this
    refine Or.inr ⟨?_, by simpa [not_or] using hno⟩
    obtain ⟨tid, d⟩ := p
    rw [addUsages]
    split
    · rename_i r' err heq
      rw [heq] at hres
      cases hres
    · rename_i r' t' heq
      rw [heq]

theorem addUsages_status (save : String → Bool) (l : List (String × Int64)) (r : Registry)
    (k : String) :
    ((addUsages save l r).1.get k).map Tenant.status = (r.get k).map Tenant.status := by
  have hone : ∀ (p : String × Int64) (r : Registry),
      ((r.addUsage (save p.1) p.1 p.2).1.get k).map Tenant.status =
        (r.get k).map Tenant.status := by
    intro p r
    rw [Registry.get_addUsage]
    split_ifs with hk
    · rw [hk, Option.map_map]
      rfl
    · rfl
  induction l generalizing r with
  | nil => rfl
  | cons p l ih =>
    rcases addUsages_cons save p l r with ⟨⟨err, heq⟩, -⟩ | ⟨heq, -⟩
    · rw [heq]; exact hone p r
    · rw [heq, ih]; exact hone p r

variable {l : List (String × Int64)}

variable (save) in
/-- **Where no tenant fails, each is billed its own difference.** -/
theorem addUsages_ok {r : Registry} (hnodup : (l.map Prod.fst).Nodup)
    (hok : ∀ p ∈ l, r.get p.1 ≠ none ∧ save p.1 = true) :
    (addUsages save l r).2 = none ∧
      (∀ p ∈ l, (addUsages save l r).1.get p.1 = (r.get p.1).map (Tenant.bill p.2)) ∧
      ∀ k, k ∉ l.map Prod.fst → (addUsages save l r).1.get k = r.get k := by
  induction l generalizing r with
  | nil => simp [addUsages]
  | cons p l ih =>
    rw [List.map_cons, List.nodup_cons] at hnodup
    obtain ⟨hp, hsave⟩ := hok p (List.mem_cons_self ..)
    have hget : ∀ k, (r.addUsage (save p.1) p.1 p.2).1.get k =
        if k = p.1 then (r.get p.1).map (Tenant.bill p.2) else r.get k :=
      Registry.get_addUsage r _ _ _
    have hne : ∀ q ∈ l, q.1 ≠ p.1 := fun q hq h => hnodup.1 (h ▸ List.mem_map_of_mem hq)
    have heq : addUsages save (p :: l) r = addUsages save l (r.addUsage (save p.1) p.1 p.2).1 := by
      rcases addUsages_cons save p l r with ⟨-, hbad⟩ | ⟨heq, -⟩
      · rcases hbad with h | h
        · exact absurd h hp
        · rw [hsave] at h; cases h
      · exact heq
    obtain ⟨h₁, h₂, h₃⟩ := ih (r := (r.addUsage (save p.1) p.1 p.2).1) hnodup.2 fun q hq => by
      rw [hget, if_neg (hne q hq)]
      exact hok q (List.mem_cons_of_mem _ hq)
    rw [heq]
    refine ⟨h₁, fun q hq => ?_, fun k hk => ?_⟩
    · rcases List.mem_cons.1 hq with rfl | hq
      · rw [h₃ _ hnodup.1, hget, if_pos rfl]
      · rw [h₂ q hq, hget, if_neg (hne q hq)]
    · rw [List.map_cons, List.mem_cons, not_or] at hk
      rw [h₃ k hk.2, hget, if_neg hk.1]

variable (save) in
/-- **A failing tenant ends the loop**: those after it get nothing. -/
theorem addUsages_fail {p : String × Int64} (l : List (String × Int64)) {r : Registry}
    (hbad : r.get p.1 = none ∨ save p.1 = false) :
    (addUsages save (p :: l) r).2 ≠ none ∧
      ∀ k, k ≠ p.1 → (addUsages save (p :: l) r).1.get k = r.get k := by
  rcases addUsages_cons save p l r with ⟨⟨err, heq⟩, -⟩ | ⟨-, hok⟩
  · rw [heq]
    refine ⟨by simp, fun k hk => ?_⟩
    rw [Registry.get_addUsage, if_neg hk]
  · rcases hbad with h | h
    · exact absurd h hok.1
    · rw [hok.2] at h; cases h

variable (save) in
theorem addUsages_get_or (hnodup : (l.map Prod.fst).Nodup) (r : Registry) (k : String) :
    (addUsages save l r).1.get k = r.get k ∨
      ∃ d, (k, d) ∈ l ∧ (addUsages save l r).1.get k = (r.get k).map (Tenant.bill d) := by
  induction l generalizing r with
  | nil => exact Or.inl rfl
  | cons p l ih =>
    rw [List.map_cons, List.nodup_cons] at hnodup
    have hget := Registry.get_addUsage r (save p.1) p.1 p.2 k
    rcases addUsages_cons save p l r with ⟨⟨err, heq⟩, -⟩ | ⟨heq, -⟩
    · rw [heq, hget]
      by_cases hk : k = p.1
      · subst hk
        exact Or.inr ⟨p.2, List.mem_cons_self .., if_pos rfl⟩
      · exact Or.inl (if_neg hk)
    · rw [heq]
      rcases ih hnodup.2 (r.addUsage (save p.1) p.1 p.2).1 with h | ⟨d, hd, h⟩
      · rw [h, hget]
        by_cases hk : k = p.1
        · subst hk
          exact Or.inr ⟨p.2, List.mem_cons_self .., if_pos rfl⟩
        · exact Or.inl (if_neg hk)
      · have hk : k ≠ p.1 := by
          rintro rfl
          exact hnodup.1 (List.mem_map.2 ⟨(p.1, d), hd, rfl⟩)
        rw [h, hget, if_neg hk]
        exact Or.inr ⟨d, List.mem_cons_of_mem _ hd, rfl⟩

theorem addUsages_ne_none {p : String × Int64}
    (hnodup : (l.map Prod.fst).Nodup) (hp : p ∈ l) {r : Registry}
    (hbad : r.get p.1 = none ∨ save p.1 = false) : (addUsages save l r).2 ≠ none := by
  induction l generalizing r with
  | nil => exact absurd hp (List.not_mem_nil)
  | cons q l ih =>
    rw [List.map_cons, List.nodup_cons] at hnodup
    rcases addUsages_cons save q l r with ⟨⟨err, heq⟩, -⟩ | ⟨heq, hok⟩
    · rw [heq]
      simp
    · rcases List.mem_cons.1 hp with rfl | hp
      · rcases hbad with h | h
        · exact absurd h hok.1
        · rw [hok.2] at h; cases h
      · have hne : p.1 ≠ q.1 := by
          intro h
          exact hnodup.1 (h ▸ List.mem_map_of_mem hp)
        rw [heq]
        refine ih hnodup.2 hp ?_
        rw [Registry.get_addUsage, if_neg hne]
        exact hbad

end Manager

end NodeAgent
