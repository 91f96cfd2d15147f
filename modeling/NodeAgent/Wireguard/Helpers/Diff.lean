import NodeAgent.Wireguard.Model.Diff
/-!
# The difference between two sets of peers

`buildSyncDiff` in closed form: what is removed, what is upserted, and the
batch for the kernel as updates, additions and removals, one after the
other. All of it is about targets that have allowed IPs, as those of
`collectDesiredPeers` do.
-/

namespace NodeAgent

namespace Wireguard

variable {N : GoNet.Lib} {psk : Option Key}

theorem ipNetsEqual_iff {a b : List GoNet.IPNet} :
    ipNetsEqual N a b = true ↔ a.map N.string = b.map N.string := by
  unfold ipNetsEqual
  rw [Bool.and_eq_true, decide_eq_true_eq]
  induction a generalizing b with
  | nil => cases b <;> simp
  | cons x a ih =>
    cases b with
    | nil => simp
    | cons y b =>
      simp only [List.length_cons, Nat.add_right_cancel_iff, List.zip_cons_cons, List.all_cons,
        Bool.and_eq_true, decide_eq_true_eq, List.map_cons, List.cons.injEq, ← ih]
      tauto

/-- **The kernel or the store has to change for a target**: its email or
its networks are others. -/
def PeerInfo.Differs (N : GoNet.Lib) (existing target : PeerInfo) : Prop :=
  existing.email ≠ target.email ∨ existing.networks N ≠ target.networks N

instance (existing target : PeerInfo) : Decidable (existing.Differs N target) :=
  inferInstanceAs (Decidable (_ ∨ _))

variable (N psk) in
/-- The update of an existing peer whose networks change. -/
def updateConfig (T : GoMap String PeerInfo) (p : String × PeerInfo) : Option PeerConfig :=
  (T.lookup p.1).bind fun target =>
    if p.2.networks N = target.networks N then none
    else some { buildAddConfig target.publicKey target.allowedIPs psk with replaceAllowedIPs := true }

variable (N) in
/-- The upsert of an existing peer that changes. -/
def updatedEntry (T : GoMap String PeerInfo) (p : String × PeerInfo) :
    Option (String × PeerInfo) :=
  (T.lookup p.1).bind fun target => if p.2.Differs N target then some (p.1, target) else none

variable (psk) in
/-- The addition of a target that is new. -/
def addConfig (E : GoMap String PeerInfo) (p : String × PeerInfo) : Option PeerConfig :=
  if (E.lookup p.1).isSome then none else some (buildAddConfig p.2.publicKey p.2.allowedIPs psk)

/-- Every target has allowed IPs. -/
def Routed (T : GoMap String PeerInfo) : Prop :=
  ∀ k t, T.lookup k = some t → t.allowedIPs ≠ []

theorem buildAddConfigFromPeerInfo_of_ne {t : PeerInfo} (h : t.allowedIPs ≠ []) :
    buildAddConfigFromPeerInfo t psk = some (buildAddConfig t.publicKey t.allowedIPs psk) := by
  rw [buildAddConfigFromPeerInfo, if_neg (by simpa using h)]

variable {E T : GoMap String PeerInfo}

theorem foldl_diffExisting (hT : Routed T) (l : List (String × PeerInfo)) (acc : DiffAcc) :
    l.foldl (diffExisting N psk T) acc =
      ⟨GoMap.insertAll acc.removeSet (l.filter fun p => (T.lookup p.1).isNone),
        GoMap.insertAll acc.upsertByKey (l.filterMap (updatedEntry N T)),
        acc.peerConfigs ++ l.filterMap (updateConfig N psk T)⟩ := by
  induction l generalizing acc with
  | nil => simp [GoMap.insertAll]
  | cons p l ih =>
    obtain ⟨key, existing⟩ := p
    rw [List.foldl_cons, ih]
    unfold diffExisting
    cases htarget : T.lookup key with
    | none => simp [updateConfig, updatedEntry, htarget, GoMap.insertAll]
    | some t =>
      have hadd : buildAddConfigFromPeerInfo t psk =
          some (buildAddConfig t.publicKey t.allowedIPs psk) :=
        buildAddConfigFromPeerInfo_of_ne (hT key t htarget)
      by_cases hnets : ipNetsEqual N existing.allowedIPs t.allowedIPs = true
      · have hsame : existing.networks N = t.networks N := ipNetsEqual_iff.1 hnets
        by_cases hemail : existing.email = t.email
        · simp [updateConfig, updatedEntry, htarget, PeerInfo.Differs, hsame, hnets, hemail]
        · simp [updateConfig, updatedEntry, htarget, PeerInfo.Differs, hsame, hnets, hemail,
            GoMap.insertAll]
      · have hother : existing.networks N ≠ t.networks N := fun h => hnets (ipNetsEqual_iff.2 h)
        simp [updateConfig, updatedEntry, htarget, PeerInfo.Differs, hother, hnets, hadd,
          GoMap.insertAll]

theorem foldl_diffTarget (l : List (String × PeerInfo)) (hl : ∀ p ∈ l, p.2.allowedIPs ≠ [])
    (acc : DiffAcc) :
    l.foldl (diffTarget psk E) acc =
      ⟨acc.removeSet,
        GoMap.insertAll acc.upsertByKey (l.filter fun p => (E.lookup p.1).isNone),
        acc.peerConfigs ++ l.filterMap (addConfig psk E)⟩ := by
  induction l generalizing acc with
  | nil => simp [GoMap.insertAll]
  | cons p l ih =>
    obtain ⟨key, target⟩ := p
    have hadd : buildAddConfigFromPeerInfo target psk =
        some (buildAddConfig target.publicKey target.allowedIPs psk) :=
      buildAddConfigFromPeerInfo_of_ne (hl _ (List.mem_cons_self ..))
    rw [List.foldl_cons, ih fun q hq => hl q (List.mem_cons_of_mem _ hq)]
    unfold diffTarget
    cases hexisting : E.lookup key with
    | none => simp [addConfig, hexisting, hadd, GoMap.insertAll]
    | some e => simp [addConfig, hexisting]

/-! ## The result -/

/-- **The difference between existing peers `E` and targets `T`.** -/
structure IsDiff (N : GoNet.Lib) (psk : Option Key) (o : DiffOrders) (E T : GoMap String PeerInfo)
    (diff : SyncDiff) : Prop where
  mem_removeKeys : ∀ k, k ∈ diff.removeKeys ↔
    (∃ e, E.lookup k = some e) ∧ T.lookup k = none ∧ parseKey k ≠ none
  removeKeys_nodup : diff.removeKeys.Nodup
  mem_upsertPeers : ∀ t, t ∈ diff.upsertPeers ↔
    ∃ k, T.lookup k = some t ∧ ∀ e, E.lookup k = some e → e.Differs N t
  upsertPeers_keys : ∃ ks : List String, ks.Nodup ∧ diff.upsertPeers = ks.filterMap T.lookup
  peerConfigs : diff.peerConfigs.Perm
    ((GoMap.range o.existing E).filterMap (updateConfig N psk T) ++
      (GoMap.range o.target T).filterMap (addConfig psk E) ++
      diff.removeKeys.filterMap fun k => (parseKey k).map buildRemoveConfig)
  changed : diff.changed = true ↔ diff.removeKeys ≠ [] ∨ diff.upsertPeers ≠ []

theorem sortStrings_perm (l : List String) : (sortStrings l).Perm l :=
  List.perm_insertionSort ..

theorem mem_sortStrings {l : List String} {k : String} : k ∈ sortStrings l ↔ k ∈ l :=
  (sortStrings_perm l).mem_iff

theorem lookup_upsertByKey (o : DiffOrders) (k : String) (t : PeerInfo) :
    (GoMap.insertAll
        (GoMap.insertAll ∅ ((GoMap.range o.existing E).filterMap (updatedEntry N T)))
        ((GoMap.range o.target T).filter fun p => (E.lookup p.1).isNone)).lookup k = some t ↔
      T.lookup k = some t ∧ ∀ e, E.lookup k = some e → e.Differs N t := by
  have hnew : (((GoMap.range o.target T).filter fun p =>
      (E.lookup p.1).isNone).map Prod.fst).Nodup :=
    (GoMap.range_nodup o.target T).sublist (List.filter_sublist.map _)
  have hentry : ∀ p q, updatedEntry N T p = some q ↔
      q.1 = p.1 ∧ T.lookup p.1 = some q.2 ∧ p.2.Differs N q.2 := by
    intro p q
    simp only [updatedEntry, Option.bind_eq_some_iff]
    constructor
    · rintro ⟨t, ht, hq⟩
      split_ifs at hq with hdiff
      obtain rfl := Option.some.inj hq
      exact ⟨rfl, ht, hdiff⟩
    · rintro ⟨hkey, ht, hdiff⟩
      exact ⟨q.2, ht, by rw [if_pos hdiff, ← hkey]⟩
  have hold : (((GoMap.range o.existing E).filterMap (updatedEntry N T)).map Prod.fst).Nodup :=
    (GoMap.range_nodup o.existing E).sublist
      (GoMap.filterMap_map_sublist fun p _ q hq => ((hentry p q).1 hq).1)
  rw [GoMap.lookup_insertAll_iff hnew, GoMap.lookup_insertAll_iff hold]
  simp only [List.mem_filter, GoMap.mem_range, Option.isNone_iff_eq_none, List.mem_map,
    List.mem_filterMap, hentry, GoMap.lookup_empty', reduceCtorEq, and_false, or_false]
  constructor
  · rintro (⟨ht, hnone⟩ | ⟨-, ⟨p, hp, hkey, ht, hdiff⟩⟩)
    · refine ⟨ht, fun e he => ?_⟩
      rw [hnone] at he
      cases he
    · subst hkey
      refine ⟨ht, fun e he => ?_⟩
      rw [hp] at he
      rw [← Option.some.inj he]
      exact hdiff
  · rintro ⟨ht, hdiff⟩
    cases he : E.lookup k with
    | none => exact Or.inl ⟨ht, rfl⟩
    | some e =>
      refine Or.inr ⟨?_, ⟨(k, e), he, rfl, ht, hdiff e he⟩⟩
      rintro ⟨p, ⟨-, hnone⟩, rfl⟩
      rw [hnone] at he
      cases he

/-- A difference from what its loops have built up. -/
def assembled (T removeSet upsertByKey : GoMap String PeerInfo) (configs : List PeerConfig) :
    SyncDiff :=
  let removeKeys := (buildRemoveConfigsForPeers removeSet).1
  let upsertPeers := (sortStrings upsertByKey.keys).filterMap upsertByKey.lookup
  ⟨removeKeys, upsertPeers, configs ++ (buildRemoveConfigsForPeers removeSet).2, T,
    0 < removeKeys.length || 0 < upsertPeers.length⟩

theorem buildSyncDiff_eq (o : DiffOrders) (E : GoMap String PeerInfo) (D : GoMap String DesiredPeer)
    {T : GoMap String PeerInfo}
    (hT : T = GoMap.insertAll ∅ ((GoMap.range o.desired D).map fun p => (p.1, p.2.peerInfo)))
    (hrouted : Routed T) :
    buildSyncDiff N psk o E D =
      assembled T
        (GoMap.insertAll ∅ ((GoMap.range o.existing E).filter fun p => (T.lookup p.1).isNone))
        (GoMap.insertAll
          (GoMap.insertAll ∅ ((GoMap.range o.existing E).filterMap (updatedEntry N T)))
          ((GoMap.range o.target T).filter fun p => (E.lookup p.1).isNone))
        ((GoMap.range o.existing E).filterMap (updateConfig N psk T) ++
          (GoMap.range o.target T).filterMap (addConfig psk E)) := by
  unfold buildSyncDiff
  rw [← hT]
  dsimp only
  rw [foldl_diffExisting hrouted, foldl_diffTarget _ fun p hp => hrouted _ _ (GoMap.mem_range.1 hp)]
  rfl

theorem lookup_targets (o : Order String) (D : GoMap String DesiredPeer) (k : String) :
    (GoMap.insertAll ∅ ((GoMap.range o D).map fun p => (p.1, p.2.peerInfo))).lookup k =
      (D.lookup k).map DesiredPeer.peerInfo :=
  GoMap.lookup_insertAll_range o D DesiredPeer.peerInfo k

theorem routed_targets {o : Order String} {D : GoMap String DesiredPeer}
    (hD : ∀ k d, D.lookup k = some d → d.allowedIPNets ≠ []) :
    Routed (GoMap.insertAll ∅ ((GoMap.range o D).map fun p => (p.1, p.2.peerInfo))) := by
  intro k t ht
  rw [lookup_targets] at ht
  obtain ⟨d, hd, rfl⟩ := Option.map_eq_some_iff.1 ht
  exact hD k d hd

theorem mem_keys_removeSet (o : Order String) (E T : GoMap String PeerInfo) (k : String) :
    k ∈ (GoMap.insertAll ∅
        ((GoMap.range o E).filter fun p => (T.lookup p.1).isNone)).keys ↔
      (∃ e, E.lookup k = some e) ∧ T.lookup k = none := by
  rw [GoMap.mem_keys_insertAll]
  simp only [List.mem_map, List.mem_filter, GoMap.mem_range, Option.isNone_iff_eq_none,
    AList.keys_empty, List.not_mem_nil, or_false]
  constructor
  · rintro ⟨p, ⟨hp, hnone⟩, rfl⟩
    exact ⟨⟨p.2, hp⟩, hnone⟩
  · rintro ⟨⟨e, he⟩, hnone⟩
    exact ⟨(k, e), ⟨he, hnone⟩, rfl⟩

/-- **`buildSyncDiff` is that difference.** -/
theorem isDiff_buildSyncDiff (N : GoNet.Lib) (psk : Option Key) (o : DiffOrders)
    (E : GoMap String PeerInfo) {D : GoMap String DesiredPeer}
    (hD : ∀ k d, D.lookup k = some d → d.allowedIPNets ≠ []) :
    ∃ T, (∀ k, T.lookup k = (D.lookup k).map DesiredPeer.peerInfo) ∧
      (buildSyncDiff N psk o E D).targetPeers = T ∧
      IsDiff N psk o E T (buildSyncDiff N psk o E D) := by
  obtain ⟨T, hT⟩ : ∃ T, T = GoMap.insertAll ∅
      ((GoMap.range o.desired D).map fun p => (p.1, p.2.peerInfo)) := ⟨_, rfl⟩
  have htarget : ∀ k, T.lookup k = (D.lookup k).map DesiredPeer.peerInfo := by
    intro k
    rw [hT]
    exact lookup_targets o.desired D k
  have hrouted : Routed T := hT ▸ routed_targets hD
  rw [buildSyncDiff_eq o E D hT hrouted]
  refine ⟨T, htarget, rfl, ?_⟩
  refine
    { mem_removeKeys := fun k => ?_
      removeKeys_nodup := ((sortStrings_perm _).nodup_iff.2 (AList.keys_nodup _)).filter _
      mem_upsertPeers := fun t => ?_
      upsertPeers_keys := ⟨_, (sortStrings_perm _).nodup_iff.2 (AList.keys_nodup _),
        List.filterMap_congr fun k hk => ?_⟩
      peerConfigs := .of_eq ?_
      changed := ?_ }
  · show k ∈ (sortStrings _).filter _ ↔ _
    rw [List.mem_filter, mem_sortStrings, mem_keys_removeSet, ← Option.isSome_iff_ne_none,
      and_assoc]
  · show t ∈ (sortStrings _).filterMap _ ↔ _
    simp only [List.mem_filterMap, mem_sortStrings, lookup_upsertByKey]
    constructor
    · rintro ⟨k, -, h⟩
      exact ⟨k, h⟩
    · rintro ⟨k, h⟩
      exact ⟨k, GoMap.mem_keys_iff.2 ⟨t, (lookup_upsertByKey o k t).2 h⟩, h⟩
  · obtain ⟨t, ht⟩ := GoMap.mem_keys_iff.1 (mem_sortStrings.1 hk)
    rw [ht, ((lookup_upsertByKey o k t).1 ht).1]
  · show _ ++ (sortStrings _).filterMap _ = _ ++ ((sortStrings _).filter _).filterMap _
    rw [List.filterMap_filter]
    refine congrArg _ (List.filterMap_congr fun k _ => ?_)
    cases parseKey k <;> rfl
  · show (decide _ || decide _) = true ↔ _
    rw [Bool.or_eq_true, decide_eq_true_eq, decide_eq_true_eq, List.length_pos_iff,
      List.length_pos_iff]
    exact Iff.rfl

/-! ## Other orders -/

theorem sortStrings_eq_of_perm {l l' : List String} (h : l.Perm l') :
    sortStrings l = sortStrings l' :=
  ((sortStrings_perm l).trans (h.trans (sortStrings_perm l').symm)).eq_of_pairwise'
    (List.pairwise_insertionSort _ l) (List.pairwise_insertionSort _ l')

theorem assembled_congr {T' R R' U U' : GoMap String PeerInfo} {configs configs' : List PeerConfig}
    (hR : ∀ k, k ∈ R.keys ↔ k ∈ R'.keys) (hU : ∀ k, U.lookup k = U'.lookup k) :
    (assembled T R U configs).removeKeys = (assembled T' R' U' configs').removeKeys ∧
      (assembled T R U configs).upsertPeers = (assembled T' R' U' configs').upsertPeers := by
  have hkeys : sortStrings R.keys = sortStrings R'.keys :=
    sortStrings_eq_of_perm
      ((List.perm_ext_iff_of_nodup (AList.keys_nodup _) (AList.keys_nodup _)).2 hR)
  have hups : sortStrings U.keys = sortStrings U'.keys :=
    sortStrings_eq_of_perm (GoMap.keys_perm fun k => by rw [hU])
  constructor
  · show (sortStrings R.keys).filter _ = (sortStrings R'.keys).filter _
    rw [hkeys]
  · show (sortStrings U.keys).filterMap _ = (sortStrings U'.keys).filterMap _
    rw [hups]
    exact List.filterMap_congr fun k _ => hU k

/-- **What is removed and what is upserted do not depend on the orders of
the loops**, nor on how the maps came about. -/
theorem buildSyncDiff_congr (N : GoNet.Lib) (psk : Option Key) (o o' : DiffOrders)
    {E E' : GoMap String PeerInfo} {D D' : GoMap String DesiredPeer}
    (hE : ∀ k, E.lookup k = E'.lookup k) (hD : ∀ k, D.lookup k = D'.lookup k)
    (hrouted : ∀ k d, D.lookup k = some d → d.allowedIPNets ≠ []) :
    (buildSyncDiff N psk o E D).removeKeys = (buildSyncDiff N psk o' E' D').removeKeys ∧
      (buildSyncDiff N psk o E D).upsertPeers = (buildSyncDiff N psk o' E' D').upsertPeers := by
  have hrouted' : ∀ k d, D'.lookup k = some d → d.allowedIPNets ≠ [] :=
    fun k d hd => hrouted k d ((hD k).trans hd)
  rw [buildSyncDiff_eq o E D rfl (routed_targets hrouted),
    buildSyncDiff_eq o' E' D' rfl (routed_targets hrouted')]
  refine assembled_congr (fun k => ?_) fun k => Option.ext fun t => ?_
  · rw [mem_keys_removeSet, mem_keys_removeSet, lookup_targets, lookup_targets, hE, hD]
  · rw [lookup_upsertByKey, lookup_upsertByKey, lookup_targets, lookup_targets, hE, hD]

/-! ## The whole of the targets -/

/-- **A configuration for every target**, in the order of the keys. -/
theorem buildTargetPeerConfigs_eq (hT : Routed T) :
    buildTargetPeerConfigs psk T =
      ((sortStrings T.keys).filterMap fun k =>
          (T.lookup k).map fun t => buildAddConfig t.publicKey t.allowedIPs psk,
        sortStrings T.keys) := by
  have hkeys : ∀ k ∈ sortStrings T.keys, k ∈ T.keys := fun k hk => mem_sortStrings.1 hk
  unfold buildTargetPeerConfigs
  -- of any keys of targets, by the last of them
  generalize sortStrings T.keys = keys at hkeys ⊢
  induction keys using List.reverseRecOn with
  | nil => rfl
  | append_singleton ks k ih =>
    obtain ⟨t, ht⟩ := GoMap.mem_keys_iff.1 (hkeys k (by simp))
    have hadd : buildAddConfigFromPeerInfo t psk =
        some (buildAddConfig t.publicKey t.allowedIPs psk) :=
      buildAddConfigFromPeerInfo_of_ne (hT k t ht)
    rw [List.foldl_append, ih fun k' hk' => hkeys k' (List.mem_append_left _ hk')]
    simp [ht, hadd]

end Wireguard

end NodeAgent
