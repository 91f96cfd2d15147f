import NodeAgent.Wireguard.Helpers.Run
/-!
# What a batch leaves in the kernel

The batch of a difference changes every key once: `changeFor` is the
change for a key. With canonical keys the changes are separate
(`Holdings.Separate`), so updates, additions and removals may come in any
order. A snapshot, which replaces everything, is a batch of additions.
-/

namespace NodeAgent

namespace Wireguard

variable {N : GoNet.Lib} {psk : Option Key} {cfg : Config} {users : List (Option User)}
  {E T : GoMap String PeerInfo} {o : DiffOrders} {diff : SyncDiff}

/-- The networks of a peer, as a set. -/
def PeerInfo.held (N : GoNet.Lib) (p : PeerInfo) : Finset String :=
  networkSet N p.allowedIPs

theorem mem_held {p : PeerInfo} {x : String} : x ∈ p.held N ↔ x ∈ p.networks N :=
  List.mem_toFinset

theorem held_eq_of_networks {p q : PeerInfo} (h : p.networks N = q.networks N) :
    p.held N = q.held N :=
  congrArg List.toFinset h

theorem held_eq_of_view {p q : PeerInfo} (h : p.view N = q.view N) : p.held N = q.held N :=
  held_eq_of_networks (congrArg (fun v => v.2.2) h)

theorem disjoint_held {p q : PeerInfo} (h : ∀ x ∈ p.networks N, x ∉ q.networks N) :
    Disjoint (p.held N) (q.held N) :=
  Finset.disjoint_left.2 fun x hx hx' => h x (mem_held.1 hx) (mem_held.1 hx')

@[simp] theorem PeerConfig.holder_change (c : PeerConfig) : (c.change N).holder = c.publicKey := by
  unfold PeerConfig.change
  split_ifs <;> rfl

/-! ## The batch of a difference -/

/-- **The change for a key**, between existing peers and targets. -/
def changeFor (N : GoNet.Lib) (E T : GoMap String PeerInfo) (key : Key) :
    Option (Holdings.Change Key String) :=
  match E.lookup key.string, T.lookup key.string with
  | some e, some t => if e.networks N = t.networks N then none else some (.assign key (t.held N) true)
  | none, some t => some (.assign key (t.held N) false)
  | some _, none => some (.remove key)
  | none, none => none

theorem given_of_changeFor {c : Holdings.Change Key String}
    (h : changeFor N E T c.holder = some c) :
    c.given = ∅ ∨ ∃ t, T.lookup c.holder.string = some t ∧ c.given = t.held N := by
  cases he : E.lookup c.holder.string with
  | none =>
    cases ht : T.lookup c.holder.string with
    | none =>
      rw [changeFor, he, ht] at h
      cases h
    | some t =>
      rw [changeFor, he, ht] at h
      exact Or.inr ⟨t, rfl, by rw [← Option.some.inj h]; rfl⟩
  | some e =>
    cases ht : T.lookup c.holder.string with
    | none =>
      rw [changeFor, he, ht] at h
      exact Or.inl (by rw [← Option.some.inj h]; rfl)
    | some t =>
      rw [changeFor, he, ht] at h
      dsimp only at h
      split_ifs at h
      exact Or.inr ⟨t, rfl, by rw [← Option.some.inj h]; rfl⟩

section
variable (hT : Placed N cfg users T)
  (hE : ∀ k e, E.lookup k = some e → e.key = k)
include hT

theorem updateConfig_change {p : String × PeerInfo} (hp : E.lookup p.1 = some p.2) {c : PeerConfig}
    (h : updateConfig N psk T p = some c) :
    c.publicKey.string = p.1 ∧ changeFor N E T c.publicKey = some (c.change N) := by
  obtain ⟨t, ht, hupdate⟩ := Option.bind_eq_some_iff.1 h
  split_ifs at hupdate with hnets
  obtain rfl := Option.some.inj hupdate
  have hkey : t.publicKey.string = p.1 := hT.key ht
  refine ⟨hkey, ?_⟩
  show changeFor N E T t.publicKey = _
  rw [changeFor, hkey, hp, ht]
  exact if_neg hnets

theorem addConfig_change {p : String × PeerInfo} (hp : T.lookup p.1 = some p.2) {c : PeerConfig}
    (h : addConfig psk E p = some c) :
    c.publicKey.string = p.1 ∧ changeFor N E T c.publicKey = some (c.change N) := by
  unfold addConfig at h
  split_ifs at h with hnew
  obtain rfl := Option.some.inj h
  have hkey : p.2.publicKey.string = p.1 := hT.key hp
  refine ⟨hkey, ?_⟩
  show changeFor N E T p.2.publicKey = _
  rw [changeFor, hkey, hp, Option.not_isSome_iff_eq_none.1 hnew]
  rfl

include hE

omit hT in
theorem IsDiff.parseKey_of_mem (hdiff : IsDiff N psk o E T diff) {k : String}
    (hk : k ∈ diff.removeKeys) : ∃ key, parseKey k = some key ∧ key.string = k := by
  obtain ⟨⟨e, he⟩, -⟩ := (hdiff.mem_removeKeys k).1 hk
  refine ⟨e.publicKey, ?_, hE k e he⟩
  rw [← hE k e he, PeerInfo.key, parseKey_string]

/-- **The batch has the change for every key**, and no other. -/
theorem IsDiff.mem_changes (hdiff : IsDiff N psk o E T diff) (c : Holdings.Change Key String) :
    c ∈ diff.peerConfigs.map (PeerConfig.change N) ↔ changeFor N E T c.holder = some c := by
  rw [(hdiff.peerConfigs.map _).mem_iff]
  simp only [List.map_append, List.mem_append, List.mem_map, List.mem_filterMap]
  constructor
  · rintro ((⟨c, ⟨p, hp, hc'⟩, rfl⟩ | ⟨c, ⟨p, hp, hc'⟩, rfl⟩) | ⟨c, ⟨k, hk, hc'⟩, rfl⟩)
    · rw [PeerConfig.holder_change]
      exact (updateConfig_change hT (GoMap.mem_range.1 hp) hc').2
    · rw [PeerConfig.holder_change]
      exact (addConfig_change hT (GoMap.mem_range.1 hp) hc').2
    · obtain ⟨key, hkey, hstring⟩ := hdiff.parseKey_of_mem hE hk
      obtain ⟨⟨e, he⟩, hnone, -⟩ := (hdiff.mem_removeKeys k).1 hk
      rw [hkey, Option.map_some] at hc'
      rw [← Option.some.inj hc']
      show changeFor N E T key = some (.remove key)
      rw [changeFor, hstring, he, hnone]
  · intro h
    cases he : E.lookup c.holder.string with
    | none =>
      cases ht : T.lookup c.holder.string with
      | none =>
        rw [changeFor, he, ht] at h
        cases h
      | some t =>
        rw [changeFor, he, ht] at h
        have hkey : t.publicKey = c.holder := Key.string_injective (hT.key ht)
        refine Or.inl (Or.inr ⟨buildAddConfig t.publicKey t.allowedIPs psk,
          ⟨(c.holder.string, t), GoMap.mem_range.2 ht, ?_⟩, ?_⟩)
        · simp [addConfig, he]
        · rw [← Option.some.inj h, ← hkey]
          rfl
    | some e =>
      cases ht : T.lookup c.holder.string with
      | none =>
        rw [changeFor, he, ht] at h
        refine Or.inr ⟨buildRemoveConfig c.holder, ⟨c.holder.string, ?_, by simp⟩, ?_⟩
        · exact (hdiff.mem_removeKeys _).2 ⟨⟨e, he⟩, ht, by simp⟩
        · exact Option.some.inj h
      | some t =>
        rw [changeFor, he, ht] at h
        dsimp only at h
        split_ifs at h with hnets
        have hkey : t.publicKey = c.holder := Key.string_injective (hT.key ht)
        refine Or.inl (Or.inl
          ⟨{ buildAddConfig t.publicKey t.allowedIPs psk with replaceAllowedIPs := true },
            ⟨(c.holder.string, e), GoMap.mem_range.2 he, ?_⟩, ?_⟩)
        · simp [updateConfig, ht, hnets]
        · rw [← Option.some.inj h, ← hkey]
          rfl

theorem IsDiff.holders_nodup (hdiff : IsDiff N psk o E T diff) :
    ((diff.peerConfigs.map (PeerConfig.change N)).map Holdings.Change.holder).Nodup := by
  refine List.Nodup.of_map Key.string ?_
  have hholders : ((diff.peerConfigs.map (PeerConfig.change N)).map Holdings.Change.holder).map
      Key.string = diff.peerConfigs.map fun c => c.publicKey.string := by
    simp [Function.comp_def]
  rw [hholders, (hdiff.peerConfigs.map _).nodup_iff, List.map_append, List.map_append]
  have hupdate : ∀ p ∈ GoMap.range o.existing E, ∀ c, updateConfig N psk T p = some c →
      c.publicKey.string = p.1 :=
    fun p hp c h => (updateConfig_change hT (GoMap.mem_range.1 hp) h).1
  have hadd : ∀ p ∈ GoMap.range o.target T, ∀ c, addConfig psk E p = some c →
      c.publicKey.string = p.1 :=
    fun p hp c h => (addConfig_change hT (GoMap.mem_range.1 hp) h).1
  have hremove : (diff.removeKeys.filterMap fun k => (parseKey k).map buildRemoveConfig).map
      (fun c => c.publicKey.string) = diff.removeKeys := by
    have hall : ∀ k ∈ diff.removeKeys, ((parseKey k).map buildRemoveConfig).map
        (fun c => c.publicKey.string) = some k := by
      intro k hk
      obtain ⟨key, hkey, hstring⟩ := hdiff.parseKey_of_mem hE hk
      rw [hkey, ← hstring]
      rfl
    rw [List.map_filterMap, List.filterMap_congr hall, List.filterMap_some]
  rw [hremove]
  refine List.nodup_append.2 ⟨List.nodup_append.2 ⟨?_, ?_, ?_⟩, hdiff.removeKeys_nodup, ?_⟩
  · exact (GoMap.range_nodup o.existing E).sublist (GoMap.filterMap_map_sublist hupdate)
  · exact (GoMap.range_nodup o.target T).sublist (GoMap.filterMap_map_sublist hadd)
  · rintro a ha b hb rfl
    obtain ⟨c, hc', rfl⟩ := List.mem_map.1 ha
    obtain ⟨c', hc'', hkey⟩ := List.mem_map.1 hb
    obtain ⟨p, hp, hpc⟩ := List.mem_filterMap.1 hc'
    obtain ⟨q, hq, hqc⟩ := List.mem_filterMap.1 hc''
    -- an addition is of a key that is not among the existing
    have hkeys : q.1 = p.1 := by rw [← hadd q hq c' hqc, ← hupdate p hp c hpc, hkey]
    unfold addConfig at hqc
    split_ifs at hqc with hnew
    rw [hkeys, GoMap.mem_range.1 hp] at hnew
    exact hnew rfl
  · rintro a ha b hb rfl
    obtain ⟨-, hnone, -⟩ := (hdiff.mem_removeKeys a).1 hb
    rcases List.mem_append.1 ha with ha | ha
    · obtain ⟨c, hc', rfl⟩ := List.mem_map.1 ha
      obtain ⟨p, hp, hpc⟩ := List.mem_filterMap.1 hc'
      obtain ⟨t, ht, -⟩ := Option.bind_eq_some_iff.1 hpc
      rw [hupdate p hp c hpc, ht] at hnone
      cases hnone
    · obtain ⟨c, hc', rfl⟩ := List.mem_map.1 ha
      obtain ⟨p, hp, hpc⟩ := List.mem_filterMap.1 hc'
      rw [hadd p hp c hpc, GoMap.mem_range.1 hp] at hnone
      cases hnone

theorem IsDiff.given_disjoint (hdiff : IsDiff N psk o E T diff) {c c' : Holdings.Change Key String}
    (hmem : c ∈ diff.peerConfigs.map (PeerConfig.change N))
    (hmem' : c' ∈ diff.peerConfigs.map (PeerConfig.change N)) (hne : c.holder ≠ c'.holder) :
    Disjoint c.given c'.given := by
  have hfor := (hdiff.mem_changes hT hE c).1 hmem
  have hfor' := (hdiff.mem_changes hT hE c').1 hmem'
  rcases given_of_changeFor hfor with hgiven | ⟨t, ht, hgiven⟩
  · simp [hgiven]
  · rcases given_of_changeFor hfor' with hgiven' | ⟨t', ht', hgiven'⟩
    · simp [hgiven']
    · rw [hgiven, hgiven']
      refine disjoint_held (hT.disjoint ht ht' fun hemail => hne ?_)
      exact Key.string_injective (hT.unique ht ht' hemail).1

/-- **The changes of the batch are separate**, on a device that has nothing
under the keys that are added. -/
theorem IsDiff.separate (hdiff : IsDiff N psk o E T diff) {d : Device}
    (hfresh : ∀ key t, T.lookup key.string = some t → E.lookup key.string = none → d key = none) :
    Holdings.Separate d (diff.peerConfigs.map (PeerConfig.change N)) where
  holders := hdiff.holders_nodup hT hE
  given := by
    have hpairs := List.pairwise_map.1 (hdiff.holders_nodup hT hE)
    exact hpairs.imp_of_mem fun hmem hmem' hne => hdiff.given_disjoint hT hE hmem hmem' hne
  fresh := by
    intro key rs hmem
    have hfor := (hdiff.mem_changes hT hE _).1 hmem
    change changeFor N E T key = some (.assign key rs false) at hfor
    cases he : E.lookup key.string with
    | none =>
      cases ht : T.lookup key.string with
      | none =>
        rw [changeFor, he, ht] at hfor
        cases hfor
      | some t => exact hfresh key t ht he
    | some e =>
      -- what is there is replaced or removed
      cases ht : T.lookup key.string with
      | none =>
        rw [changeFor, he, ht] at hfor
        cases hfor
      | some t =>
        rw [changeFor, he, ht] at hfor
        dsimp only at hfor
        split_ifs at hfor
        cases hfor

end

/-! ## Snapshots -/

/-- The batch that adds peers. -/
def addAll (psk : Option Key) (peers : List PeerInfo) : List PeerConfig :=
  peers.map fun p => buildAddConfig p.publicKey p.allowedIPs psk

theorem changes_addAll (peers : List PeerInfo) :
    (addAll psk peers).map (PeerConfig.change N) =
      peers.map fun p => .assign p.publicKey (p.held N) false := by
  rw [addAll, List.map_map]
  rfl

theorem eq_map_of_mapM {α β ε : Type} {f : α → Except ε β} {g : α → β}
    (hf : ∀ a b, f a = .ok b → b = g a) {l : List α} {bs : List β} (h : l.mapM f = .ok bs) :
    bs = l.map g := by
  induction l generalizing bs with
  | nil =>
    cases h
    rfl
  | cons a l ih =>
    rw [List.mapM_cons] at h
    cases ha : f a with
    | error err =>
      rw [ha] at h
      cases h
    | ok b =>
      cases hl : l.mapM f with
      | error err =>
        rw [ha, hl] at h
        cases h
      | ok bs' =>
        rw [ha, hl] at h
        cases h
        rw [List.map_cons, ← hf a b ha, ← ih hl]

theorem buildPeerConfigsForRestart_ok {peers : List PeerInfo} {configs : List PeerConfig}
    (h : WireGuard.buildPeerConfigsForRestart psk peers = .ok configs) :
    configs = addAll psk (peers.insertionSort fun p q => p.key ≤ q.key) := by
  refine eq_map_of_mapM (fun peer config hconfig => ?_) h
  unfold buildAddConfigFromPeerInfo at hconfig
  split_ifs at hconfig
  cases hconfig
  rfl

section
variable {peers : List PeerInfo}

/-- **A snapshot leaves the peers it was made of**, if they have different
keys and no network in common. -/
theorem configure_addAll (hkeys : (peers.map PeerInfo.publicKey).Nodup)
    (hapart : ∀ p ∈ peers, ∀ q ∈ peers, p ≠ q → ∀ x ∈ p.networks N, x ∉ q.networks N)
    (d : Device) :
    (∀ p ∈ peers, d.configure N true (addAll psk peers) p.publicKey = some (p.held N)) ∧
      ∀ key, key ∉ peers.map PeerInfo.publicKey →
        d.configure N true (addAll psk peers) key = none := by
  have hholders : (peers.map fun p => Holdings.Change.assign p.publicKey (p.held N) false).map
      Holdings.Change.holder = peers.map PeerInfo.publicKey := by
    rw [List.map_map]
    rfl
  have hsep : Holdings.Separate (fun _ => none) (peers.map fun p =>
      Holdings.Change.assign p.publicKey (p.held N) false) := by
    refine ⟨by rw [hholders]; exact hkeys, ?_, fun _ _ _ => rfl⟩
    refine List.pairwise_map.2 ((List.pairwise_map.1 hkeys).imp_of_mem fun hp hq hne => ?_)
    exact disjoint_held (hapart _ hp _ hq fun heq => hne (congrArg _ heq))
  rw [Device.configure, changes_addAll]
  refine ⟨fun p hp => ?_, fun key hkey => ?_⟩
  · exact hsep.foldl_apply.2 _ _ _ (List.mem_map_of_mem hp)
  · rw [Holdings.foldl_apply_of_notMem _ _ (by rw [hholders]; exact hkey)]
    rfl

theorem subset_configure_addAll (hnodup : peers.Nodup)
    (hapart : ∀ p ∈ peers, ∀ q ∈ peers, p ≠ q → ∀ x ∈ p.networks N, x ∉ q.networks N)
    (d : Device) {p : PeerInfo} (hp : p ∈ peers) :
    ∃ rs, d.configure N true (addAll psk peers) p.publicKey = some rs ∧ p.held N ⊆ rs := by
  rw [Device.configure, changes_addAll]
  refine Holdings.subset_of_added (fun c hc => ?_) ?_
    (List.mem_map.2 ⟨p, hp, rfl⟩) _
  · obtain ⟨q, -, rfl⟩ := List.mem_map.1 hc
    exact ⟨_, _, rfl⟩
  · refine List.pairwise_map.2 (hnodup.imp_of_mem fun hp hq hne => ?_)
    exact disjoint_held (hapart _ hp _ hq hne)

/-- **A snapshot of the peers of a store agrees with it.** -/
theorem addAll_agrees {ps : PeerStore} (hmem : ∀ p, p ∈ peers ↔ ps.peers.lookup p.key = some p)
    (hkeys : (peers.map PeerInfo.publicKey).Nodup)
    (hapart : ∀ p ∈ peers, ∀ q ∈ peers, p ≠ q → ∀ x ∈ p.networks N, x ∉ q.networks N)
    (d : Device) (key : Key) :
    d.configure N true (addAll psk peers) key =
      (ps.peers.lookup key.string).map (PeerInfo.held N) := by
  obtain ⟨hin, hout⟩ : (∀ p ∈ peers, d.configure N true (addAll psk peers) p.publicKey =
      some (p.held N)) ∧ ∀ key, key ∉ peers.map PeerInfo.publicKey →
        d.configure N true (addAll psk peers) key = none := configure_addAll hkeys hapart d
  cases hp : ps.peers.lookup key.string with
  | none =>
    refine hout key fun hkey => ?_
    obtain ⟨p, hpm, rfl⟩ := List.mem_map.1 hkey
    have hstored : ps.peers.lookup p.publicKey.string = some p := (hmem p).1 hpm
    rw [hp] at hstored
    cases hstored
  | some p =>
    have hkey : p.key = key.string := ps.keyed _ p hp
    have hpm : p ∈ peers := (hmem p).2 (by rw [hkey, hp])
    rw [Option.map_some, ← hin p hpm, Key.string_injective hkey]

/-- **A snapshot and a new store of the same peers agree exactly if no two
of the peers have one key.** -/
theorem addAll_agrees_iff {stored : List PeerInfo} (hstored : ∀ p, p ∈ stored ↔ p ∈ peers)
    (hemails : (stored.map PeerInfo.email).Nodup) (hnodup : peers.Nodup)
    (hrouted : ∀ p ∈ peers, (p.held N).Nonempty)
    (hapart : ∀ p ∈ peers, ∀ q ∈ peers, p ≠ q → ∀ x ∈ p.networks N, x ∉ q.networks N)
    (d : Device) :
    (∀ key : Key, d.configure N true (addAll psk peers) key =
        ((PeerStore.new.init stored).peers.lookup key.string).map (PeerInfo.held N)) ↔
      ∀ p ∈ peers, ∀ q ∈ peers, p.publicKey = q.publicKey → p = q := by
  constructor
  · intro hagrees p hp q hq hkey
    -- whoever the store has under the key holds what is held in the kernel
    have hown : ∀ p ∈ peers, (PeerStore.new.init stored).peers.lookup p.key = some p := by
      intro p hp
      obtain ⟨rs, hrs, hsub⟩ : ∃ rs, d.configure N true (addAll psk peers) p.publicKey = some rs ∧
          p.held N ⊆ rs := subset_configure_addAll hnodup hapart d hp
      rw [hagrees p.publicKey] at hrs
      obtain ⟨r, hr, rfl⟩ := Option.map_eq_some_iff.1 hrs
      have hrp : p = r := by
        by_contra hne
        obtain ⟨x, hx⟩ := hrouted p hp
        have hrmem : r ∈ peers := (hstored r).1 (PeerStore.mem_init hr)
        exact hapart p hp r hrmem hne x (mem_held.1 hx) (mem_held.1 (hsub hx))
      rw [hrp] at hr ⊢
      exact hr
    have hpq := hown p hp
    rw [PeerInfo.key, hkey] at hpq
    exact Option.some.inj (hpq.symm.trans (hown q hq))
  · intro hkeys
    have hstoredkeys : (stored.map PeerInfo.key).Nodup := by
      refine (List.Nodup.of_map _ hemails).map_on fun p hp q hq hkey => ?_
      exact hkeys p ((hstored p).1 hp) q ((hstored q).1 hq) (Key.string_injective hkey)
    refine addAll_agrees (fun p => ?_) (hnodup.map_on hkeys) hapart d
    rw [← hstored p]
    exact ⟨fun hp => PeerStore.lookup_init hstoredkeys hp, PeerStore.mem_init⟩

end

/-! ## The targets as a snapshot -/

/-- **No two users of a list ask for one key.** -/
def KeysApart (N : GoNet.Lib) (cfg : Config) (users : List (Option User)) : Prop :=
  ∀ d d', Asks N cfg users d → Asks N cfg users d' → d.parsedKey = d'.parsedKey →
    d.email = d'.email

theorem keysApart_of_canonical {o : Order String} {D : GoMap String DesiredPeer}
    (hD : collectDesiredPeers N cfg (normalizeUsers o users) = .ok D) (hc : Canonical users) :
    KeysApart N cfg users := by
  intro d d' hd hd' hkey
  by_contra hne
  have hspelled : d.publicKey = d'.publicKey := by
    rw [hc.asks hd, hc.asks hd']
    exact congrArg Key.string hkey
  exact ((collectDesiredPeers_ok hD).2 d d' hd hd' hne).1 hspelled

/-- The targets in the order of their keys. -/
def targetList (T : GoMap String PeerInfo) : List PeerInfo :=
  (sortStrings T.keys).filterMap T.lookup

theorem mem_targetList {t : PeerInfo} : t ∈ targetList T ↔ ∃ k, T.lookup k = some t := by
  simp only [targetList, List.mem_filterMap, mem_sortStrings]
  exact ⟨fun ⟨k, _, ht⟩ => ⟨k, ht⟩, fun ⟨k, ht⟩ => ⟨k, GoMap.mem_keys_iff.2 ⟨t, ht⟩, ht⟩⟩

theorem targetList_congr {T' : GoMap String PeerInfo} (h : ∀ k, T.lookup k = T'.lookup k) :
    targetList T = targetList T' := by
  have hkeys : sortStrings T.keys = sortStrings T'.keys :=
    sortStrings_eq_of_perm (GoMap.keys_perm fun k => by rw [h])
  rw [targetList, targetList, hkeys]
  exact List.filterMap_congr fun k _ => h k

theorem length_targetList : (targetList T).length = (sortStrings T.keys).length := by
  have hkeys : ∀ k ∈ sortStrings T.keys, k ∈ T.keys := fun k hk => mem_sortStrings.1 hk
  unfold targetList
  generalize sortStrings T.keys = ks at hkeys ⊢
  induction ks with
  | nil => rfl
  | cons k ks ih =>
    obtain ⟨t, ht⟩ := GoMap.mem_keys_iff.1 (hkeys k (List.mem_cons_self ..))
    have hlength := ih fun k' hk' => hkeys k' (List.mem_cons_of_mem _ hk')
    simp [ht, hlength]

theorem buildTargetPeerConfigs_addAll (hT : Routed T) :
    (buildTargetPeerConfigs psk T).1 = addAll psk (targetList T) := by
  rw [buildTargetPeerConfigs_eq hT, addAll, targetList, List.map_filterMap]

namespace Targets

theorem nodup_targetList (hT : Targets N cfg users T) : (targetList T).Nodup := by
  refine ((sortStrings_perm T.keys).nodup_iff.2 T.nodupKeys).filterMap fun k k' t ht ht' => ?_
  exact (hT.unique ht ht' rfl).1

/-- **The kernel after the snapshot of the targets agrees with a new store
of them exactly if no two of them have one key.** -/
theorem snapshot_agrees_iff (hT : Targets N cfg users T) {stored : List PeerInfo}
    (hstored : ∀ t, t ∈ stored ↔ ∃ k, T.lookup k = some t)
    (hemails : (stored.map PeerInfo.email).Nodup) (d : Device) :
    (∀ key : Key, d.configure N true (buildTargetPeerConfigs psk T).1 key =
        ((PeerStore.new.init stored).peers.lookup key.string).map (PeerInfo.held N)) ↔
      KeysApart N cfg users := by
  rw [buildTargetPeerConfigs_addAll hT.routed, addAll_agrees_iff
    (fun t => (hstored t).trans mem_targetList.symm) hemails hT.nodup_targetList]
  · constructor
    · intro hkeys d d' hd hd' hkey
      have ht := mem_targetList.2 ⟨_, (hT.lookup_iff _ _).2 ⟨d, hd, rfl, rfl⟩⟩
      have ht' := mem_targetList.2 ⟨_, (hT.lookup_iff _ _).2 ⟨d', hd', rfl, rfl⟩⟩
      exact congrArg PeerInfo.email (hkeys _ ht _ ht' hkey)
    · intro hkeys t ht t' ht' hkey
      obtain ⟨k, hk⟩ := mem_targetList.1 ht
      obtain ⟨k', hk'⟩ := mem_targetList.1 ht'
      obtain ⟨d, hd, -, rfl⟩ := (hT.lookup_iff k t).1 hk
      obtain ⟨d', hd', -, rfl⟩ := (hT.lookup_iff k' t').1 hk'
      exact (hT.unique hk hk' (hkeys d d' hd hd' hkey)).2
  · intro t ht
    obtain ⟨k, hk⟩ := mem_targetList.1 ht
    obtain ⟨n, hn⟩ := List.exists_mem_of_ne_nil _ (hT.routed k t hk)
    exact ⟨N.string n, mem_held.2 (List.mem_map_of_mem hn)⟩
  · intro t ht t' ht' hne
    obtain ⟨k, hk⟩ := mem_targetList.1 ht
    obtain ⟨k', hk'⟩ := mem_targetList.1 ht'
    exact hT.disjoint hk hk' fun hemail => hne (hT.unique hk hk' hemail).2

end Targets

end Wireguard

end NodeAgent
