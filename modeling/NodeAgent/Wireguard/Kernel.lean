import NodeAgent.Wireguard.Exclusive
import NodeAgent.Wireguard.Helpers.Kernel
/-!
# The kernel and the peer store

The device holds the peers of the store with their networks, no more and
no less, as long as the keys the store has come in their canonical spelling
and no merged list asks for a network of a user it does not name. The
second is the defect of the exclusive networks again: the kernel moves the
network, the store does not. The first is one of its own: a key spelled
otherwise is compared with the stored ones as a text, and is added and
removed in one batch, or merged with what is there.
-/

namespace NodeAgent

namespace Wireguard

variable {N : GoNet.Lib} {env : Env} {wg : WireGuard} {users : List (Option User)}

/-- **The device's peers and their networks are those of the store.** -/
def WireGuard.Agrees (N : GoNet.Lib) (wg : WireGuard) : Prop :=
  ∀ key : Key, wg.device key = (wg.peerStore.peers.lookup key.string).map (PeerInfo.held N)

/-- What a run keeps. -/
structure Mirrored (N : GoNet.Lib) (wg : WireGuard) : Prop where
  oneToOne : wg.peerStore.OneToOne
  exclusive : wg.peerStore.Exclusive N
  agrees : wg.Agrees N

theorem Mirrored.sound (h : Mirrored N wg) : Sound N wg :=
  ⟨h.oneToOne.indexed, h.exclusive⟩

/-! ## Spelling -/

/-- **A list the store can be compared with**: every key of it that can be
read is spelled the way `Key.String` spells it, or the store does not have
it and the list spells it in one way. -/
def Spelled (wg : WireGuard) (users : List (Option User)) : Prop :=
  ∀ u, some u ∈ users → ∀ key, parseKey u.getPublicKey = some key →
    u.getPublicKey = key.string ∨ wg.peerStore.peers.lookup key.string = none ∧
      ∀ v, some v ∈ users → parseKey v.getPublicKey = some key → v.getPublicKey = u.getPublicKey

section

variable {T T' E : GoMap String PeerInfo}

namespace Spelled

variable {d : DesiredPeer}

theorem asks (h : Spelled wg users) (hd : Asks N wg.config users d) :
    d.publicKey = d.peerInfo.key ∨ wg.peerStore.peers.lookup d.peerInfo.key = none ∧
      ∀ d', Asks N wg.config users d' → d'.parsedKey = d.parsedKey →
        d'.publicKey = d.publicKey := by
  obtain ⟨u, hu, hkey⟩ := hd.exists_user
  rw [← hkey]
  refine (h u hu d.parsedKey (hkey ▸ hd.parseKey)).imp_right fun hnew => ⟨hnew.1, ?_⟩
  intro d' hd' hparsed
  obtain ⟨v, hv, hkey'⟩ := hd'.exists_user
  rw [← hkey']
  exact hnew.2 v hv (by rw [hkey', ← hparsed, hd'.parseKey])

theorem exists_placed (h : Spelled wg users) (hT : Targets N wg.config users T) :
    ∃ T', Placed N wg.config users T' := by
  have hnodup : (((GoMap.range .given T).map fun p => (p.2.key, p.2)).map Prod.fst).Nodup := by
    rw [List.map_map]
    refine (List.Nodup.of_map _ (GoMap.range_nodup .given T)).map_on fun p hp q hq hkey => ?_
    have ht := GoMap.mem_range.1 hp
    have ht' := GoMap.mem_range.1 hq
    obtain ⟨d, hd, hname, hpeer⟩ := (hT.lookup_iff _ _).1 ht
    obtain ⟨d', hd', hname', hpeer'⟩ := (hT.lookup_iff _ _).1 ht'
    have hsame : d'.peerInfo.key = d.peerInfo.key := by
      rw [hpeer, hpeer']
      exact hkey.symm
    have hfst : p.1 = q.1 := by
      rw [← hname, ← hname']
      rcases h.asks hd with hcanon | ⟨-, hone⟩
      · rcases h.asks hd' with hcanon' | ⟨-, hone'⟩
        · rw [hcanon, hcanon', hsame]
        · exact hone' d hd (Key.string_injective hsame.symm)
      · exact (hone d' hd' (Key.string_injective hsame)).symm
    refine Prod.ext hfst ?_
    rw [hfst, ht'] at ht
    exact (Option.some.inj ht).symm
  refine ⟨GoMap.insertAll ∅ ((GoMap.range .given T).map fun p => (p.2.key, p.2)),
    fun k t => ?_, hT.apart⟩
  rw [GoMap.lookup_insertAll_iff hnodup]
  simp only [List.mem_map, GoMap.mem_range, Prod.mk.injEq, Prod.exists, GoMap.lookup_empty',
    reduceCtorEq, and_false, or_false, hT.lookup_iff]
  constructor
  · rintro ⟨-, -, ⟨d, hd, -, rfl⟩, rfl, rfl⟩
    exact ⟨d, hd, rfl, rfl⟩
  · rintro ⟨d, hd, rfl, rfl⟩
    exact ⟨_, _, ⟨d, hd, rfl, rfl⟩, rfl, rfl⟩

theorem canonical_of_existing (h : Spelled wg users) (hd : Asks N wg.config users d)
    (hE : ∀ k e, E.lookup k = some e → wg.peerStore.peers.lookup k = some e)
    (hex : E.lookup d.publicKey ≠ none ∨ E.lookup d.peerInfo.key ≠ none) :
    d.publicKey = d.peerInfo.key := by
  rcases hex with hex | hex
  · obtain ⟨e, he⟩ := Option.ne_none_iff_exists'.1 hex
    have hstored := hE _ e he
    have hparse := wg.peerStore.parseKey_of_lookup hstored
    rw [hd.parseKey] at hparse
    rw [PeerInfo.key, DesiredPeer.peerInfo, Option.some.inj hparse]
    exact (wg.peerStore.keyed _ e hstored).symm
  · obtain ⟨e, he⟩ := Option.ne_none_iff_exists'.1 hex
    refine (h.asks hd).resolve_right fun hnew => ?_
    rw [hE _ e he] at hnew
    cases hnew.1

end Spelled

/-- **The same targets under other keys**, those they are to be stored under:
a key that is spelled otherwise is new either way. -/
structure Rekeyed (E T T' : GoMap String PeerInfo) : Prop where
  /-- The existing peers are met with the same targets. -/
  met : ∀ k e, E.lookup k = some e → T.lookup k = T'.lookup k
  /-- And the targets with the same existing peers. -/
  meets : ∀ k t, T.lookup k = some t → E.lookup k = E.lookup t.key ∧ T'.lookup t.key = some t
  back : ∀ k t, T'.lookup k = some t → t.key = k ∧ ∃ k', T.lookup k' = some t

theorem Spelled.rekeyed (h : Spelled wg users) (hT : Targets N wg.config users T)
    (hT' : Placed N wg.config users T')
    (hE : ∀ k e, E.lookup k = some e → wg.peerStore.peers.lookup k = some e) : Rekeyed E T T' := by
  have hcanon := fun d (hd : Asks N wg.config users d) => h.canonical_of_existing hd hE
  refine ⟨fun k e he => Option.ext fun t => ?_, fun k t ht => ?_, fun k t ht => ?_⟩
  · rw [hT.lookup_iff, hT'.lookup_iff]
    refine exists_congr fun d => and_congr_right fun hd => and_congr_left fun _ => ?_
    constructor
    · rintro rfl
      exact (hcanon d hd (Or.inl (by simp [he]))).symm
    · rintro rfl
      exact hcanon d hd (Or.inr (by simp [he]))
  · obtain ⟨d, hd, rfl, rfl⟩ := (hT.lookup_iff k t).1 ht
    refine ⟨?_, (hT'.lookup_iff _ _).2 ⟨d, hd, rfl, rfl⟩⟩
    by_cases hex : E.lookup d.publicKey ≠ none ∨ E.lookup d.peerInfo.key ≠ none
    · rw [hcanon d hd hex]
    · rw [not_or, not_not, not_not] at hex
      rw [hex.1, hex.2]
  · obtain ⟨d, hd, rfl, rfl⟩ := (hT'.lookup_iff k t).1 ht
    exact ⟨rfl, _, (hT.lookup_iff _ _).2 ⟨d, hd, rfl, rfl⟩⟩

namespace Rekeyed

variable {cfg : Config} {psk : Option Key} {o : DiffOrders} {diff : SyncDiff}

theorem range_perm (r : Rekeyed E T T') (hT : Targets N cfg users T) (o : Order String) :
    (GoMap.range o T').Perm ((GoMap.range o T).map fun p => (p.2.key, p.2)) := by
  refine (List.perm_ext_iff_of_nodup (.of_map _ (GoMap.range_nodup o T')) ?_).2 fun p => ?_
  · refine .of_map Prod.snd ?_
    rw [List.map_map]
    exact .of_map _ (hT.emails_nodup o)
  · simp only [GoMap.mem_range, List.mem_map]
    constructor
    · intro hp
      obtain ⟨hkey, k, hk⟩ := r.back _ _ hp
      exact ⟨(k, p.2), hk, Prod.ext hkey rfl⟩
    · rintro ⟨q, hq, rfl⟩
      exact (r.meets _ _ hq).2

theorem adds_perm (r : Rekeyed E T T') (hT : Targets N cfg users T) (o : Order String) :
    ((GoMap.range o T).filterMap (addConfig psk E)).Perm
      ((GoMap.range o T').filterMap (addConfig psk E)) := by
  refine List.Perm.trans (.of_eq ?_) ((r.range_perm hT o).filterMap _).symm
  rw [List.filterMap_map]
  refine List.filterMap_congr fun p hp => ?_
  rw [Function.comp_apply, addConfig, addConfig, (r.meets _ _ (GoMap.mem_range.1 hp)).1]

theorem updates_eq (r : Rekeyed E T T') (o : Order String) :
    (GoMap.range o E).filterMap (updateConfig N psk T) =
      (GoMap.range o E).filterMap (updateConfig N psk T') := by
  refine List.filterMap_congr fun p hp => ?_
  rw [updateConfig, updateConfig, r.met _ _ (GoMap.mem_range.1 hp)]

/-- **They have the same difference** to the existing peers. -/
theorem isDiff (r : Rekeyed E T T') (hT : Targets N cfg users T) (hdiff : IsDiff N psk o E T diff) :
    IsDiff N psk o E T' diff := by
  have hups : ∀ t ∈ diff.upsertPeers, T'.lookup t.key = some t := by
    intro t ht
    obtain ⟨k, hk, -⟩ := (hdiff.mem_upsertPeers t).1 ht
    exact (r.meets k t hk).2
  refine ⟨fun k => ?_, hdiff.removeKeys_nodup, fun t => ?_, ?_, ?_, hdiff.changed⟩
  · rw [hdiff.mem_removeKeys]
    refine and_congr_right fun ⟨e, he⟩ => ?_
    rw [r.met k e he]
  · rw [hdiff.mem_upsertPeers]
    constructor
    · rintro ⟨k, hk, hdiffers⟩
      obtain ⟨hexisting, ht⟩ := r.meets k t hk
      exact ⟨t.key, ht, hexisting ▸ hdiffers⟩
    · rintro ⟨k, hk, hdiffers⟩
      obtain ⟨rfl, k', hk'⟩ := r.back k t hk
      exact ⟨k', hk', (r.meets k' t hk').1 ▸ hdiffers⟩
  · refine ⟨diff.upsertPeers.map PeerInfo.key, ?_, ?_⟩
    · refine (List.Nodup.of_map _ (hdiff.upserts_emails hT)).map_on fun t ht t' ht' hkey => ?_
      have hlookup := hups t ht
      rw [hkey, hups t' ht'] at hlookup
      exact (Option.some.inj hlookup).symm
    · rw [List.filterMap_map]
      exact ((List.filterMap_congr hups).trans List.filterMap_some).symm
  · exact hdiff.peerConfigs.trans
      (.append (.append (.of_eq (r.updates_eq o.existing)) (r.adds_perm hT o.target)) (.refl _))

end Rekeyed

end

/-! ## Merging -/

/-- **A merge that goes through**: targets under their keys, none under a
key of a user that is not named, and the difference to the peers of those
that are. -/
structure Merging (N : GoNet.Lib) (env : Env) (wg : WireGuard) (users : List (Option User))
    (T : GoMap String PeerInfo) (diff : SyncDiff) : Prop where
  mirrored : Mirrored N wg
  placed : Placed N wg.config users T
  owned : ∀ k t p, T.lookup k = some t → wg.peerStore.peers.lookup k = some p →
    Touched users p.email
  isDiff : IsDiff N wg.config.getPreSharedKey env.diffOrders (wg.touchedPeers env users) T diff

namespace Merging

variable {T : GoMap String PeerInfo} {diff : SyncDiff} {key : Key}

theorem existing_iff (b : Merging N env wg users T diff) {k : String} {p : PeerInfo} :
    (wg.touchedPeers env users).lookup k = some p ↔
      wg.peerStore.peers.lookup k = some p ∧ Touched users p.email :=
  WireGuard.lookup_touchedPeers_of_oneToOne b.mirrored.oneToOne

theorem merged (b : Merging N env wg users T diff) :
    Merged N users T wg.peerStore
      (wg.peerStore.applyChanges diff.removeKeys diff.upsertPeers).1 :=
  merged_applyChanges b.mirrored.oneToOne (fun _ _ => b.existing_iff) b.placed b.isDiff

theorem mem_changes (b : Merging N env wg users T diff) {c : Holdings.Change Key String} :
    c ∈ diff.peerConfigs.map (PeerConfig.change N) ↔
      changeFor N (wg.touchedPeers env users) T c.holder = some c :=
  b.isDiff.mem_changes b.placed
    (fun _ _ he => (WireGuard.lookup_touchedPeers.1 he).1) c

theorem separate (b : Merging N env wg users T diff) :
    Holdings.Separate wg.device (diff.peerConfigs.map (PeerConfig.change N)) := by
  refine b.isDiff.separate b.placed (fun k e he => ?_) fun key t ht he => ?_
  · exact (WireGuard.lookup_touchedPeers.1 he).1
  · rw [b.mirrored.agrees key, Option.map_eq_none_iff]
    refine Option.eq_none_iff_forall_ne_some.2 fun p hp => ?_
    rw [b.existing_iff.2 ⟨hp, b.owned _ t p ht hp⟩] at he
    cases he

theorem configure_of_none (b : Merging N env wg users T diff)
    (hnone : changeFor N (wg.touchedPeers env users) T key = none) :
    wg.device.configure N false diff.peerConfigs key =
      (wg.device key).map (·.filter fun x =>
        ∀ c ∈ diff.peerConfigs.map (PeerConfig.change N), x ∉ c.given) := by
  refine Holdings.foldl_apply_of_notMem _ _ fun hmem => ?_
  obtain ⟨c, hc, rfl⟩ := List.mem_map.1 hmem
  rw [b.mem_changes.1 hc] at hnone
  cases hnone

theorem mem_of_changeFor (b : Merging N env wg users T diff) {c : Holdings.Change Key String}
    (hchange : changeFor N (wg.touchedPeers env users) T key = some c) (hholder : c.holder = key) :
    c ∈ diff.peerConfigs.map (PeerConfig.change N) := by
  subst hholder
  exact b.mem_changes.2 hchange

theorem not_given (b : Merging N env wg users T diff) {t : PeerInfo}
    (ht : T.lookup key.string = some t)
    (hnone : changeFor N (wg.touchedPeers env users) T key = none) :
    ∀ x ∈ t.held N, ∀ c ∈ diff.peerConfigs.map (PeerConfig.change N), x ∉ c.given := by
  intro x hx c hmem hgiven
  have hchange := b.mem_changes.1 hmem
  rcases given_of_changeFor hchange with hempty | ⟨t', ht', hheld⟩
  · simp [hempty] at hgiven
  · rw [hheld] at hgiven
    refine b.placed.disjoint ht ht' (fun hemail => ?_) x (mem_held.1 hx) (mem_held.1 hgiven)
    have hkeys : key = c.holder := Key.string_injective (b.placed.unique ht ht' hemail).1
    rw [← hkeys, hnone] at hchange
    cases hchange

theorem agree_at_none (b : Merging N env wg users T diff)
    (hkey : ∀ p, wg.peerStore.peers.lookup key.string = some p → Touched users p.email)
    (ht : T.lookup key.string = none) :
    wg.device.configure N false diff.peerConfigs key =
      ((wg.peerStore.applyChanges diff.removeKeys diff.upsertPeers).1.peers.lookup key.string).map
        (PeerInfo.held N) := by
  cases hp : wg.peerStore.peers.lookup key.string with
  | none =>
    -- there was nobody, and there is nobody
    have he : (wg.touchedPeers env users).lookup key.string = none := by
      refine Option.eq_none_iff_forall_ne_some.2 fun e he => ?_
      rw [(b.existing_iff.1 he).1] at hp
      cases hp
    have hleft : (wg.peerStore.applyChanges diff.removeKeys
        diff.upsertPeers).1.peers.lookup key.string = none := by
      refine Option.eq_none_iff_forall_ne_some.2 fun q hq => ?_
      rw [((b.merged.other _ q ht).1 hq).1] at hp
      cases hp
    rw [b.configure_of_none (by rw [changeFor, he, ht]), b.mirrored.agrees key, hp, hleft]
    rfl
  | some p =>
    have he : (wg.touchedPeers env users).lookup key.string = some p :=
      b.existing_iff.2 ⟨hp, hkey p hp⟩
    have hchange : changeFor N (wg.touchedPeers env users) T key = some (.remove key) := by
      rw [changeFor, he, ht]
    rw [(b.merged.left_iff.2 ⟨⟨p, hp, hkey p hp⟩, ht⟩).2]
    exact b.separate.foldl_apply.1 key (b.mem_of_changeFor hchange rfl)

theorem agree_at_some (b : Merging N env wg users T diff) {t : PeerInfo}
    (ht : T.lookup key.string = some t) :
    wg.device.configure N false diff.peerConfigs key =
      ((wg.peerStore.applyChanges diff.removeKeys diff.upsertPeers).1.peers.lookup key.string).map
        (PeerInfo.held N) := by
  obtain ⟨q, hq, hview⟩ := b.merged.target _ t ht
  have hassigned := b.separate.foldl_apply.2 key
  rw [hq, Option.map_some, held_eq_of_view hview]
  cases he : (wg.touchedPeers env users).lookup key.string with
  | none =>
    have hchange : changeFor N (wg.touchedPeers env users) T key =
        some (.assign key (t.held N) false) := by
      rw [changeFor, he, ht]
    exact hassigned _ false (b.mem_of_changeFor hchange rfl)
  | some e =>
    by_cases hnets : e.networks N = t.networks N
    · have hnone : changeFor N (wg.touchedPeers env users) T key = none := by
        rw [changeFor, he, ht]
        exact if_pos hnets
      rw [b.configure_of_none hnone, b.mirrored.agrees key, (b.existing_iff.1 he).1,
        Option.map_some, Option.map_some, held_eq_of_networks hnets,
        Finset.filter_true_of_mem (b.not_given ht hnone)]
    · have hchange : changeFor N (wg.touchedPeers env users) T key =
          some (.assign key (t.held N) true) := by
        rw [changeFor, he, ht]
        exact if_neg hnets
      exact hassigned _ true (b.mem_of_changeFor hchange rfl)

theorem agree_at (b : Merging N env wg users T diff) (key : Key)
    (hkey : ∀ p, wg.peerStore.peers.lookup key.string = some p → Touched users p.email) :
    wg.device.configure N false diff.peerConfigs key =
      ((wg.peerStore.applyChanges diff.removeKeys diff.upsertPeers).1.peers.lookup key.string).map
        (PeerInfo.held N) := by
  cases ht : T.lookup key.string with
  | none => exact b.agree_at_none hkey ht
  | some t => exact b.agree_at_some ht

/-- **Under the key of a user that is not named** the store keeps the peer,
and the kernel what is not given to others. -/
theorem kept_at (b : Merging N env wg users T diff) {p : PeerInfo}
    (hp : wg.peerStore.peers.lookup key.string = some p) (huntouched : ¬ Touched users p.email) :
    (wg.peerStore.applyChanges diff.removeKeys diff.upsertPeers).1.peers.lookup key.string = some p ∧
      wg.device.configure N false diff.peerConfigs key =
        some ((p.held N).filter fun x =>
          ∀ c ∈ diff.peerConfigs.map (PeerConfig.change N), x ∉ c.given) := by
  have ht : T.lookup key.string = none := by
    refine Option.eq_none_iff_forall_ne_some.2 fun t ht => ?_
    exact huntouched (b.owned _ t p ht hp)
  have he : (wg.touchedPeers env users).lookup key.string = none := by
    refine Option.eq_none_iff_forall_ne_some.2 fun e he => ?_
    obtain ⟨hstored, htouched⟩ := b.existing_iff.1 he
    rw [hp] at hstored
    exact huntouched (Option.some.inj hstored ▸ htouched)
  refine ⟨(b.merged.other _ p ht).2 ⟨hp, huntouched⟩, ?_⟩
  rw [b.configure_of_none (by rw [changeFor, he, ht]), b.mirrored.agrees key, hp]
  rfl

/-- **A network that is asked for is given out**, or its user has had it. -/
theorem given_of_asks (b : Merging N env wg users T diff) {d : DesiredPeer}
    (hd : Asks N wg.config users d) {x : String} (hx : x ∈ d.peerInfo.networks N) :
    (∃ c ∈ diff.peerConfigs.map (PeerConfig.change N), x ∈ c.given) ∨
      ∃ k e, wg.peerStore.peers.lookup k = some e ∧ Touched users e.email ∧ x ∈ e.networks N := by
  have ht : T.lookup d.parsedKey.string = some d.peerInfo :=
    (b.placed.lookup_iff _ _).2 ⟨d, hd, rfl, rfl⟩
  have hheld : x ∈ d.peerInfo.held N := mem_held.2 hx
  cases he : (wg.touchedPeers env users).lookup d.parsedKey.string with
  | none =>
    refine Or.inl ⟨.assign d.parsedKey (d.peerInfo.held N) false, b.mem_changes.2 ?_, hheld⟩
    show changeFor N (wg.touchedPeers env users) T d.parsedKey = _
    rw [changeFor, he, ht]
  | some e =>
    by_cases hnets : e.networks N = d.peerInfo.networks N
    · obtain ⟨hstored, htouched⟩ := b.existing_iff.1 he
      exact Or.inr ⟨_, e, hstored, htouched, hnets ▸ hx⟩
    · refine Or.inl ⟨.assign d.parsedKey (d.peerInfo.held N) true, b.mem_changes.2 ?_, hheld⟩
      show changeFor N (wg.touchedPeers env users) T d.parsedKey = _
      rw [changeFor, he, ht]
      exact if_neg hnets

end Merging

/-- **After a merge the kernel agrees with the store exactly if the list
spares those it does not name.** -/
theorem Mirrored.agrees_merge_iff (h : Mirrored N wg) (hspelled : Spelled wg users)
    (hok : (wg.syncUsersPartialReconcile N env users).err = none) :
    (wg.syncUsersPartialReconcile N env users).wg.Agrees N ↔ Spares N wg users := by
  rcases wg.partial_cases N env users with
    hrefuses | ⟨D, T₀, diff, hD, hlookup, hT₀, howned, hdiff, hcommits⟩
  · exact absurd hok hrefuses.err
  obtain ⟨T, hT⟩ := hspelled.exists_placed hT₀
  have hexisting : ∀ k e, (wg.touchedPeers env users).lookup k = some e →
      wg.peerStore.peers.lookup k = some e :=
    fun k e he => ((WireGuard.lookup_touchedPeers_of_oneToOne h.oneToOne).1 he).1
  have howned' : ∀ k t p, T.lookup k = some t → wg.peerStore.peers.lookup k = some p →
      Touched users p.email := by
    intro k t p ht hp
    obtain ⟨d, hd, rfl, rfl⟩ := (hT.lookup_iff k t).1 ht
    rcases hspelled.asks hd with hcanon | ⟨hnew, -⟩
    · exact howned _ _ p ((hT₀.lookup_iff _ _).2 ⟨d, hd, rfl, rfl⟩) (hcanon ▸ hp)
    · rw [hnew] at hp
      cases hp
  have b : Merging N env wg users T diff :=
    ⟨h, hT, howned', (hspelled.rekeyed hT₀ hT hexisting).isDiff hT₀ hdiff⟩
  rw [hcommits.state]
  constructor
  · intro hagrees d hd k p hp huntouched x hx hx'
    have hkey : p.publicKey.string = k := wg.peerStore.keyed k p hp
    obtain ⟨hkept, hdevice⟩ := b.kept_at (hkey.symm ▸ hp) huntouched
    have hsame : some ((p.held N).filter fun x =>
        ∀ c ∈ diff.peerConfigs.map (PeerConfig.change N), x ∉ c.given) = some (p.held N) := by
      rw [← hdevice, ← Option.map_some (f := PeerInfo.held N), ← hkept]
      exact hagrees p.publicKey
    have hnot := Finset.filter_eq_self.1 (Option.some.inj hsame) x (mem_held.2 hx')
    rcases b.given_of_asks hd hx with ⟨c, hmem, hgiven⟩ | ⟨k', e, he, htouched, hxe⟩
    · exact hnot c hmem hgiven
    · refine h.exclusive k' k e p he hp (fun hemail => ?_) x hxe hx'
      exact huntouched (hemail ▸ htouched)
  · intro hspares key
    show wg.device.configure N false diff.peerConfigs key =
      ((wg.peerStore.applyChanges diff.removeKeys diff.upsertPeers).1.peers.lookup key.string).map _
    by_cases hkey : ∀ p, wg.peerStore.peers.lookup key.string = some p → Touched users p.email
    · exact b.agree_at key hkey
    · push Not at hkey
      obtain ⟨p, hp, huntouched⟩ := hkey
      obtain ⟨hkept, hdevice⟩ := b.kept_at hp huntouched
      rw [hkept, hdevice, Option.map_some, Finset.filter_true_of_mem]
      intro x hx c hmem hgiven
      rcases given_of_changeFor (b.mem_changes.1 hmem) with
        hempty | ⟨t, ht, hheld⟩
      · simp [hempty] at hgiven
      · obtain ⟨d, hd, -, rfl⟩ := (hT.lookup_iff _ t).1 ht
        rw [hheld] at hgiven
        exact hspares d hd _ p hp huntouched x (mem_held.1 hgiven) (mem_held.1 hx)

theorem Mirrored.merge (h : Mirrored N wg) (hspelled : Spelled wg users)
    (hspares : Spares N wg users) : Mirrored N (wg.syncUsersPartialReconcile N env users).wg := by
  have hexclusive := (h.sound.merge env hspares).exclusive
  rcases wg.partial_cases N env users with hrefuses | ⟨D, T, diff, -, -, -, -, -, hcommits⟩
  · rw [hrefuses.state]
    exact h
  · refine ⟨?_, hexclusive, (h.agrees_merge_iff hspelled hcommits.err).2 hspares⟩
    rw [hcommits.state]
    show (wg.peerStore.applyChanges diff.removeKeys diff.upsertPeers).1.OneToOne
    rw [PeerStore.applyChanges_eq]
    exact (h.oneToOne.foldl_removeOne diff.removeKeys []).foldl_upsertOne diff.upsertPeers

/-! ## Replacing everything -/

theorem oneToOne_targets {cfg : Config} {T : GoMap String PeerInfo} (hT : Targets N cfg users T)
    (hkeys : KeysApart N cfg users) {stored : List PeerInfo}
    (hstored : ∀ t, t ∈ stored ↔ ∃ k, T.lookup k = some t)
    (hemails : (stored.map PeerInfo.email).Nodup) : (PeerStore.new.init stored).OneToOne := by
  refine PeerStore.oneToOne_init ?_ hemails
  refine (List.Nodup.of_map _ hemails).map_on fun t ht t' ht' hkey => ?_
  obtain ⟨k, hk⟩ := (hstored t).1 ht
  obtain ⟨k', hk'⟩ := (hstored t').1 ht'
  obtain ⟨d, hd, -, rfl⟩ := (hT.lookup_iff k t).1 hk
  obtain ⟨d', hd', -, rfl⟩ := (hT.lookup_iff k' t').1 hk'
  exact (hT.unique hk hk' (hkeys d d' hd hd' (Key.string_injective hkey))).2

theorem mem_range_targets {T : GoMap String PeerInfo} (o : Order String) (t : PeerInfo) :
    t ∈ (GoMap.range o T).map Prod.snd ↔ ∃ k, T.lookup k = some t := by
  simp only [List.mem_map, Prod.exists, GoMap.mem_range, exists_eq_right]

theorem keysApart_of_unchanged {T : GoMap String PeerInfo} {diff : SyncDiff} {psk : Option Key}
    {o : DiffOrders} {E : GoMap String PeerInfo} (hT : Targets N wg.config users T)
    (hdiff : IsDiff N psk o E T diff) (hE : ∀ k, E.lookup k = wg.peerStore.peers.lookup k)
    (hsame : diff.changed = false) : KeysApart N wg.config users := by
  have hnone : diff.upsertPeers = [] := by
    by_contra hne
    have hchanged := hdiff.changed.2 (Or.inr hne)
    rw [hsame] at hchanged
    cases hchanged
  -- every target is under the key of a stored peer
  have hkey : ∀ k t, T.lookup k = some t → t.key = k := by
    intro k t ht
    obtain ⟨e, he, -⟩ := hdiff.same_of_not_upserted ht (by simp [hnone])
    rw [hE] at he
    have hparse := hT.parseKey ht
    rw [wg.peerStore.parseKey_of_lookup he] at hparse
    rw [PeerInfo.key, ← Option.some.inj hparse]
    exact wg.peerStore.keyed k e he
  intro d d' hd hd' hparsed
  have ht := (hT.lookup_iff _ _).2 ⟨d, hd, rfl, rfl⟩
  have ht' := (hT.lookup_iff _ _).2 ⟨d', hd', rfl, rfl⟩
  have hsame : d.publicKey = d'.publicKey := by
    rw [← hkey _ _ ht, ← hkey _ _ ht']
    exact congrArg Key.string hparsed
  rw [hsame, ht'] at ht
  exact (congrArg PeerInfo.email (Option.some.inj ht)).symm

/-- **After a full sync the kernel agrees with the store exactly if no two
users of the list ask for one key.** -/
theorem Mirrored.agrees_full_iff (h : Mirrored N wg)
    (hok : (wg.syncUsersFull N env users).err = none) :
    (wg.syncUsersFull N env users).wg.Agrees N ↔ KeysApart N wg.config users := by
  rcases wg.full_cases N env users with
    hrefuses | ⟨D, T, diff, hD, hlookup, hT, hdiff, ⟨hsame, hout⟩ | hcommits⟩
  · exact absurd hok hrefuses.err
  · rw [hout]
    exact iff_of_true h.agrees
      (keysApart_of_unchanged hT hdiff WireGuard.lookup_snapshot hsame)
  · rw [hcommits.state]
    exact hT.snapshot_agrees_iff (mem_range_targets _) (hT.emails_nodup _) wg.device

theorem Mirrored.full (h : Mirrored N wg) (hkeys : KeysApart N wg.config users) :
    Mirrored N (wg.syncUsersFull N env users).wg := by
  have hsound := h.sound.full env users
  rcases wg.full_cases N env users with
    hrefuses | ⟨D, T, diff, hD, hlookup, hT, hdiff, ⟨hsame, hout⟩ | hcommits⟩
  · rw [hrefuses.state]
    exact h
  · rw [hout]
    exact h
  · refine ⟨?_, hsound.exclusive, (h.agrees_full_iff hcommits.err).2 hkeys⟩
    rw [hcommits.state]
    exact oneToOne_targets hT hkeys (mem_range_targets _) (hT.emails_nodup _)

/-! ## Starting -/

theorem mem_new_upserts {T : GoMap String PeerInfo} {diff : SyncDiff} {psk : Option Key}
    {o : DiffOrders} {cfg : Config} (hT : Targets N cfg users T) (hdiff : IsDiff N psk o ∅ T diff) :
    filterUpsertsByAppliedKeys diff.upsertPeers (sortStrings T.keys) = diff.upsertPeers ∧
      ∀ t, t ∈ diff.upsertPeers ↔ ∃ k, T.lookup k = some t := by
  have hmem : ∀ t, t ∈ diff.upsertPeers ↔ ∃ k, T.lookup k = some t := by
    intro t
    rw [hdiff.mem_upsertPeers]
    simp
  refine ⟨if_pos ?_, hmem⟩
  rw [← length_targetList]
  refine (List.Perm.length_eq ?_)
  refine (List.perm_ext_iff_of_nodup hT.nodup_targetList
    (List.Nodup.of_map _ (hdiff.upserts_emails hT))).2 fun t => ?_
  rw [hmem, mem_targetList]

/-- **A new backend agrees with the kernel exactly if no two users of the
list ask for one key.** -/
theorem agrees_new_iff {config : Option Config}
    (h : WireGuard.new N env config users = .ok wg) :
    wg.Agrees N ↔ KeysApart N wg.config users := by
  obtain ⟨-, T, diff, hT, hdiff, hstore, hdevice⟩ := WireGuard.new_ok h
  obtain ⟨hfilter, hmem⟩ := mem_new_upserts hT hdiff
  rw [hfilter] at hstore
  rw [WireGuard.Agrees, hstore, hdevice]
  exact hT.snapshot_agrees_iff hmem (hdiff.upserts_emails hT) Device.fresh

theorem mirrored_new {config : Option Config} (h : WireGuard.new N env config users = .ok wg)
    (hkeys : KeysApart N wg.config users) : Mirrored N wg := by
  obtain ⟨-, T, diff, hT, hdiff, hstore, -⟩ := WireGuard.new_ok h
  obtain ⟨hfilter, hmem⟩ := mem_new_upserts hT hdiff
  refine ⟨?_, (sound_new h).exclusive, (agrees_new_iff h).2 hkeys⟩
  rw [hstore, hfilter]
  exact oneToOne_targets hT hkeys hmem (hdiff.upserts_emails hT)

/-! ## Restarting -/

theorem mem_restart_peers (o : Order String) (ps : PeerStore) (p : PeerInfo) :
    p ∈ (ps.getAll o).insertionSort (fun p q => p.key ≤ q.key) ↔
      ps.peers.lookup p.key = some p := by
  rw [(List.perm_insertionSort _ _).mem_iff, PeerStore.getAll, List.mem_map]
  constructor
  · rintro ⟨⟨k, q⟩, hq, rfl⟩
    have hstored := GoMap.mem_range.1 hq
    rw [ps.keyed k q hstored]
    exact hstored
  · exact fun hp => ⟨(p.key, p), GoMap.mem_range.2 hp, rfl⟩

theorem nodup_restart_peers (o : Order String) (ps : PeerStore) :
    (((ps.getAll o).insertionSort fun p q => p.key ≤ q.key).map PeerInfo.publicKey).Nodup := by
  rw [((List.perm_insertionSort _ _).map PeerInfo.publicKey).nodup_iff]
  refine List.Nodup.of_map Key.string ?_
  have hfst : ((ps.getAll o).map PeerInfo.publicKey).map Key.string =
      (GoMap.range o ps.peers).map Prod.fst := by
    rw [PeerStore.getAll, List.map_map, List.map_map]
    exact List.map_congr_left fun p hp => ps.keyed p.1 p.2 (GoMap.mem_range.1 hp)
  rw [hfst]
  exact GoMap.range_nodup o ps.peers

/-- **A restart leaves the kernel with the peers of the store.** -/
theorem Mirrored.restart (h : Mirrored N wg) : Mirrored N (wg.restartLocked N env).wg := by
  rcases wg.restartLocked_cases N env with hrefuses | ⟨configs, hconfigs, hout⟩
  · rw [hrefuses.state]
    exact h
  · rw [hout, buildPeerConfigsForRestart_ok hconfigs]
    have hmem := mem_restart_peers (env.order .all) wg.peerStore
    refine ⟨h.oneToOne, h.exclusive, ?_⟩
    refine addAll_agrees hmem (nodup_restart_peers _ _) (fun p hp q hq hne => ?_) wg.device
    have hp := (hmem p).1 hp
    have hq := (hmem q).1 hq
    exact h.exclusive _ _ p q hp hq fun hemail =>
      hne (h.oneToOne.indexed.peer_unique hp hq hemail)

/-! ## Along a run -/

/-- **The kernel and the store agree.** In every run in which no list that
replaces everything asks for one key under two spellings, and every list
that is merged spells the keys of the store canonically and spares the
users it does not name, they agree in every state reached. The conditions
are exact: from a state of such a run, a start, a full sync or a merge of
keys so spelled that goes through keeps them in agreement only if its list
meets them. -/
theorem kernel_agrees (N : GoNet.Lib) :
    (∀ wg, Runs.Path (WireGuard.step N)
        (Allowed (KeysApart N) fun b users => Spelled b users ∧ Spares N b users) none (some wg) →
      wg.Agrees N ∧ ∀ env users,
        ((wg.syncUsers N env users).err = none →
          ((wg.syncUsers N env users).wg.Agrees N ↔ KeysApart N wg.config users)) ∧
        (Spelled wg users → (wg.updateUsers N env users).err = none →
          ((wg.updateUsers N env users).wg.Agrees N ↔ Spares N wg users))) ∧
    ∀ env cfg users wg, WireGuard.new N env (some cfg) users = .ok wg →
      (wg.Agrees N ↔ KeysApart N cfg users) := by
  refine ⟨fun wg hrun => ?_, fun env cfg users wg hnew => ?_⟩
  · have h : Mirrored N wg := WireGuard.run_keeps
      (fun env wg users hkeys hnew => mirrored_new hnew hkeys)
      (fun env wg users h hkeys => h.full hkeys)
      (fun env wg users h hlist => h.merge hlist.1 hlist.2) (fun env wg h => h.restart) hrun
    exact ⟨h.agrees, fun env users =>
      ⟨fun hok => h.agrees_full_iff hok, fun hspelled hok => h.agrees_merge_iff hspelled hok⟩⟩
  · obtain ⟨hcfg, -⟩ := WireGuard.new_ok hnew
    rw [Option.some.inj hcfg]
    exact agrees_new_iff hnew

/-- The key of a user is spelled otherwise: it is added and then removed,
and the store has a peer that the kernel does not. And a user is given the
address of another that is not named: the kernel moves it, the store does
not. -/
theorem kernel_disagrees :
    (∃ wg, Runs.Path (WireGuard.step GoNet.std) (fun _ _ => True) none (some wg) ∧
      Demo.run [.new (some Demo.config) Demo.pair,
        .updateUsers [Demo.user "a" "AQEBAQEBAQEBAQEBAQEBAQEBAQEBAQEBAQEBAQEBAQF=" ["10.0.0.2/32"]]] =
          some wg ∧
      ¬ wg.Agrees GoNet.std) ∧
    ∃ wg, Runs.Path (WireGuard.step GoNet.std) (fun _ _ => True) none (some wg) ∧
      Demo.run [.new (some Demo.config) Demo.pair,
        .updateUsers [Demo.user "a" (Demo.key 1).string ["10.0.0.3/32"]]] = some wg ∧
      ¬ wg.Agrees GoNet.std := by
  constructor
  · have hstate : (Demo.run [.new (some Demo.config) Demo.pair,
        .updateUsers [Demo.user "a" "AQEBAQEBAQEBAQEBAQEBAQEBAQEBAQEBAQEBAQEBAQF="
          ["10.0.0.2/32"]]]).map (fun wg => (wg.device (Demo.key 1),
            (wg.peerStore.peers.lookup (Demo.key 1).string).isSome)) = some (none, true) := by
      decide +kernel
    obtain ⟨wg, hwg, hpeers⟩ := Option.map_eq_some_iff.1 hstate
    obtain ⟨hdevice, hstored⟩ := Prod.mk.inj hpeers
    refine ⟨wg, ?_, hwg, fun hagrees => ?_⟩
    · rw [← hwg]
      exact Demo.path_concat [_] _ (Demo.path_concat [] _ .refl trivial) trivial
    · have hnone := hagrees (Demo.key 1)
      rw [hdevice, eq_comm, Option.map_eq_none_iff] at hnone
      rw [hnone] at hstored
      cases hstored
  · have hstate : (Demo.run [.new (some Demo.config) Demo.pair,
        .updateUsers [Demo.user "a" (Demo.key 1).string ["10.0.0.3/32"]]]).map (fun wg =>
          (wg.device (Demo.key 2), (wg.peerStore.peers.lookup (Demo.key 2).string).map
            (PeerInfo.held GoNet.std))) = some (some ∅, some {"10.0.0.3/32"}) := by
      decide +kernel
    obtain ⟨wg, hwg, hpeers⟩ := Option.map_eq_some_iff.1 hstate
    obtain ⟨hdevice, hstored⟩ := Prod.mk.inj hpeers
    refine ⟨wg, ?_, hwg, fun hagrees => ?_⟩
    · rw [← hwg]
      exact Demo.path_concat [_] _ (Demo.path_concat [] _ .refl trivial) trivial
    · have hsame := hagrees (Demo.key 2)
      rw [hdevice, hstored] at hsame
      simp at hsame

namespace Demo

theorem keysApart_pair : KeysApart GoNet.std config pair := by
  have hok : (collectDesiredPeers GoNet.std config (normalizeUsers .given pair)).toOption.isSome =
      true := by decide +kernel
  cases hD : collectDesiredPeers GoNet.std config (normalizeUsers .given pair) with
  | error err =>
    rw [hD] at hok
    cases hok
  | ok D =>
    refine keysApart_of_canonical hD fun u hu key hkey => ?_
    rcases List.mem_cons.1 hu with hu | hu
    · exact canonical_user hu.symm hkey
    · exact canonical_user (List.mem_singleton.1 hu).symm hkey

theorem spelled_third (wg : WireGuard) : Spelled wg [some third] := by
  intro u hu key hkey
  exact Or.inl (canonical_user (List.mem_singleton.1 hu).symm hkey)

end Demo

/-- Two users from the start and a third merged in. -/
theorem kernel_agrees_third :
    ∃ wg, Demo.run [.new (some Demo.config) Demo.pair, .updateUsers [some Demo.third]] = some wg ∧
      wg.Agrees GoNet.std := by
  have hsome : (Demo.run [.new (some Demo.config) Demo.pair,
      .updateUsers [some Demo.third]]).isSome = true := by decide +kernel
  obtain ⟨wg, hwg⟩ := Option.isSome_iff_exists.1 hsome
  refine ⟨wg, hwg, ((kernel_agrees GoNet.std).1 wg ?_).1⟩
  rw [← hwg]
  refine Demo.path_concat [_] _ (Demo.path_concat [] _ .refl fun cfg hcfg => ?_) fun b hb => ?_
  · rw [← Option.some.inj hcfg]
    exact Demo.keysApart_pair
  · exact ⟨Demo.spelled_third b, Demo.spares_third hb⟩

end Wireguard

end NodeAgent
