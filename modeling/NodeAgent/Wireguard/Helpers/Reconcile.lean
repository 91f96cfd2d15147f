import NodeAgent.Wireguard.Helpers.Cases
/-!
# What a sync commits to the store

The existing peers and the targets a sync compares, told by what the store
holds and what the list asks for, and from them what the store holds
afterwards. The targets are kept under the keys as they were spelled;
where those are canonical a target is under the key it is stored under.
-/

namespace NodeAgent

namespace Wireguard

variable {N : GoNet.Lib} {cfg : Config} {users : List (Option User)} {k : String}

/-! ## Targets -/

theorem mem_of_lastByEmail {email : String} {u : User}
    (h : (lastByEmail users).lookup email = some u) : some u ∈ users := by
  revert email
  refine List.foldlRecOn (motive := fun m : GoMap String User =>
    ∀ {email}, m.lookup email = some u → some u ∈ users) users _ (fun h => by cases h) ?_
  intro m hm user huser email h
  cases user with
  | none => exact hm h
  | some v =>
    dsimp only at h
    split_ifs at h
    · exact hm h
    · rw [GoMap.lookup_insert_eq] at h
      split_ifs at h
      · rw [← Option.some.inj h]
        exact huser
      · exact hm h

/-- **Every key of the list that can be read is spelled the way
`Key.String` spells it.** -/
def Canonical (users : List (Option User)) : Prop :=
  ∀ u, some u ∈ users → ∀ key, parseKey u.getPublicKey = some key → u.getPublicKey = key.string

variable {d : DesiredPeer}

theorem Asks.exists_user (hd : Asks N cfg users d) :
    ∃ u, some u ∈ users ∧ u.getPublicKey = d.publicKey := by
  obtain ⟨u, hu, hof⟩ := hd
  exact ⟨u, mem_of_lastByEmail hu, (desiredOf_fields hof).2.1.symm⟩

theorem Canonical.asks (h : Canonical users) (hd : Asks N cfg users d) :
    d.publicKey = d.peerInfo.key := by
  obtain ⟨u, hu, hkey⟩ := hd.exists_user
  rw [← hkey]
  exact h u hu d.parsedKey (hkey ▸ hd.parseKey)

/-- **The targets of a list**: what it asks for, each under its name, no
name or network twice. -/
structure TargetsBy (name : DesiredPeer → String) (N : GoNet.Lib) (cfg : Config)
    (users : List (Option User)) (T : GoMap String PeerInfo) : Prop where
  lookup_iff : ∀ k t, T.lookup k = some t ↔
    ∃ d, Asks N cfg users d ∧ name d = k ∧ d.peerInfo = t
  apart : ∀ d d', Asks N cfg users d → Asks N cfg users d' → d.email ≠ d'.email →
    ∀ x ∈ d.peerInfo.networks N, x ∉ d'.peerInfo.networks N

/-- Under the keys as they are spelled, which is how a sync has them. -/
abbrev Targets :=
  TargetsBy DesiredPeer.publicKey

/-- Under the keys they are stored under. -/
abbrev Placed :=
  TargetsBy fun d => d.peerInfo.key

variable {T : GoMap String PeerInfo} {t t' : PeerInfo} {k' : String} {name : DesiredPeer → String}

namespace TargetsBy

theorem touched (h : TargetsBy name N cfg users T) (ht : T.lookup k = some t) :
    Touched users t.email := by
  obtain ⟨d, hd, -, rfl⟩ := (h.lookup_iff k t).1 ht
  exact hd.touched

theorem unique (h : TargetsBy name N cfg users T) (ht : T.lookup k = some t)
    (ht' : T.lookup k' = some t') (hemail : t.email = t'.email) : k = k' ∧ t = t' := by
  obtain ⟨d, hd, rfl, rfl⟩ := (h.lookup_iff k t).1 ht
  obtain ⟨d', hd', rfl, rfl⟩ := (h.lookup_iff k' t').1 ht'
  obtain rfl := hd.unique hd' hemail
  exact ⟨rfl, rfl⟩

theorem disjoint (h : TargetsBy name N cfg users T) (ht : T.lookup k = some t)
    (ht' : T.lookup k' = some t') (hne : t.email ≠ t'.email) :
    ∀ x ∈ t.networks N, x ∉ t'.networks N := by
  obtain ⟨d, hd, -, rfl⟩ := (h.lookup_iff k t).1 ht
  obtain ⟨d', hd', -, rfl⟩ := (h.lookup_iff k' t').1 ht'
  exact h.apart d d' hd hd' hne

end TargetsBy

theorem Targets.parseKey (h : Targets N cfg users T) (ht : T.lookup k = some t) :
    Wireguard.parseKey k = some t.publicKey := by
  obtain ⟨d, hd, rfl, rfl⟩ := (h.lookup_iff k t).1 ht
  exact hd.parseKey

theorem Placed.key (h : Placed N cfg users T) (ht : T.lookup k = some t) : t.key = k := by
  obtain ⟨d, hd, rfl, rfl⟩ := (h.lookup_iff k t).1 ht
  rfl

theorem Targets.placed (h : Targets N cfg users T) (hc : Canonical users) :
    Placed N cfg users T := by
  refine ⟨fun k t => ?_, h.apart⟩
  rw [h.lookup_iff]
  refine exists_congr fun d => and_congr_right fun hd => ?_
  rw [hc.asks hd]

/-- **The targets and the difference of a sync** whose desired peers could
be collected. -/
theorem exists_targets {o : Order String} {D : GoMap String DesiredPeer}
    (h : collectDesiredPeers N cfg (normalizeUsers o users) = .ok D) (psk : Option Key)
    (orders : DiffOrders) (E : GoMap String PeerInfo) :
    ∃ T, Targets N cfg users T ∧ (∀ k, T.lookup k = (D.lookup k).map DesiredPeer.peerInfo) ∧
      (buildSyncDiff N psk orders E D).targetPeers = T ∧
      IsDiff N psk orders E T (buildSyncDiff N psk orders E D) := by
  obtain ⟨hD, hapart⟩ := collectDesiredPeers_ok h
  obtain ⟨T, hT, htargets, hdiff⟩ := isDiff_buildSyncDiff N psk orders E
    fun k d hd => ((hD k d).1 hd).1.nets_ne_nil
  refine ⟨T, ⟨fun k t => ?_, fun d d' hd hd' hne x hx hx' => ?_⟩, hT, htargets, hdiff⟩
  · rw [hT, Option.map_eq_some_iff]
    simp only [hD, and_assoc]
  · obtain ⟨n, hn, rfl⟩ := List.mem_map.1 hx
    obtain ⟨n', hn', heq⟩ := List.mem_map.1 hx'
    exact (hapart d d' hd hd' hne).2 n hn n' hn' heq.symm

/-! ## Existing peers -/

namespace WireGuard

variable {env : Env} {wg : WireGuard} {p : PeerInfo}

theorem lookup_touchedPeers :
    (wg.touchedPeers env users).lookup k = some p ↔
      p.key = k ∧ ∃ email, Touched users email ∧ wg.peerStore.getByEmail email = some p := by
  have hmem : ∀ q : String × PeerInfo,
      q ∈ (((env.order .touched).run
        ((normalizeUsers (env.order .lastByEmail) users).map User.email)).filterMap
          wg.peerStore.getByEmail).map (fun p => (p.key, p)) ↔
        q.2.key = q.1 ∧ ∃ email, Touched users email ∧
          wg.peerStore.getByEmail email = some q.2 := by
    rintro ⟨k, p⟩
    simp only [List.mem_map, List.mem_filterMap, Order.mem_run, Prod.mk.injEq]
    constructor
    · rintro ⟨q, ⟨email, hemail, hq⟩, rfl, rfl⟩
      exact ⟨rfl, email, mem_touched.1 (List.mem_map.2 hemail), hq⟩
    · rintro ⟨rfl, email, hemail, hp⟩
      exact ⟨p, ⟨email, List.mem_map.1 (mem_touched.2 hemail), hp⟩, rfl, rfl⟩
  -- emails that lead to one key lead to one peer
  have hstored : ∀ email q, wg.peerStore.getByEmail email = some q →
      wg.peerStore.peers.lookup q.key = some q := by
    intro email q hq
    obtain ⟨k, -, hk⟩ := Option.bind_eq_some_iff.1 hq
    rw [wg.peerStore.keyed k q hk]
    exact hk
  constructor
  · intro h
    rcases GoMap.mem_of_lookup_insertAll h with h | h
    · exact (hmem (k, p)).1 h
    · cases h
  · rintro ⟨hk, email, hemail, hp⟩
    have hin := (hmem (k, p)).2 ⟨hk, email, hemail, hp⟩
    obtain ⟨q, hq⟩ := GoMap.mem_keys_iff.1
      (GoMap.mem_keys_insertAll.2 (Or.inl (List.mem_map_of_mem hin)) :
        k ∈ (wg.touchedPeers env users).keys)
    rcases GoMap.mem_of_lookup_insertAll hq with hqin | hqin
    · obtain ⟨hqk, email', -, hq'⟩ := (hmem (k, q)).1 hqin
      have hqs := hstored email' q hq'
      rw [hqk, ← hk, hstored email p hp] at hqs
      rw [Option.some.inj hqs]
      exact hq
    · cases hqin

theorem lookup_touchedPeers_of_indexed (h : wg.peerStore.Indexed)
    (hp : wg.peerStore.peers.lookup k = some p) (ht : Touched users p.email) :
    (wg.touchedPeers env users).lookup k = some p :=
  lookup_touchedPeers.2 ⟨wg.peerStore.keyed k p hp, p.email, ht, h.getByEmail hp⟩

theorem lookup_touchedPeers_of_oneToOne (h : wg.peerStore.OneToOne) :
    (wg.touchedPeers env users).lookup k = some p ↔
      wg.peerStore.peers.lookup k = some p ∧ Touched users p.email := by
  constructor
  · intro hp
    obtain ⟨rfl, email, hemail, hget⟩ := lookup_touchedPeers.1 hp
    obtain ⟨hstored, rfl⟩ := h.getByEmail_iff.1 hget
    exact ⟨hstored, hemail⟩
  · exact fun hp => lookup_touchedPeers_of_indexed h.indexed hp.1 hp.2

theorem lookup_snapshot (k : String) :
    (wg.buildExistingPeersByKeySnapshot env).lookup k = wg.peerStore.peers.lookup k := by
  have hkeyed : (wg.peerStore.getAll (env.order .all)).map (fun p => (p.key, p)) =
      (GoMap.range (env.order .all) wg.peerStore.peers).map fun p => (p.1, id p.2) := by
    rw [PeerStore.getAll, List.map_map]
    refine List.map_congr_left fun q hq => ?_
    simp [wg.peerStore.keyed q.1 q.2 (GoMap.mem_range.1 hq)]
  rw [buildExistingPeersByKeySnapshot, hkeyed, GoMap.lookup_insertAll_range, Option.map_id_apply]

/-- **No key a list asks for belongs to a user it does not name.** -/
theorem touched_of_checkOwners {D : GoMap String DesiredPeer}
    (h : wg.checkOwners env ((normalizeUsers (env.order .lastByEmail) users).map User.email) D =
      none) (hd : D.lookup k = some d) (htouched : Touched users d.email)
    (hp : wg.peerStore.peers.lookup k = some p) : Touched users p.email := by
  have hone := List.findSome?_eq_none_iff.1 h (k, d) (GoMap.mem_range.2 hd)
  simp only [PeerStore.getEmailMap, hp, Option.map_some, ite_eq_left_iff, reduceCtorEq, imp_false,
    not_not, List.contains_iff_mem, mem_touched] at hone
  rcases hone with hemail | htouch
  · rw [hemail]
    exact htouched
  · exact htouch

end WireGuard

/-! ## The store afterwards -/

/-- A peer up to the bytes of its networks: its email, its key and the
networks as they read. -/
def PeerInfo.view (N : GoNet.Lib) (p : PeerInfo) : String × Key × List String :=
  (p.email, p.publicKey, p.networks N)

theorem view_eq_of_not_differs {e t : PeerInfo} (hkey : e.key = t.key) (h : ¬ e.Differs N t) :
    e.view N = t.view N := by
  unfold PeerInfo.Differs at h
  rw [not_or, not_not, not_not] at h
  simp only [PeerInfo.view, h.1, h.2, Key.string_injective hkey]

variable {ps : PeerStore} {E : GoMap String PeerInfo} {psk : Option Key} {o : DiffOrders}
  {diff : SyncDiff}

theorem IsDiff.upserts_emails (h : IsDiff N psk o E T diff) (hT : TargetsBy name N cfg users T) :
    (diff.upsertPeers.map PeerInfo.email).Nodup := by
  obtain ⟨ks, hks, hups⟩ := h.upsertPeers_keys
  rw [hups, List.map_filterMap]
  refine hks.filterMap fun k k' email hk hk' => ?_
  obtain ⟨t, ht, rfl⟩ := Option.map_eq_some_iff.1 hk
  obtain ⟨t', ht', hemail⟩ := Option.map_eq_some_iff.1 hk'
  exact (hT.unique ht ht' hemail.symm).1

theorem IsDiff.upserts_keys (h : IsDiff N psk o E T diff) (hT : Placed N cfg users T) :
    (diff.upsertPeers.map PeerInfo.key).Nodup := by
  obtain ⟨ks, hks, hups⟩ := h.upsertPeers_keys
  rw [hups, List.map_filterMap]
  refine hks.filterMap fun k k' key hk hk' => ?_
  obtain ⟨t, ht, rfl⟩ := Option.map_eq_some_iff.1 hk
  obtain ⟨t', ht', hkey⟩ := Option.map_eq_some_iff.1 hk'
  rw [← hT.key ht, ← hT.key ht', hkey]

theorem IsDiff.same_of_not_upserted (h : IsDiff N psk o E T diff) (ht : T.lookup k = some t)
    (hup : t ∉ diff.upsertPeers) : ∃ e, E.lookup k = some e ∧ ¬ e.Differs N t := by
  by_contra hno
  refine hup ((h.mem_upsertPeers t).2 ⟨k, ht, fun e he => ?_⟩)
  by_contra hsame
  exact hno ⟨e, he, hsame⟩

/-- **A store `ps'` is `ps` with targets merged into it**: the targets are
in, and under the other keys the peers of users that were not touched. -/
structure Merged (N : GoNet.Lib) (users : List (Option User)) (T : GoMap String PeerInfo)
    (ps ps' : PeerStore) : Prop where
  oneToOne : ps'.OneToOne
  target : ∀ k t, T.lookup k = some t → ∃ q, ps'.peers.lookup k = some q ∧ q.view N = t.view N
  other : ∀ k p, T.lookup k = none →
    (ps'.peers.lookup k = some p ↔ ps.peers.lookup k = some p ∧ ¬ Touched users p.email)

theorem IsDiff.key_notMem_upserts (h : IsDiff N psk o E T diff) (hT : Placed N cfg users T)
    (hup : ∀ t, T.lookup k = some t → t ∉ diff.upsertPeers) :
    k ∉ diff.upsertPeers.map PeerInfo.key := by
  intro hmem
  obtain ⟨t', ht', rfl⟩ := List.mem_map.1 hmem
  obtain ⟨k', hk', -⟩ := (h.mem_upsertPeers t').1 ht'
  exact hup t' (hT.key hk' ▸ hk') ht'

theorem IsDiff.email_notMem_upserts (h : IsDiff N psk o E T diff) {email : String}
    (hup : ∀ k t, T.lookup k = some t → t.email = email → t ∉ diff.upsertPeers) :
    email ∉ diff.upsertPeers.map PeerInfo.email := by
  intro hmem
  obtain ⟨t', ht', rfl⟩ := List.mem_map.1 hmem
  obtain ⟨k', hk', -⟩ := (h.mem_upsertPeers t').1 ht'
  exact hup k' t' hk' rfl ht'

section Merge

variable (hone : ps.OneToOne)
  (hE : ∀ k p, E.lookup k = some p ↔ ps.peers.lookup k = some p ∧ Touched users p.email)
  (hT : Placed N cfg users T) (hdiff : IsDiff N psk o E T diff)

include hone hT hdiff

theorem lookup_applyChanges_of_notMem (hkey : k ∉ diff.upsertPeers.map PeerInfo.key) :
    (ps.applyChanges diff.removeKeys diff.upsertPeers).1.peers.lookup k =
      (if k ∈ diff.removeKeys then none else ps.peers.lookup k).filter fun p =>
        p.email ∉ diff.upsertPeers.map PeerInfo.email := by
  have hone₁ := hone.foldl_removeOne diff.removeKeys []
  obtain ⟨-, hout⟩ := hone₁.lookup_foldl_upsertOne (hdiff.upserts_keys hT)
    (hdiff.upserts_emails hT)
  rw [PeerStore.applyChanges_eq, hout k hkey, PeerStore.lookup_foldl_removeOne]

include hE

theorem lookup_applyChanges_target (ht : T.lookup k = some t) :
    ∃ q, (ps.applyChanges diff.removeKeys diff.upsertPeers).1.peers.lookup k = some q ∧
      q.view N = t.view N := by
  by_cases hup : t ∈ diff.upsertPeers
  · have hone₁ := hone.foldl_removeOne diff.removeKeys []
    obtain ⟨hin, -⟩ := hone₁.lookup_foldl_upsertOne (hdiff.upserts_keys hT)
      (hdiff.upserts_emails hT)
    refine ⟨t, ?_, rfl⟩
    rw [← hT.key ht, PeerStore.applyChanges_eq]
    exact hin t hup
  · -- it was there, and nobody has taken its key or its email
    obtain ⟨e, he, hsame⟩ := hdiff.same_of_not_upserted ht hup
    obtain ⟨hstored, -⟩ := (hE k e).1 he
    have hemail : t.email = e.email := (not_not.1 (not_or.1 hsame).1).symm
    have hnotkey : k ∉ diff.upsertPeers.map PeerInfo.key := by
      refine hdiff.key_notMem_upserts hT fun t' ht' => ?_
      rw [ht] at ht'
      exact Option.some.inj ht' ▸ hup
    have hnotemail : e.email ∉ diff.upsertPeers.map PeerInfo.email := by
      refine hdiff.email_notMem_upserts fun k' t' ht' he' => ?_
      exact (hT.unique ht ht' (hemail.trans he'.symm)).2 ▸ hup
    have hkept : k ∉ diff.removeKeys := by
      intro hmem
      have hnone := ((hdiff.mem_removeKeys k).1 hmem).2.1
      rw [ht] at hnone
      cases hnone
    refine ⟨e, ?_, view_eq_of_not_differs ?_ hsame⟩
    · rw [lookup_applyChanges_of_notMem hone hT hdiff hnotkey, if_neg hkept, hstored,
        Option.filter_some, if_pos (decide_eq_true hnotemail)]
    · rw [ps.keyed k e hstored, hT.key ht]

theorem lookup_applyChanges_other {p : PeerInfo} (hnone : T.lookup k = none) :
    (ps.applyChanges diff.removeKeys diff.upsertPeers).1.peers.lookup k = some p ↔
      ps.peers.lookup k = some p ∧ ¬ Touched users p.email := by
  have hnotkey : k ∉ diff.upsertPeers.map PeerInfo.key := by
    refine hdiff.key_notMem_upserts hT fun t ht => ?_
    rw [hnone] at ht
    cases ht
  rw [lookup_applyChanges_of_notMem hone hT hdiff hnotkey, Option.filter_eq_some_iff]
  constructor
  · rintro ⟨hp, -⟩
    split_ifs at hp with hremoved
    refine ⟨hp, fun htouched => hremoved ?_⟩
    refine (hdiff.mem_removeKeys k).2 ⟨⟨p, (hE k p).2 ⟨hp, htouched⟩⟩, hnone, ?_⟩
    rw [ps.parseKey_of_lookup hp]
    simp
  · rintro ⟨hp, huntouched⟩
    have hkept : k ∉ diff.removeKeys := by
      intro hmem
      obtain ⟨⟨e, he⟩, -⟩ := (hdiff.mem_removeKeys k).1 hmem
      obtain ⟨hstored, htouched⟩ := (hE k e).1 he
      rw [hp] at hstored
      exact huntouched (Option.some.inj hstored ▸ htouched)
    have hnotemail : p.email ∉ diff.upsertPeers.map PeerInfo.email :=
      hdiff.email_notMem_upserts fun k' t' ht' he' _ => huntouched (he' ▸ hT.touched ht')
    exact ⟨by rw [if_neg hkept, hp], decide_eq_true hnotemail⟩

/-- **The store after a partial sync.** Existing were the stored peers of
the touched users. -/
theorem merged_applyChanges :
    Merged N users T ps (ps.applyChanges diff.removeKeys diff.upsertPeers).1 where
  oneToOne := by
    rw [PeerStore.applyChanges_eq]
    exact (hone.foldl_removeOne diff.removeKeys []).foldl_upsertOne diff.upsertPeers
  target := fun _ _ ht => lookup_applyChanges_target hone hE hT hdiff ht
  other := fun _ _ hnone => lookup_applyChanges_other hone hE hT hdiff hnone

end Merge

namespace Merged

variable {ps' : PeerStore} {q : PeerInfo} {email : String}

theorem cases (h : Merged N users T ps ps') (hq : ps'.peers.lookup k = some q) :
    (∃ t, T.lookup k = some t ∧ q.view N = t.view N) ∨
      ps.peers.lookup k = some q ∧ ¬ Touched users q.email := by
  cases ht : T.lookup k with
  | none => exact Or.inr ((h.other k q ht).1 hq)
  | some t =>
    obtain ⟨q', hq', hview⟩ := h.target k t ht
    obtain rfl : q' = q := Option.some.inj (hq'.symm.trans hq)
    exact Or.inl ⟨t, rfl, hview⟩

theorem email_eq_of_view {p p' : PeerInfo} (h : p.view N = p'.view N) : p.email = p'.email :=
  congrArg Prod.fst h

theorem getByEmail_target (h : Merged N users T ps ps') (ht : T.lookup k = some t) :
    (ps'.getByEmail t.email).map (PeerInfo.view N) = some (t.view N) := by
  obtain ⟨q, hq, hview⟩ := h.target k t ht
  rw [← email_eq_of_view hview, h.oneToOne.indexed.getByEmail hq, Option.map_some, hview]

theorem getByEmail_dropped (h : Merged N users T ps ps') (htouched : Touched users email)
    (hno : ∀ k t, T.lookup k = some t → t.email ≠ email) : ps'.getByEmail email = none := by
  refine Option.eq_none_iff_forall_ne_some.2 fun q hq => ?_
  obtain ⟨hstored, hemail⟩ := h.oneToOne.getByEmail_iff.1 hq
  rcases h.cases hstored with ⟨t, ht, hview⟩ | ⟨-, huntouched⟩
  · exact hno _ t ht ((email_eq_of_view hview).symm.trans hemail)
  · exact huntouched (hemail ▸ htouched)

theorem getByEmail_kept (h : Merged N users T ps ps') (hone : ps.OneToOne)
    (hT : TargetsBy name N cfg users T)
    (howned : ∀ k t p, T.lookup k = some t → ps.peers.lookup k = some p → Touched users p.email)
    (huntouched : ¬ Touched users email) : ps'.getByEmail email = ps.getByEmail email := by
  refine Option.ext fun q => ?_
  rw [h.oneToOne.getByEmail_iff, hone.getByEmail_iff]
  refine and_congr_left fun hemail => ?_
  subst hemail
  constructor
  · intro hq
    rcases h.cases hq with ⟨t, ht, hview⟩ | ⟨hold, -⟩
    · rw [email_eq_of_view hview] at huntouched
      exact absurd (hT.touched ht) huntouched
    · exact hold
  · intro hold
    have hnone : T.lookup q.key = none := by
      refine Option.eq_none_iff_forall_ne_some.2 fun t ht => ?_
      exact huntouched (howned _ t q ht hold)
    exact (h.other _ q hnone).2 ⟨hold, huntouched⟩

/-- **The keys that have left the store** are those of touched peers that
are no targets. -/
theorem left_iff (h : Merged N users T ps ps') :
    (ps.peers.lookup k ≠ none ∧ ps'.peers.lookup k = none) ↔
      (∃ p, ps.peers.lookup k = some p ∧ Touched users p.email) ∧ T.lookup k = none := by
  constructor
  · rintro ⟨hold, hnew⟩
    obtain ⟨p, hp⟩ := Option.ne_none_iff_exists'.1 hold
    have hnone : T.lookup k = none := by
      refine Option.eq_none_iff_forall_ne_some.2 fun t ht => ?_
      obtain ⟨q, hq, -⟩ := h.target k t ht
      rw [hnew] at hq
      cases hq
    refine ⟨⟨p, hp, ?_⟩, hnone⟩
    by_contra huntouched
    rw [(h.other k p hnone).2 ⟨hp, huntouched⟩] at hnew
    cases hnew
  · rintro ⟨⟨p, hp, htouched⟩, hnone⟩
    refine ⟨by simp [hp], Option.eq_none_iff_forall_ne_some.2 fun q hq => ?_⟩
    obtain ⟨hq', huntouched⟩ := (h.other k q hnone).1 hq
    rw [hp] at hq'
    exact huntouched (Option.some.inj hq' ▸ htouched)

end Merged

/-! ## The store after a full sync -/

theorem TargetsBy.emails_nodup (h : TargetsBy name N cfg users T) (o : Order String) :
    (((GoMap.range o T).map Prod.snd).map PeerInfo.email).Nodup := by
  rw [List.map_map]
  refine (List.Nodup.of_map _ (GoMap.range_nodup o T)).map_on fun p hp q hq hemail => ?_
  obtain ⟨hk, ht⟩ := h.unique (GoMap.mem_range.1 hp) (GoMap.mem_range.1 hq) hemail
  exact Prod.ext hk ht

theorem Placed.keys_nodup (h : Placed N cfg users T) (o : Order String) :
    (((GoMap.range o T).map Prod.snd).map PeerInfo.key).Nodup := by
  have hkeys : ((GoMap.range o T).map Prod.snd).map PeerInfo.key =
      (GoMap.range o T).map Prod.fst := by
    rw [List.map_map]
    exact List.map_congr_left fun p hp => h.key (GoMap.mem_range.1 hp)
  rw [hkeys]
  exact GoMap.range_nodup o T

theorem TargetsBy.routed (h : TargetsBy name N cfg users T) : Routed T := by
  intro k t ht
  obtain ⟨d, hd, -, rfl⟩ := (h.lookup_iff k t).1 ht
  exact hd.nets_ne_nil

theorem init_targets (hT : Placed N cfg users T) (o : Order String) :
    (PeerStore.new.init ((GoMap.range o T).map Prod.snd)).OneToOne ∧
      ∀ k, (PeerStore.new.init ((GoMap.range o T).map Prod.snd)).peers.lookup k = T.lookup k := by
  have hkeys := hT.keys_nodup o
  refine ⟨PeerStore.oneToOne_init hkeys (hT.emails_nodup o), fun k => ?_⟩
  cases ht : T.lookup k with
  | none =>
    refine PeerStore.lookup_init_of_notMem _ _ fun hmem => ?_
    simp only [List.mem_map, GoMap.mem_range] at hmem
    obtain ⟨t, ⟨p, hp, rfl⟩, rfl⟩ := hmem
    rw [hT.key hp, hp] at ht
    cases ht
  | some t =>
    have hmem : t ∈ (GoMap.range o T).map Prod.snd :=
      List.mem_map.2 ⟨(k, t), GoMap.mem_range.2 ht, rfl⟩
    have hin := PeerStore.lookup_init hkeys hmem
    rwa [hT.key ht] at hin

theorem WireGuard.validTargets_eq (env : Env) (wg : WireGuard) (hT : Routed T) :
    wg.validTargets env T = (GoMap.range (env.order .valid) T).map Prod.snd := by
  rw [WireGuard.validTargets, buildTargetPeerConfigs_eq hT, List.filter_eq_self.2]
  intro p hp
  rw [List.contains_iff_mem, mem_sortStrings]
  exact GoMap.mem_keys_iff.2 ⟨p.2, GoMap.mem_range.1 hp⟩

/-- **Where nothing is to change the store reads as the targets do.** -/
theorem IsDiff.view_of_unchanged (h : IsDiff N psk o E T diff) (hT : Placed N cfg users T)
    (hE : ∀ k, E.lookup k = ps.peers.lookup k) (hsame : diff.changed = false)
    (k : String) : (ps.peers.lookup k).map (PeerInfo.view N) = (T.lookup k).map (PeerInfo.view N) := by
  have hno : ¬ (diff.removeKeys ≠ [] ∨ diff.upsertPeers ≠ []) := by
    rw [← h.changed, hsame]
    simp
  rw [not_or, not_not, not_not] at hno
  cases ht : T.lookup k with
  | none =>
    cases hp : ps.peers.lookup k with
    | none => rfl
    | some p =>
      have hmem : k ∈ diff.removeKeys := by
        refine (h.mem_removeKeys k).2 ⟨⟨p, (hE k).trans hp⟩, ht, ?_⟩
        rw [ps.parseKey_of_lookup hp]
        simp
      rw [hno.1] at hmem
      simp at hmem
  | some t =>
    obtain ⟨e, he, hsame⟩ := h.same_of_not_upserted ht (by simp [hno.2])
    rw [hE] at he
    rw [he, Option.map_some, Option.map_some,
      view_eq_of_not_differs (by rw [ps.keyed k e he, hT.key ht]) hsame]

/-! ## The two syncs -/

namespace WireGuard

variable (N : GoNet.Lib) (env : Env) (wg : WireGuard) (users : List (Option User))

/-- **A partial sync by its targets**: it is refused, or commits the
difference between the targets and the stored peers of the touched
users. -/
theorem partial_cases :
    (wg.syncUsersPartialReconcile N env users).Refuses wg ∨
      ∃ D T diff,
        collectDesiredPeers N wg.config (normalizeUsers (env.order .lastByEmail) users) = .ok D ∧
        (∀ k, T.lookup k = (D.lookup k).map DesiredPeer.peerInfo) ∧
        Targets N wg.config users T ∧
        (∀ k t p, T.lookup k = some t → wg.peerStore.peers.lookup k = some p →
          Touched users p.email) ∧
        IsDiff N wg.config.getPreSharedKey env.diffOrders (wg.touchedPeers env users) T diff ∧
        (wg.syncUsersPartialReconcile N env users).Commits wg
          (wg.peerStore.applyChanges diff.removeKeys diff.upsertPeers)
          (wg.device.configure N false diff.peerConfigs) := by
  rcases wg.syncUsersPartialReconcile_cases N env users with hrefuses | ⟨D, hD, howned, hcommits⟩
  · exact Or.inl hrefuses
  · obtain ⟨T, hT, hlookup, -, hdiff⟩ := exists_targets hD wg.config.getPreSharedKey
      env.diffOrders (wg.touchedPeers env users)
    refine Or.inr ⟨D, T, _, hD, hlookup, hT, fun k t p ht hp => ?_, hdiff, hcommits⟩
    have htouched := hT.touched ht
    rw [hlookup] at ht
    obtain ⟨d, hd, rfl⟩ := Option.map_eq_some_iff.1 ht
    exact touched_of_checkOwners howned hd htouched hp

/-- **A full sync by its targets**: it is refused, finds nothing to change,
or commits the targets. -/
theorem full_cases :
    (wg.syncUsersFull N env users).Refuses wg ∨
      ∃ D T diff,
        collectDesiredPeers N wg.config (normalizeUsers (env.order .lastByEmail) users) = .ok D ∧
        (∀ k, T.lookup k = (D.lookup k).map DesiredPeer.peerInfo) ∧
        Targets N wg.config users T ∧
        IsDiff N wg.config.getPreSharedKey env.diffOrders
          (wg.buildExistingPeersByKeySnapshot env) T diff ∧
        (diff.changed = false ∧ wg.syncUsersFull N env users = ⟨wg, none, []⟩ ∨
          (wg.syncUsersFull N env users).Commits wg
            (wg.peerStore.replaceAll (env.order .old)
              ((GoMap.range (env.order .valid) T).map Prod.snd))
            (wg.device.configure N true
              (buildTargetPeerConfigs wg.config.getPreSharedKey T).1)) := by
  rcases wg.syncUsersFull_cases N env users with hrefuses | ⟨D, hD, hcases⟩
  · exact Or.inl hrefuses
  · obtain ⟨T, hT, hlookup, htargets, hdiff⟩ := exists_targets hD wg.config.getPreSharedKey
      env.diffOrders (wg.buildExistingPeersByKeySnapshot env)
    refine Or.inr ⟨D, T, _, hD, hlookup, hT, hdiff, ?_⟩
    rcases hcases with hsame | ⟨-, hcommits⟩
    · exact Or.inl hsame
    · rw [diffFor, htargets, wg.validTargets_eq env hT.routed] at hcommits
      exact Or.inr hcommits

end WireGuard

end Wireguard

end NodeAgent
