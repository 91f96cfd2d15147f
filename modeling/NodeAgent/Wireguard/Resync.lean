import NodeAgent.Wireguard.Ordering
/-!
# Sending the same list again

After a sync that went through, the same list finds nothing to do: no call
to the kernel, and store, tracker and device stay as they are. Users of
different emails may have changed places in between.
-/

namespace NodeAgent

namespace Wireguard

variable {N : GoNet.Lib} {cfg : Config} {users users' : List (Option User)}

/-! ## The same list -/

/-- The user has an email. -/
def ofEmail (email : String) (user : Option User) : Bool :=
  user.map User.email = some email

/-- **The same list, with users of different emails in another order**: for
every email the same users, one after the other. -/
def Reordered (users users' : List (Option User)) : Prop :=
  ∀ email, users.filter (ofEmail email) = users'.filter (ofEmail email)

theorem lastByEmail_append_none (users : List (Option User)) :
    lastByEmail (users ++ [none]) = lastByEmail users := by
  rw [lastByEmail, List.foldl_append]
  rfl

theorem lastByEmail_append_some (users : List (Option User)) (u : User) :
    lastByEmail (users ++ [some u]) =
      if u.skipped then lastByEmail users else (lastByEmail users).insert u.email u := by
  rw [lastByEmail, List.foldl_append]
  rfl

theorem lookup_lastByEmail_filter (users : List (Option User)) (email : String) :
    (lastByEmail users).lookup email =
      (lastByEmail (users.filter (ofEmail email))).lookup email := by
  induction users using List.reverseRecOn with
  | nil => rfl
  | append_singleton users user ih =>
    rw [List.filter_append]
    cases user with
    | none =>
      have hnone : [(none : Option User)].filter (ofEmail email) = [] := rfl
      rw [hnone, List.append_nil, lastByEmail_append_none]
      exact ih
    | some u =>
      rw [lastByEmail_append_some]
      by_cases hemail : u.email = email
      · have hsome : [some u].filter (ofEmail email) = [some u] := by
          simp [ofEmail, hemail]
        rw [hsome, lastByEmail_append_some]
        split_ifs
        · exact ih
        · rw [GoMap.lookup_insert_eq, GoMap.lookup_insert_eq, ih]
      · have hnone : [some u].filter (ofEmail email) = [] := by
          simp [ofEmail, hemail]
        rw [hnone, List.append_nil]
        split_ifs
        · exact ih
        · rw [GoMap.lookup_insert_eq, if_neg (Ne.symm hemail)]
          exact ih

namespace Reordered

theorem lookup (h : Reordered users users') (email : String) :
    (lastByEmail users).lookup email = (lastByEmail users').lookup email := by
  rw [lookup_lastByEmail_filter, h email, ← lookup_lastByEmail_filter]

theorem of_perm (h : users.Perm users')
    (hemails : users.Pairwise fun u v => u = none ∨ u.map User.email ≠ v.map User.email) :
    Reordered users users' := by
  intro email
  have hfilter := h.filter (ofEmail email)
  have hpairs := hemails.filter (ofEmail email)
  have hall : ∀ u ∈ users.filter (ofEmail email), u.map User.email = some email :=
    fun u hu => of_decide_eq_true (List.mem_filter.1 hu).2
  -- at most one of them has the email
  match hl : users.filter (ofEmail email) with
  | [] =>
    rw [hl] at hfilter
    exact hfilter.nil_eq
  | [u] =>
    rw [hl] at hfilter
    exact List.singleton_perm.1 hfilter
  | u :: v :: rest =>
    rw [hl] at hpairs hall
    have hu := hall u (by simp)
    have hv := hall v (by simp)
    rcases (List.pairwise_cons.1 hpairs).1 v (by simp) with rfl | hne
    · cases hu
    · exact absurd (hu.trans hv.symm) hne

theorem touched_iff (h : Reordered users users') (email : String) :
    Touched users email ↔ Touched users' email := by
  rw [Touched, Touched, h.lookup]

end Reordered

/-! ## Nothing to do -/

/-- **Where the existing peers read as the targets do there is no
difference.** -/
theorem IsDiff.nil_of_view {psk : Option Key} {o : DiffOrders} {E T : GoMap String PeerInfo}
    {diff : SyncDiff} (h : IsDiff N psk o E T diff)
    (hsame : ∀ k, (E.lookup k).map (PeerInfo.view N) = (T.lookup k).map (PeerInfo.view N)) :
    diff.removeKeys = [] ∧ diff.upsertPeers = [] ∧ diff.peerConfigs = [] := by
  -- who is there is a target, and the other way round
  have htarget : ∀ k e, E.lookup k = some e → ∃ t, T.lookup k = some t ∧ e.view N = t.view N := by
    intro k e he
    have hk := hsame k
    rw [he, Option.map_some] at hk
    obtain ⟨t, ht, hview⟩ := Option.map_eq_some_iff.1 hk.symm
    exact ⟨t, ht, hview.symm⟩
  have hexisting : ∀ k t, T.lookup k = some t → ∃ e, E.lookup k = some e ∧ e.view N = t.view N := by
    intro k t ht
    have hk := hsame k
    rw [ht, Option.map_some] at hk
    exact Option.map_eq_some_iff.1 hk
  have hnetworks : ∀ {e t : PeerInfo}, e.view N = t.view N → e.networks N = t.networks N :=
    fun hview => congrArg (fun v => v.2.2) hview
  have hremove : diff.removeKeys = [] := by
    refine List.eq_nil_iff_forall_not_mem.2 fun k hk => ?_
    obtain ⟨⟨e, he⟩, hnone, -⟩ := (h.mem_removeKeys k).1 hk
    obtain ⟨t, ht, -⟩ := htarget k e he
    rw [hnone] at ht
    cases ht
  refine ⟨hremove, List.eq_nil_iff_forall_not_mem.2 fun t ht => ?_, ?_⟩
  · obtain ⟨k, hk, hdiffers⟩ := (h.mem_upsertPeers t).1 ht
    obtain ⟨e, he, hview⟩ := hexisting k t hk
    rcases hdiffers e he with hemail | hnets
    · exact hemail (Merged.email_eq_of_view hview)
    · exact hnets (hnetworks hview)
  · refine List.Perm.eq_nil (h.peerConfigs.trans (.of_eq ?_))
    rw [hremove, List.filterMap_nil, List.append_nil, List.append_eq_nil_iff]
    constructor
    · refine List.filterMap_eq_nil_iff.2 fun p hp => ?_
      obtain ⟨t, ht, hview⟩ := htarget p.1 p.2 (GoMap.mem_range.1 hp)
      rw [updateConfig, ht, Option.bind_some, if_pos (hnetworks hview)]
    · refine List.filterMap_eq_nil_iff.2 fun p hp => ?_
      obtain ⟨e, he, -⟩ := hexisting p.1 p.2 (GoMap.mem_range.1 hp)
      exact if_pos (by rw [he, Option.isSome_some])

namespace WireGuard

variable {env : Env} {wg : WireGuard}

theorem syncUsersFull_eq_self {D : GoMap String DesiredPeer}
    (hD : collectDesiredPeers N wg.config (normalizeUsers (env.order .lastByEmail) users) = .ok D)
    (hstore : ∀ k, (wg.peerStore.peers.lookup k).map (PeerInfo.view N) =
      (D.lookup k).map fun d => d.peerInfo.view N) :
    wg.syncUsersFull N env users = ⟨wg, none, []⟩ := by
  obtain ⟨T, -, hTD, -, hdiff⟩ := exists_targets hD wg.config.getPreSharedKey env.diffOrders
    (wg.buildExistingPeersByKeySnapshot env)
  obtain ⟨hremove, hupsert, -⟩ := hdiff.nil_of_view fun k => by
    rw [lookup_snapshot, hstore, hTD, Option.map_map]
    rfl
  have hsame : (buildSyncDiff N wg.config.getPreSharedKey env.diffOrders
      (wg.buildExistingPeersByKeySnapshot env) D).changed = false := by
    rw [Bool.eq_false_iff, Ne, hdiff.changed, hremove, hupsert]
    simp
  unfold syncUsersFull
  simp only [hD, hsame, Bool.not_false, if_true]

theorem syncUsersPartialReconcile_eq_self {D : GoMap String DesiredPeer}
    (hone : wg.peerStore.OneToOne)
    (hD : collectDesiredPeers N wg.config (normalizeUsers (env.order .lastByEmail) users) = .ok D)
    (hin : ∀ k d, D.lookup k = some d →
      ∃ q, wg.peerStore.peers.lookup k = some q ∧ q.view N = d.peerInfo.view N)
    (hout : ∀ k p, D.lookup k = none → wg.peerStore.peers.lookup k = some p →
      ¬ Touched users p.email) :
    wg.syncUsersPartialReconcile N env users = ⟨wg, none, []⟩ := by
  have howned : wg.checkOwners env
      ((normalizeUsers (env.order .lastByEmail) users).map User.email) D = none := by
    refine List.findSome?_eq_none_iff.2 fun p hp => ?_
    obtain ⟨q, hq, hview⟩ := hin p.1 p.2 (GoMap.mem_range.1 hp)
    have hemail : q.email = p.2.email := Merged.email_eq_of_view hview
    simp [PeerStore.getEmailMap, hq, hemail]
  obtain ⟨T, hT, hTD, -, hdiff⟩ := exists_targets hD wg.config.getPreSharedKey env.diffOrders
    (wg.touchedPeers env users)
  have hview : ∀ k, ((wg.touchedPeers env users).lookup k).map (PeerInfo.view N) =
      (T.lookup k).map (PeerInfo.view N) := by
    intro k
    cases hk : D.lookup k with
    | none =>
      have hnone : (wg.touchedPeers env users).lookup k = none := by
        refine Option.eq_none_iff_forall_ne_some.2 fun p hp => ?_
        obtain ⟨hstored, htouched⟩ := (lookup_touchedPeers_of_oneToOne hone).1 hp
        exact hout k p hk hstored htouched
      rw [hnone, hTD, hk]
      rfl
    | some d =>
      obtain ⟨q, hq, hqd⟩ := hin k d hk
      have ht : T.lookup k = some d.peerInfo := by rw [hTD, hk, Option.map_some]
      have htouched : Touched users q.email := by
        rw [Merged.email_eq_of_view hqd]
        exact hT.touched ht
      rw [(lookup_touchedPeers_of_oneToOne hone).2 ⟨hq, htouched⟩, ht, Option.map_some,
        Option.map_some, hqd]
  obtain ⟨hremove, hupsert, hconfigs⟩ := hdiff.nil_of_view hview
  simp only [touchedPeers] at hremove hupsert hconfigs
  unfold syncUsersPartialReconcile
  simp only [hD, howned, hremove, hupsert, hconfigs, List.length_nil, Nat.lt_irrefl, if_false]
  rfl

/-- **What a partial sync that went through leaves**: its desired peers, and
no others of the users it names. -/
theorem merged_of_ok (hone : wg.peerStore.OneToOne) (hc : Canonical users)
    (hok : (wg.syncUsersPartialReconcile N env users).err = none) :
    ∃ D T, collectDesiredPeers N wg.config (normalizeUsers (env.order .lastByEmail) users) = .ok D ∧
      (∀ k, T.lookup k = (D.lookup k).map DesiredPeer.peerInfo) ∧
      Merged N users T wg.peerStore (wg.syncUsersPartialReconcile N env users).wg.peerStore := by
  rcases wg.partial_cases N env users with
    hrefuses | ⟨D, T, diff, hD, hTD, hT, -, hdiff, hcommits⟩
  · exact absurd hok hrefuses.err
  · refine ⟨D, T, hD, hTD, ?_⟩
    rw [hcommits.state]
    exact merged_applyChanges hone (fun k p => lookup_touchedPeers_of_oneToOne hone)
      (hT.placed hc) hdiff

end WireGuard

/-- **Sending the same list again does nothing.** From a store in one-to-one
state and with canonical keys, a sync that went through is followed by one
that makes no calls, to the kernel or the tracker, and leaves the backend
as it is. -/
theorem resync (N : GoNet.Lib) (env env' : Env) (wg : WireGuard) (hone : wg.peerStore.OneToOne)
    (users users' : List (Option User)) (hc : Canonical users) (hre : Reordered users users') :
    ((wg.syncUsers N env users).err = none →
      (wg.syncUsers N env users).wg.syncUsers N env' users' =
        ⟨(wg.syncUsers N env users).wg, none, []⟩) ∧
    ((wg.updateUsers N env users).err = none →
      (wg.updateUsers N env users).wg.updateUsers N env' users' =
        ⟨(wg.updateUsers N env users).wg, none, []⟩) := by
  have hsame := sameDesired_of_orders N wg.config users users' hre.lookup (env.order .lastByEmail)
    (env'.order .lastByEmail)
  constructor
  · intro hok
    obtain ⟨D, hD, hreplaces⟩ := WireGuard.syncUsersFull_replaces hone hc hok
    rw [hD] at hsame
    rcases sameDesired_cases hsame with ⟨err, -, herr, -⟩ | ⟨D₁, D', hD₁, hD', hlookup⟩
    · cases herr
    obtain rfl := Except.ok.inj hD₁
    refine WireGuard.syncUsersFull_eq_self (D := D') ?_ fun k => ?_
    · rw [WireGuard.syncUsers, wg.config_full N env users]
      exact hD'
    · rw [← hlookup]
      exact hreplaces.exact k
  · intro hok
    obtain ⟨D, T, hD, hTD, hmerged⟩ := WireGuard.merged_of_ok hone hc hok
    rw [hD] at hsame
    rcases sameDesired_cases hsame with ⟨err, -, herr, -⟩ | ⟨D₁, D', hD₁, hD', hlookup⟩
    · cases herr
    obtain rfl := Except.ok.inj hD₁
    refine WireGuard.syncUsersPartialReconcile_eq_self (D := D') hmerged.oneToOne ?_
      (fun k d hd => ?_) fun k p hk hp => ?_
    · rw [WireGuard.updateUsers, wg.config_syncUsersPartialReconcile N env users]
      exact hD'
    · refine hmerged.target k d.peerInfo ?_
      rw [hTD, hlookup, hd, Option.map_some]
    · rw [← hre.touched_iff]
      have hnone : T.lookup k = none := by rw [hTD, hlookup, hk, Option.map_none]
      exact ((hmerged.other k p hnone).1 hp).2

/-- Two users exchange their keys, and the list comes again from the back. -/
theorem resync_swapped :
    (Demo.backend.syncUsers GoNet.std Env.calm Demo.swapped).effects ≠ [] ∧
      (Demo.backend.syncUsers GoNet.std Env.calm Demo.swapped).wg.syncUsers GoNet.std Env.calm
          Demo.swapped.reverse =
        ⟨(Demo.backend.syncUsers GoNet.std Env.calm Demo.swapped).wg, none, []⟩ := by
  have hre : Reordered Demo.swapped Demo.swapped.reverse :=
    .of_perm (List.reverse_perm _).symm (by decide +kernel)
  have hok : (Demo.backend.syncUsers GoNet.std Env.calm Demo.swapped).err = none := by
    decide +kernel
  exact ⟨by decide +kernel, (resync GoNet.std Env.calm Env.calm Demo.backend Demo.oneToOne_backend
    Demo.swapped _ Demo.canonical_swapped hre).1 hok⟩

end Wireguard

end NodeAgent
