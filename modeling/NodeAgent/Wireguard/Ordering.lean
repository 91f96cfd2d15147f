import NodeAgent.Wireguard.Helpers.Kernel
import NodeAgent.Wireguard.Quarantine
/-!
# The order of loops over maps

Go leaves open in which order a loop visits the entries of a map. A sync
has many such loops, over users, desired, existing and target peers. None
of them can be told from what it leaves: it fails in every order or in
none, and where it does not, the store and the device are the same.
-/

namespace NodeAgent

namespace Wireguard

variable {N : GoNet.Lib} {env : Env} {wg wg' : WireGuard} {users : List (Option User)}
variable {o o' : Order String}

/-! ## The desired peers -/

/-- **Collecting the desired peers fails in every order or in none**, and
gives the same ones; of the list only the last user of each email
counts. -/
theorem sameDesired_of_orders (N : GoNet.Lib) (cfg : Config) (users users' : List (Option User))
    (husers : ∀ email, (lastByEmail users).lookup email = (lastByEmail users').lookup email)
    (o o' : Order String) :
    SameDesired (collectDesiredPeers N cfg (normalizeUsers o users))
      (collectDesiredPeers N cfg (normalizeUsers o' users')) := by
  have hmem : ∀ u, u ∈ normalizeUsers o users ↔ u ∈ normalizeUsers o' users' := by
    intro u
    rw [mem_normalizeUsers, mem_normalizeUsers, husers]
  have hasks : ∀ d, Asks N cfg users d ↔ Asks N cfg users' d := by
    intro d
    simp only [Asks, husers]
  rcases collectDesiredPeers_cases N cfg (normalizeUsers o users) with
    ⟨hconflict, err, herr⟩ | ⟨hno, D, hD, -⟩
  · rcases collectDesiredPeers_cases N cfg (normalizeUsers o' users') with
      ⟨-, err', herr'⟩ | ⟨hno', -⟩
    · rw [herr, herr']
      exact trivial
    · exact absurd (hconflict.mono fun u hu => (hmem u).1 hu) hno'
  · rcases collectDesiredPeers_cases N cfg (normalizeUsers o' users') with
      ⟨hconflict', -⟩ | ⟨-, D', hD', -⟩
    · exact absurd (hconflict'.mono fun u hu => (hmem u).2 hu) hno
    · rw [hD, hD']
      intro k
      refine Option.ext fun d => ?_
      rw [(collectDesiredPeers_ok hD).1, (collectDesiredPeers_ok hD').1, hasks]

theorem sameDesired_cases {r r' : Except Err (GoMap String DesiredPeer)} (h : SameDesired r r') :
    (∃ err err', r = .error err ∧ r' = .error err') ∨
      ∃ D D', r = .ok D ∧ r' = .ok D' ∧ ∀ k, D.lookup k = D'.lookup k := by
  cases r with
  | error err =>
    cases r' with
    | error err' => exact Or.inl ⟨err, err', rfl, rfl⟩
    | ok D' => exact h.elim
  | ok D =>
    cases r' with
    | error err' => exact h.elim
    | ok D' => exact Or.inr ⟨D, D', rfl, rfl, h⟩

/-! ## Backends that are alike -/

/-- Stores that hold the same. -/
structure PeerStore.Alike (ps ps' : PeerStore) : Prop where
  peers : ∀ k, ps.peers.lookup k = ps'.peers.lookup k
  emailToKey : ∀ email, ps.emailToKey.lookup email = ps'.emailToKey.lookup email

theorem PeerStore.Alike.refl (ps : PeerStore) : ps.Alike ps :=
  ⟨fun _ => rfl, fun _ => rfl⟩

theorem PeerStore.OneToOne.alike {ps ps' : PeerStore} (h : ps.OneToOne) (h' : ps'.OneToOne)
    (hpeers : ∀ k, ps.peers.lookup k = ps'.peers.lookup k) : ps.Alike ps' := by
  -- what an email leads to is a peer of both
  have hle : ∀ {ps ps' : PeerStore}, ps.OneToOne → ps'.OneToOne →
      (∀ k, ps.peers.lookup k = ps'.peers.lookup k) → ∀ email k,
      ps.emailToKey.lookup email = some k → ps'.emailToKey.lookup email = some k := by
    intro ps ps' h h' hpeers email k hk
    obtain ⟨p, hp, rfl⟩ := h.backed email k hk
    exact h'.indexed k p ((hpeers k).symm.trans hp)
  exact ⟨hpeers, fun email => Option.ext fun k =>
    ⟨hle h h' hpeers email k, hle h' h (fun k => (hpeers k).symm) email k⟩⟩

/-- **Backends with the same store and the same device.** -/
structure WireGuard.Alike (wg wg' : WireGuard) : Prop where
  config : wg.config = wg'.config
  state : wg.state = wg'.state
  manager : wg.manager = wg'.manager
  store : wg.peerStore.Alike wg'.peerStore
  device : wg.device = wg'.device

theorem WireGuard.Alike.refl (wg : WireGuard) : wg.Alike wg :=
  ⟨rfl, rfl, rfl, .refl _, rfl⟩

/-- **Both fail or neither does, and they leave the same.** -/
structure Outcome.Agree (out out' : Outcome) : Prop where
  err : out.err = none ↔ out'.err = none
  wg : out.wg.Alike out'.wg

theorem Outcome.Agree.fail (h : wg.Alike wg') (err err' : Err) :
    (wg.fail err).Agree (wg'.fail err') :=
  ⟨by simp [WireGuard.fail], h⟩

/-! ## The calls to the kernel -/

namespace WireGuard

variable {order : Site → Order String}

theorem configureDevice_congr (manager : Manager) (succeeds replace : Bool)
    {cs cs' : List PeerConfig}
    (hdevice : wg.device.configure N replace cs = wg'.device.configure N replace cs') :
    wg.configureDevice N manager succeeds replace cs =
      wg'.configureDevice N manager succeeds replace cs' := by
  unfold WireGuard.configureDevice
  rw [hdevice]

theorem Alike.ensureRunningWithManager (h : wg.Alike wg') :
    wg.ensureRunningWithManager = wg'.ensureRunningWithManager := by
  unfold WireGuard.ensureRunningWithManager
  rw [h.state, h.manager]

theorem agree_configureThenCommit {store store' : PeerStore × List String}
    {replace : Bool} {cs cs' : List PeerConfig}
    (hdevice : wg.device.configure N replace cs = wg.device.configure N replace cs')
    (hstore : store.1.Alike store'.1) (failed : DeviceErr → Err) :
    (wg.configureThenCommit N env replace cs failed store).Agree
      (wg.configureThenCommit N { env with order := order } replace cs' failed store') := by
  unfold configureThenCommit
  cases wg.ensureRunningWithManager with
  | error err => exact .fail (.refl wg) err err
  | ok manager =>
    dsimp only
    rw [configureDevice_congr manager env.configured replace hdevice]
    cases wg.configureDevice N manager env.configured replace cs' with
    | error err => exact ⟨by simp, .refl wg⟩
    | ok device => exact ⟨Iff.rfl, rfl, rfl, rfl, hstore, rfl⟩

/-- **A batch in another order does the same to a device.** -/
theorem configure_of_orders {cfg : Config} {psk : Option Key} {d d' : DiffOrders}
    {E E' T T' : GoMap String PeerInfo} {diff diff' : SyncDiff}
    (hT : Placed N cfg users T) (hT' : Placed N cfg users T')
    (hE : ∀ k e, E.lookup k = some e → e.key = k) (hEE' : ∀ k, E.lookup k = E'.lookup k)
    (hTT' : ∀ k, T.lookup k = T'.lookup k)
    (hdiff : IsDiff N psk d E T diff) (hdiff' : IsDiff N psk d' E' T' diff') :
    (diff.peerConfigs.map (PeerConfig.change N)).Perm
        (diff'.peerConfigs.map (PeerConfig.change N)) ∧
      ∀ device : Device, device.configure N false diff.peerConfigs =
        device.configure N false diff'.peerConfigs := by
  have hE' : ∀ k e, E'.lookup k = some e → e.key = k :=
    fun k e he => hE k e ((hEE' k).trans he)
  have hfor : ∀ key, changeFor N E T key = changeFor N E' T' key := by
    intro key
    rw [changeFor, changeFor, hEE', hTT']
  have hholders := hdiff.holders_nodup hT hE
  have hperm : (diff.peerConfigs.map (PeerConfig.change N)).Perm
      (diff'.peerConfigs.map (PeerConfig.change N)) := by
    refine (List.perm_ext_iff_of_nodup (.of_map _ hholders)
      (.of_map _ (hdiff'.holders_nodup hT' hE'))).2 fun c => ?_
    rw [hdiff.mem_changes hT hE, hdiff'.mem_changes hT' hE', hfor]
  refine ⟨hperm, fun device => Holdings.foldl_apply_perm hperm hholders ?_ _⟩
  exact fun c hmem c' hmem' hne => hdiff.given_disjoint hT hE hmem hmem' hne

/-! ## Partial sync -/

theorem lookup_touchedPeers_of_orders (env env' : Env) (wg : WireGuard)
    (users : List (Option User)) (k : String) :
    (wg.touchedPeers env users).lookup k = (wg.touchedPeers env' users).lookup k :=
  Option.ext fun p => by rw [lookup_touchedPeers, lookup_touchedPeers]

theorem checkOwners_of_orders (env env' : Env) {touched touched' : List String}
    {D D' : GoMap String DesiredPeer} (htouched : ∀ e, e ∈ touched ↔ e ∈ touched')
    (hD : ∀ k, D.lookup k = D'.lookup k) (h : wg.checkOwners env touched D = none) :
    wg.checkOwners env' touched' D' = none := by
  refine List.findSome?_eq_none_iff.2 fun p hp => ?_
  have hp' : p ∈ GoMap.range (env.order .owners) D :=
    GoMap.mem_range.2 ((hD p.1).trans (GoMap.mem_range.1 hp))
  have hone := List.findSome?_eq_none_iff.1 h p hp'
  simp only [List.contains_iff_mem, htouched] at hone ⊢
  exact hone

theorem agree_reconciled {D D' : GoMap String DesiredPeer} (hc : Canonical users)
    (hD : collectDesiredPeers N wg.config (normalizeUsers (env.order .lastByEmail) users) = .ok D)
    (hD' : collectDesiredPeers N wg.config (normalizeUsers (order .lastByEmail) users) = .ok D')
    (hlookup : ∀ k, D.lookup k = D'.lookup k) :
    (wg.syncUsersPartialReconcile N env users).Agree
      (wg.syncUsersPartialReconcile N { env with order := order } users) := by
  have htouched : ∀ e, e ∈ (normalizeUsers (env.order .lastByEmail) users).map User.email ↔
      e ∈ (normalizeUsers (order .lastByEmail) users).map User.email := by
    intro e
    rw [mem_touched, mem_touched]
  have hexisting := lookup_touchedPeers_of_orders env { env with order := order } wg users
  obtain ⟨T, hT, hTD, -, hdiff⟩ := exists_targets hD wg.config.getPreSharedKey env.diffOrders
    (wg.touchedPeers env users)
  obtain ⟨T', hT', hTD', -, hdiff'⟩ := exists_targets hD' wg.config.getPreSharedKey
    { env with order := order }.diffOrders (wg.touchedPeers { env with order := order } users)
  obtain ⟨hremove, hupsert⟩ := buildSyncDiff_congr N wg.config.getPreSharedKey env.diffOrders
    { env with order := order }.diffOrders hexisting hlookup
    fun k d hd => (((collectDesiredPeers_ok hD).1 k d).1 hd).1.nets_ne_nil
  obtain ⟨hperm, hdevice⟩ := configure_of_orders (hT.placed hc) (hT'.placed hc)
    (fun k e he => (lookup_touchedPeers.1 he).1) hexisting
    (fun k => by rw [hTD, hTD', hlookup]) hdiff hdiff'
  have hlength := hperm.length_eq
  rw [List.length_map, List.length_map] at hlength
  unfold syncUsersPartialReconcile
  dsimp only
  rw [hD, hD']
  dsimp only
  cases howned : wg.checkOwners env
      ((normalizeUsers (env.order .lastByEmail) users).map User.email) D with
  | some err =>
    cases howned' : wg.checkOwners { env with order := order }
        ((normalizeUsers (order .lastByEmail) users).map User.email) D' with
    | some err' => exact .fail (.refl wg) err err'
    | none =>
      rw [checkOwners_of_orders _ env (fun e => (htouched e).symm)
        (fun k => (hlookup k).symm) howned'] at howned
      cases howned
  | none =>
    rw [checkOwners_of_orders env { env with order := order } htouched hlookup howned]
    -- the store is given the same lists, and the kernel the same batch in some order
    simp only [touchedPeers] at hremove hupsert hdevice hlength
    dsimp only
    rw [← hremove, ← hupsert, ← hlength]
    split_ifs
    · exact agree_configureThenCommit (hdevice wg.device) (.refl _) .applyPeers
    · exact ⟨Iff.rfl, rfl, rfl, rfl, .refl _, rfl⟩

/-- **A partial sync in two orders.** -/
theorem agree_syncUsersPartialReconcile (N : GoNet.Lib) (env : Env)
    (order : Site → Order String) (wg : WireGuard) (hc : Canonical users) :
    (wg.syncUsersPartialReconcile N env users).Agree
      (wg.syncUsersPartialReconcile N { env with order := order } users) := by
  rcases sameDesired_cases (sameDesired_of_orders N wg.config users users (fun _ => rfl)
    (env.order .lastByEmail) (order .lastByEmail)) with
      ⟨err, err', herr, herr'⟩ | ⟨D, D', hD, hD', hlookup⟩
  · unfold syncUsersPartialReconcile
    dsimp only
    rw [herr, herr']
    exact .fail (.refl wg) err err'
  · exact agree_reconciled hc hD hD' hlookup

/-! ## Full sync -/

/-- **A full sync in two orders.** -/
theorem agree_syncUsersFull (N : GoNet.Lib) (env : Env) (order : Site → Order String)
    (wg : WireGuard) (hc : Canonical users) :
    (wg.syncUsersFull N env users).Agree
      (wg.syncUsersFull N { env with order := order } users) := by
  rcases sameDesired_cases (sameDesired_of_orders N wg.config users users (fun _ => rfl)
    (env.order .lastByEmail) (order .lastByEmail)) with
      ⟨err, err', herr, herr'⟩ | ⟨D, D', hD, hD', hlookup⟩
  · unfold syncUsersFull
    dsimp only
    rw [herr, herr']
    exact .fail (.refl wg) err err'
  · have hexisting : ∀ k, (wg.buildExistingPeersByKeySnapshot env).lookup k =
        (wg.buildExistingPeersByKeySnapshot { env with order := order }).lookup k :=
      fun k => by rw [lookup_snapshot, lookup_snapshot]
    obtain ⟨T, hT, hTD, htargets, hdiff⟩ := exists_targets hD wg.config.getPreSharedKey
      env.diffOrders (wg.buildExistingPeersByKeySnapshot env)
    obtain ⟨T', hT', hTD', htargets', hdiff'⟩ := exists_targets hD' wg.config.getPreSharedKey
      { env with order := order }.diffOrders
      (wg.buildExistingPeersByKeySnapshot { env with order := order })
    obtain ⟨hremove, hupsert⟩ := buildSyncDiff_congr N wg.config.getPreSharedKey env.diffOrders
      { env with order := order }.diffOrders hexisting hlookup
      fun k d hd => (((collectDesiredPeers_ok hD).1 k d).1 hd).1.nets_ne_nil
    have hTT' : ∀ k, T.lookup k = T'.lookup k := fun k => by rw [hTD, hTD', hlookup]
    have hchanged : (buildSyncDiff N wg.config.getPreSharedKey env.diffOrders
        (wg.buildExistingPeersByKeySnapshot env) D).changed =
        (buildSyncDiff N wg.config.getPreSharedKey { env with order := order }.diffOrders
          (wg.buildExistingPeersByKeySnapshot { env with order := order }) D').changed := by
      rw [Bool.eq_iff_iff, hdiff.changed, hdiff'.changed, hremove, hupsert]
    have hconfigs : (buildTargetPeerConfigs wg.config.getPreSharedKey T).1 =
        (buildTargetPeerConfigs wg.config.getPreSharedKey T').1 := by
      rw [buildTargetPeerConfigs_addAll hT.routed, buildTargetPeerConfigs_addAll hT'.routed,
        targetList_congr hTT']
    have hvalid : wg.validTargets env T = (GoMap.range (env.order .valid) T).map Prod.snd :=
      wg.validTargets_eq env hT.routed
    have hvalid' : wg.validTargets { env with order := order } T' =
        (GoMap.range (order .valid) T').map Prod.snd :=
      wg.validTargets_eq { env with order := order } hT'.routed
    unfold syncUsersFull
    dsimp only
    rw [hD, hD']
    dsimp only
    rw [hchanged, htargets, htargets']
    split_ifs
    · exact ⟨Iff.rfl, .refl wg⟩
    · refine agree_configureThenCommit ?_ ?_ .applySnapshot
      · rw [hconfigs]
      · show (PeerStore.new.init (wg.validTargets env T)).Alike
          (PeerStore.new.init (wg.validTargets { env with order := order } T'))
        rw [hvalid, hvalid']
        obtain ⟨hone, hpeers⟩ := init_targets (hT.placed hc) (env.order .valid)
        obtain ⟨hone', hpeers'⟩ := init_targets (hT'.placed hc) (order .valid)
        exact hone.alike hone' fun k => by rw [hpeers, hpeers', hTT']

/-! ## Restart -/

theorem sorted_getAll_of_orders {ps ps' : PeerStore} (h : ps.Alike ps') (o o' : Order String) :
    (ps.getAll o).insertionSort (fun p q => p.key ≤ q.key) =
      (ps'.getAll o').insertionSort fun p q => p.key ≤ q.key := by
  have hrange : (GoMap.range o ps.peers).Perm (GoMap.range o' ps'.peers) := by
    refine (List.perm_ext_iff_of_nodup (.of_map _ (GoMap.range_nodup o ps.peers))
      (.of_map _ (GoMap.range_nodup o' ps'.peers))).2 fun p => ?_
    rw [GoMap.mem_range, GoMap.mem_range, h.peers]
  have hstored : ∀ p ∈ ps.getAll o, ps.peers.lookup p.key = some p := by
    intro p hp
    obtain ⟨q, hq, rfl⟩ := List.mem_map.1 hp
    rw [ps.keyed q.1 q.2 (GoMap.mem_range.1 hq)]
    exact GoMap.mem_range.1 hq
  have hperm := hrange.map Prod.snd
  refine (((List.perm_insertionSort _ _).trans hperm).trans
    (List.perm_insertionSort _ _).symm).eq_of_pairwise (fun p q hp hq hpq hqp => ?_)
    (List.pairwise_insertionSort _ _) (List.pairwise_insertionSort _ _)
  -- two peers of the store that are not apart by their keys are one
  have hp' : p ∈ ps.getAll o := (List.perm_insertionSort _ _).mem_iff.1 hp
  have hq' : q ∈ ps.getAll o :=
    hperm.mem_iff.2 ((List.perm_insertionSort _ _).mem_iff.1 hq)
  have hkey : p.key = q.key := String.le_antisymm hpq hqp
  have hpk := hstored p hp'
  rw [hkey, hstored q hq'] at hpk
  exact (Option.some.inj hpk).symm

/-- **A restart in two orders**, of backends that are alike. -/
theorem agree_restartLocked (env : Env) (order : Site → Order String) (h : wg.Alike wg') :
    (wg.restartLocked N env).Agree (wg'.restartLocked N { env with order := order }) := by
  have hconfigs : buildPeerConfigsForRestart wg.config.getPreSharedKey
      (wg.peerStore.getAll (env.order .all)) =
      buildPeerConfigsForRestart wg'.config.getPreSharedKey
        (wg'.peerStore.getAll (order .all)) := by
    unfold buildPeerConfigsForRestart
    rw [h.config, sorted_getAll_of_orders h.store]
  have hprivate : wg.config.getPrivateKey = wg'.config.getPrivateKey := by rw [h.config]
  unfold restartLocked
  rw [hprivate]
  cases wg'.config.getPrivateKey with
  | none => exact .fail h _ _
  | some key =>
    dsimp only
    rw [hconfigs]
    cases buildPeerConfigsForRestart wg'.config.getPreSharedKey
        (wg'.peerStore.getAll (order .all)) with
    | error err => exact .fail h err err
    | ok configs =>
      dsimp only
      rw [h.ensureRunningWithManager]
      cases wg'.ensureRunningWithManager with
      | error err => exact .fail h err err
      | ok manager =>
        dsimp only
        have hdevice : wg.device.configure N true configs =
            wg'.device.configure N true configs := by rw [h.device]
        rw [configureDevice_congr manager env.reconfigured true hdevice]
        cases wg'.configureDevice N manager env.reconfigured true configs with
        | error err => exact ⟨by simp, h⟩
        | ok device => exact ⟨Iff.rfl, h.config, h.state, h.manager, h.store, rfl⟩

theorem agree_updateUsersAndRestart (N : GoNet.Lib) (env : Env) (order : Site → Order String)
    (wg : WireGuard) (hc : Canonical users) :
    (wg.updateUsersAndRestart N env users).Agree
      (wg.updateUsersAndRestart N { env with order := order } users) := by
  have hupdated := agree_syncUsersPartialReconcile N env order wg hc
  unfold updateUsersAndRestart
  dsimp only
  cases herr : (wg.syncUsersPartialReconcile N env users).err with
  | some err =>
    cases herr' : (wg.syncUsersPartialReconcile N { env with order := order } users).err with
    | some err' => exact hupdated
    | none =>
      rw [hupdated.err.2 herr'] at herr
      cases herr
  | none =>
    rw [hupdated.err.1 herr]
    exact ⟨(agree_restartLocked env order hupdated.wg).err,
      (agree_restartLocked env order hupdated.wg).wg⟩

end WireGuard

/-- **The order of loops over maps does not matter.** Whatever the orders,
collecting the desired peers fails in both or gives the same ones in both;
and with keys in canonical spelling every sync fails in both or leaves the
same store and the same device. -/
theorem order_irrelevant (N : GoNet.Lib) (env : Env) (order : Site → Order String)
    (wg : WireGuard) (users : List (Option User)) :
    SameDesired
        (collectDesiredPeers N wg.config (normalizeUsers (env.order .lastByEmail) users))
        (collectDesiredPeers N wg.config (normalizeUsers (order .lastByEmail) users)) ∧
      (Canonical users →
        (wg.syncUsers N env users).Agree (wg.syncUsers N { env with order := order } users) ∧
        (wg.updateUsers N env users).Agree (wg.updateUsers N { env with order := order } users) ∧
        (wg.updateUsersAndRestart N env users).Agree
          (wg.updateUsersAndRestart N { env with order := order } users) ∧
        ∀ user ∈ users, (wg.syncUser N env user).Agree
          (wg.syncUser N { env with order := order } user)) := by
  refine ⟨sameDesired_of_orders N wg.config users users (fun _ => rfl) _ _,
    fun hc => ⟨?_, ?_, ?_, fun user huser => ?_⟩⟩
  · exact WireGuard.agree_syncUsersFull N env order wg hc
  · exact WireGuard.agree_syncUsersPartialReconcile N env order wg hc
  · exact WireGuard.agree_updateUsersAndRestart N env order wg hc
  · cases user with
    | none => exact .fail (.refl wg) _ _
    | some u =>
      refine WireGuard.agree_syncUsersPartialReconcile N env order wg fun v hv => ?_
      obtain rfl : v = u := Option.some.inj (List.mem_singleton.1 hv)
      exact hc v huser

/-- Two users exchange their keys and addresses, with every loop from the
front and from the back. -/
theorem order_irrelevant_swapped :
    (Demo.backend.updateUsers GoNet.std Env.calm Demo.swapped).err = none ∧
      (Demo.backend.updateUsers GoNet.std Env.calm Demo.swapped).Agree
        (Demo.backend.updateUsers GoNet.std { Env.calm with order := fun _ => .reversed }
          Demo.swapped) :=
  ⟨by decide +kernel, ((order_irrelevant GoNet.std Env.calm (fun _ => .reversed) Demo.backend
    Demo.swapped).2 Demo.canonical_swapped).2.1⟩

end Wireguard

end NodeAgent
