import NodeAgent.Wireguard.Helpers.Run
import NodeAgent.Wireguard.Reconcile
/-!
# Peers stay within the networks of their interface

Every peer in the store is what some user asked for, and a user is given
only networks that are the interface's. `peerIPAllowedOnInterface` tests
the address of a network and the length of its prefix, and with masks of
leading ones that is enough: every address of the network is one of the
interface's. No peer is without allowed IPs, so a restart never fails for
one.
-/

namespace NodeAgent

namespace Wireguard

variable {N : GoNet.Lib} {env : Env} {wg : WireGuard} {cfg : Config} {users : List (Option User)}
  {k : String} {p : PeerInfo}

/-! ## One user -/

theorem mem_netsOf {ips : List String} {ns : List GoNet.IPNet} (h : netsOf N cfg ips = some ns) :
    ∀ n ∈ ns, (∃ ip ∈ ips, N.parseCIDR ip = some n) ∧
      peerIPAllowedOnInterface n (cfg.interfaceNetworks N) = true := by
  induction ips generalizing ns with
  | nil =>
    obtain rfl := Option.some.inj h
    simp
  | cons ip ips ih =>
    unfold netsOf at h
    cases hparse : N.parseCIDR ip with
    | none =>
      rw [hparse] at h
      cases h
    | some ipNet =>
      rw [hparse] at h
      dsimp only at h
      have hlift : ∀ n, (∃ ip' ∈ ips, N.parseCIDR ip' = some n) →
          ∃ ip' ∈ ip :: ips, N.parseCIDR ip' = some n := by
        rintro n ⟨ip', hip', hn⟩
        exact ⟨ip', List.mem_cons_of_mem _ hip', hn⟩
      split_ifs at h with hallowed
      · intro n hn
        exact ⟨hlift n (ih h n hn).1, (ih h n hn).2⟩
      · obtain ⟨ns', hns', rfl⟩ := Option.map_eq_some_iff.1 h
        intro n hn
        rcases List.mem_cons.1 hn with rfl | hn
        · exact ⟨⟨ip, List.mem_cons_self .., hparse⟩, by simpa using hallowed⟩
        · exact ⟨hlift n (ih hns' n hn).1, (ih hns' n hn).2⟩

/-- **A peer some user has asked for.** -/
def PeerInfo.Asked (N : GoNet.Lib) (cfg : Config) (p : PeerInfo) : Prop :=
  ∃ u d, desiredOf N cfg u = some d ∧ d.peerInfo = p

theorem PeerInfo.Asked.routed (h : p.Asked N cfg) : p.allowedIPs ≠ [] := by
  obtain ⟨u, d, hd, rfl⟩ := h
  exact (desiredOf_fields hd).2.2.2

theorem PeerInfo.Asked.allowed (h : p.Asked N cfg) : ∀ n ∈ p.allowedIPs,
    (∃ ip, N.parseCIDR ip = some n) ∧
      peerIPAllowedOnInterface n (cfg.interfaceNetworks N) = true := by
  obtain ⟨u, d, hd, rfl⟩ := h
  unfold desiredOf at hd
  split_ifs at hd
  split at hd
  · next parsedKey nets _ hnets =>
      split_ifs at hd
      obtain rfl := Option.some.inj hd
      intro n hn
      obtain ⟨⟨ip, -, hip⟩, hallowed⟩ := mem_netsOf hnets n hn
      exact ⟨⟨ip, hip⟩, hallowed⟩
  · cases hd

/-! ## The interface -/

theorem mem_interfaceNetworks {pool : GoNet.IPNet} (h : pool ∈ cfg.interfaceNetworks N) :
    ∃ addr ∈ cfg.address, N.parseCIDR (GoStrings.trimSpace addr) = some pool := by
  obtain ⟨addr, haddr, hpool⟩ := List.mem_filterMap.1 h
  dsimp only at hpool
  split_ifs at hpool
  exact ⟨addr, haddr, hpool⟩

theorem interfaceNetworks_ne_nil (hN : N.ReadsCIDR)
    (h : ∃ addr ∈ cfg.address, N.parseCIDR (GoStrings.trimSpace addr) ≠ none) :
    cfg.interfaceNetworks N ≠ [] := by
  obtain ⟨addr, haddr, hread⟩ := h
  obtain ⟨pool, hpool⟩ := Option.ne_none_iff_exists'.1 hread
  have hne : GoStrings.trimSpace addr ≠ "" := by
    intro hempty
    rw [hempty, hN.empty] at hpool
    cases hpool
  refine List.ne_nil_of_mem (a := pool) (List.mem_filterMap.2 ⟨addr, haddr, ?_⟩)
  dsimp only
  rw [if_neg hne, hpool]

/-- **A peer is confined to the interface**: it has allowed IPs, and where
an address of the interface can be read each of them lies, address by
address, in the network of one, of the same family. -/
structure PeerInfo.Confined (N : GoNet.Lib) (cfg : Config) (p : PeerInfo) : Prop where
  routed : p.allowedIPs ≠ []
  within : (∃ addr ∈ cfg.address, N.parseCIDR (GoStrings.trimSpace addr) ≠ none) →
    ∀ n ∈ p.allowedIPs, ∃ addr ∈ cfg.address, ∃ pool,
      N.parseCIDR (GoStrings.trimSpace addr) = some pool ∧ n.SameFamily pool ∧
        ∀ ip, n.contains ip = true → pool.contains ip = true

/-- **What a user can ask for is confined.** -/
theorem PeerInfo.Asked.confined (hN : N.ReadsCIDR) (h : p.Asked N cfg) : p.Confined N cfg where
  routed := h.routed
  within := by
    intro hread n hn
    obtain ⟨⟨text, htext⟩, hallowed⟩ := h.allowed n hn
    have hsome : ¬ (cfg.interfaceNetworks N).length = 0 := by
      rw [List.length_eq_zero_iff]
      exact interfaceNetworks_ne_nil hN hread
    unfold peerIPAllowedOnInterface at hallowed
    rw [decide_eq_false hsome, Bool.false_or, List.any_eq_true] at hallowed
    obtain ⟨pool, hpool, htest⟩ := hallowed
    rw [Bool.and_eq_true, Bool.and_eq_true, decide_eq_true_eq, decide_eq_true_eq] at htest
    obtain ⟨⟨hlen, hin⟩, hones⟩ := htest
    obtain ⟨addr, haddr, hparse⟩ := mem_interfaceNetworks hpool
    exact ⟨addr, haddr, pool, hparse,
      (hN.isCidr text n htext).subset (hN.isCidr _ pool hparse) hlen hin hones⟩

/-! ## The store -/

/-- **Every peer in the store is what some user has asked for.** -/
def WireGuard.StoresAsked (N : GoNet.Lib) (wg : WireGuard) : Prop :=
  ∀ k p, wg.peerStore.peers.lookup k = some p → p.Asked N wg.config

theorem Targets.asked {T : GoMap String PeerInfo} (hT : Targets N cfg users T)
    (hp : T.lookup k = some p) : p.Asked N cfg := by
  obtain ⟨d, ⟨u, -, hd⟩, -, rfl⟩ := (hT.lookup_iff k p).1 hp
  exact ⟨u, d, hd, rfl⟩

theorem mem_filterUpserts {ups : List PeerInfo} {keys : List String}
    (h : p ∈ filterUpsertsByAppliedKeys ups keys) : p ∈ ups := by
  unfold filterUpsertsByAppliedKeys at h
  split_ifs at h
  · exact h
  · exact List.mem_of_mem_filter h

theorem storesAsked_new (h : WireGuard.new N env (some wg.config) users = .ok wg) :
    wg.StoresAsked N := by
  obtain ⟨-, T, diff, hT, hdiff, hstore, -⟩ := WireGuard.new_ok h
  intro k p hp
  rw [hstore] at hp
  obtain ⟨k', hk', -⟩ := (hdiff.mem_upsertPeers p).1 (mem_filterUpserts (PeerStore.mem_init hp))
  exact hT.asked hk'

namespace WireGuard.StoresAsked

variable (h : wg.StoresAsked N)
include h

theorem full (env : Env) (users : List (Option User)) :
    (wg.syncUsersFull N env users).wg.StoresAsked N := by
  rcases wg.full_cases N env users with
    hrefuses | ⟨D, T, diff, -, -, hT, -, ⟨-, hout⟩ | hcommits⟩
  · rw [hrefuses.state]
    exact h
  · rw [hout]
    exact h
  · rw [hcommits.state]
    intro k p hp
    obtain ⟨e, he, rfl⟩ := List.mem_map.1 (PeerStore.mem_init hp)
    exact hT.asked (GoMap.mem_range.1 he)

theorem merge (env : Env) (users : List (Option User)) :
    (wg.syncUsersPartialReconcile N env users).wg.StoresAsked N := by
  rcases wg.partial_cases N env users with
    hrefuses | ⟨D, T, diff, -, -, hT, -, hdiff, hcommits⟩
  · rw [hrefuses.state]
    exact h
  · rw [hcommits.state]
    intro k p hp
    change (PeerStore.applyChanges ..).1.peers.lookup k = some p at hp
    rw [PeerStore.applyChanges_eq] at hp
    rcases PeerStore.mem_foldl_upsertOne diff.upsertPeers _ hp with hup | ⟨-, hold⟩
    · obtain ⟨k', hk', -⟩ := (hdiff.mem_upsertPeers p).1 hup
      exact hT.asked hk'
    · rw [PeerStore.lookup_foldl_removeOne] at hold
      split_ifs at hold
      exact h k p hold

theorem restart (env : Env) : (wg.restartLocked N env).wg.StoresAsked N := by
  rcases wg.restartLocked_cases N env with hrefuses | ⟨configs, -, hout⟩
  · rw [hrefuses.state]
    exact h
  · rw [hout]
    exact h

omit h in
theorem of_run (hrun : Runs.Path (WireGuard.step N) (fun _ _ => True) none (some wg)) :
    wg.StoresAsked N := by
  refine WireGuard.run_keeps (Q := fun _ _ => True) (P := fun _ _ => True)
    (fun env wg users _ hnew => storesAsked_new hnew) (fun env wg users h _ => h.full env users)
    (fun env wg users h _ => h.merge env users) (fun env wg h => h.restart env)
    (hrun.mono fun s l _ => ?_)
  obtain ⟨env, op⟩ := l
  cases op <;> simp [Allowed]

theorem restartConfigs_ok (psk : Option Key) (o : Order String) :
    ∃ configs, WireGuard.buildPeerConfigsForRestart psk (wg.peerStore.getAll o) = .ok configs := by
  have hrouted : ∀ p ∈ (wg.peerStore.getAll o).insertionSort fun p q => p.key ≤ q.key,
      p.allowedIPs ≠ [] := by
    intro p hp
    rw [List.mem_insertionSort] at hp
    obtain ⟨e, he, rfl⟩ := List.mem_map.1 hp
    exact (h _ _ (GoMap.mem_range.1 he)).routed
  unfold WireGuard.buildPeerConfigsForRestart
  generalize (wg.peerStore.getAll o).insertionSort (fun p q => p.key ≤ q.key) = peers at hrouted ⊢
  induction peers with
  | nil => exact ⟨[], rfl⟩
  | cons p peers ih =>
    obtain ⟨configs, hconfigs⟩ := ih fun q hq => hrouted q (List.mem_cons_of_mem _ hq)
    refine ⟨buildAddConfig p.publicKey p.allowedIPs psk :: configs, ?_⟩
    rw [List.mapM_cons, hconfigs,
      buildAddConfigFromPeerInfo_of_ne (hrouted p (List.mem_cons_self ..))]
    rfl

/-- **A restart does not fail for want of allowed IPs.** -/
theorem restart_err (env : Env) (email : String) :
    (wg.restartLocked N env).err ≠ some (.noAllowedIPs email) := by
  obtain ⟨configs, hconfigs⟩ := h.restartConfigs_ok wg.config.getPreSharedKey (env.order .all)
  unfold WireGuard.restartLocked
  rw [hconfigs]
  cases wg.config.getPrivateKey with
  | none => simp [WireGuard.fail]
  | some key =>
    dsimp only
    unfold WireGuard.ensureRunningWithManager
    split_ifs
    · simp [WireGuard.fail]
    · cases wg.manager with
      | none => simp [WireGuard.fail]
      | some manager =>
        dsimp only
        rcases wg.configureDevice_cases N manager env.reconfigured true configs with
          ⟨err, herr⟩ | hok
        · rw [herr]
          simp
        · rw [hok]
          simp

end WireGuard.StoresAsked

/-- **Address confinement.** In every state reached through `New` and the
syncs every peer in the store is confined to its interface, and a restart
never fails for a peer without allowed IPs. -/
theorem peers_confined (N : GoNet.Lib) (hN : N.ReadsCIDR) (wg : WireGuard)
    (hrun : Runs.Path (WireGuard.step N) (fun _ _ => True) none (some wg)) :
    (∀ k p, wg.peerStore.peers.lookup k = some p → p.Confined N wg.config) ∧
      ∀ env email, (wg.restartLocked N env).err ≠ some (.noAllowedIPs email) := by
  have hasked := WireGuard.StoresAsked.of_run hrun
  exact ⟨fun k p hp => (hasked k p hp).confined hN, fun env email => hasked.restart_err env email⟩

namespace Demo

def dual : Config :=
  { config with address := ["10.0.0.1/24", "fd00::1/64"] }

def dualUser : Option User :=
  user "a" (key 1).string ["10.0.0.2/32", "fd00::2/128", "192.168.0.1/32"]

end Demo

/-- A new backend on such an interface, and then a sync: the user has the
two networks it may have. -/
theorem peers_confined_dual :
    ∃ wg p, [(Env.calm, Op.new (some Demo.dual) []), (Env.calm, .updateUsers [Demo.dualUser])].foldl
        (WireGuard.step GoNet.std) none = some wg ∧
      wg.peerStore.peers.lookup (Demo.key 1).string = some p ∧
      p.networks GoNet.std = ["10.0.0.2/32", "fd00::2/128"] ∧
      p.Confined GoNet.std wg.config := by
  have hheld : ([(Env.calm, Op.new (some Demo.dual) []),
      (Env.calm, .updateUsers [Demo.dualUser])].foldl (WireGuard.step GoNet.std) none).map
        (fun wg => (wg.peerStore.peers.lookup (Demo.key 1).string).map
          (PeerInfo.networks GoNet.std)) =
      some (some ["10.0.0.2/32", "fd00::2/128"]) := by decide +kernel
  obtain ⟨wg, hwg, hpeer⟩ := Option.map_eq_some_iff.1 hheld
  obtain ⟨p, hp, hnets⟩ := Option.map_eq_some_iff.1 hpeer
  have hrun : Runs.Path (WireGuard.step GoNet.std) (fun _ _ => True) none (some wg) := by
    rw [← hwg]
    exact Runs.Path.of_foldl _ fun _ _ _ => trivial
  exact ⟨wg, p, hwg, hp, hnets,
    (peers_confined GoNet.std GoNet.std_readsCIDR wg hrun).1 _ p hp⟩

end Wireguard

end NodeAgent
