import NodeAgent.Wireguard.Confined
import NodeAgent.Wireguard.Exclusive
import NodeAgent.Wireguard.Helpers.Kernel
/-!
# The pre-shared key of an interface

Peer configurations are built on four paths, each of which asks
`GetPreSharedKey` for the key and drops its error. What they send carries
the key if it can be parsed, on every path; if it cannot, nothing does, and
neither `New` nor anything after it says so.
-/

namespace NodeAgent

namespace Wireguard

variable {N : GoNet.Lib} {env : Env} {wg : WireGuard} {cfg : Config} {users : List (Option User)}
  {psk : Option Key}

/-! ## What is sent -/

/-- The peer configurations an operation has sent to the kernel. -/
def Outcome.sent (out : Outcome) : List PeerConfig :=
  out.effects.flatMap Effect.peerConfigs

/-- **An addition or an update has the pre-shared key `psk`.** -/
def PeerConfig.Has (psk : Option Key) (c : PeerConfig) : Prop :=
  c.remove = false → c.presharedKey = psk

theorem has_buildAddConfig (publicKey : Key) (ips : List GoNet.IPNet) (psk : Option Key) :
    (buildAddConfig publicKey ips psk).Has psk :=
  fun _ => rfl

theorem has_buildRemoveConfig (publicKey : Key) (psk : Option Key) :
    (buildRemoveConfig publicKey).Has psk :=
  fun h => by cases h

theorem has_buildAddConfigFromPeerInfo {peer : PeerInfo} {c : PeerConfig}
    (h : buildAddConfigFromPeerInfo peer psk = some c) : c.Has psk := by
  unfold buildAddConfigFromPeerInfo at h
  split_ifs at h
  obtain rfl := Option.some.inj h
  exact has_buildAddConfig _ _ _

theorem IsDiff.has {o : DiffOrders} {E T : GoMap String PeerInfo} {diff : SyncDiff}
    (h : IsDiff N psk o E T diff) : ∀ c ∈ diff.peerConfigs, c.Has psk := by
  intro c hc
  rw [h.peerConfigs.mem_iff, List.mem_append, List.mem_append, List.mem_filterMap, List.mem_filterMap,
    List.mem_filterMap] at hc
  rcases hc with (⟨p, -, hc⟩ | ⟨p, -, hc⟩) | ⟨k, -, hc⟩
  · -- an update of an existing peer
    obtain ⟨target, -, hc⟩ := Option.bind_eq_some_iff.1 hc
    split_ifs at hc
    obtain rfl := Option.some.inj hc
    exact fun _ => rfl
  · unfold addConfig at hc
    split_ifs at hc
    obtain rfl := Option.some.inj hc
    exact has_buildAddConfig _ _ _
  · obtain ⟨key, -, rfl⟩ := Option.map_eq_some_iff.1 hc
    exact has_buildRemoveConfig _ _

theorem has_buildTargetPeerConfigs (T : GoMap String PeerInfo) :
    ∀ c ∈ (buildTargetPeerConfigs psk T).1, c.Has psk := by
  refine List.foldlRecOn (motive := fun acc : List PeerConfig × List String =>
    ∀ c ∈ acc.1, c.Has psk) _ _ (by simp) ?_
  intro acc hacc key _ c hc
  split at hc
  · exact hacc c hc
  · next config hconfig =>
      rcases List.mem_append.1 hc with hc | hc
      · exact hacc c hc
      · obtain ⟨t, -, ht⟩ := Option.bind_eq_some_iff.1 hconfig
        rw [List.mem_singleton.1 hc]
        exact has_buildAddConfigFromPeerInfo ht

theorem has_buildPeerConfigsForRestart {peers : List PeerInfo} {configs : List PeerConfig}
    (h : WireGuard.buildPeerConfigsForRestart psk peers = .ok configs) :
    ∀ c ∈ configs, c.Has psk := by
  intro c hc
  rw [buildPeerConfigsForRestart_ok h] at hc
  obtain ⟨p, -, rfl⟩ := List.mem_map.1 hc
  exact has_buildAddConfig _ _ _

/-! ## The operations -/

theorem sent_commit (wg : WireGuard) (store : PeerStore × List String) (calls : List Effect) :
    (wg.commit store calls).sent = calls.flatMap Effect.peerConfigs := by
  have hstats : (store.2.map Effect.removeStats).flatMap Effect.peerConfigs = [] := by
    rw [List.flatMap_eq_nil_iff]
    intro e he
    obtain ⟨key, -, rfl⟩ := List.mem_map.1 he
    rfl
  rw [Outcome.sent, WireGuard.commit, List.flatMap_append, hstats, List.append_nil]

theorem sent_configureThenCommit {replacePeers : Bool} {peerConfigs : List PeerConfig}
    {failed : DeviceErr → Err} {store : PeerStore × List String} :
    ∀ c ∈ (wg.configureThenCommit N env replacePeers peerConfigs failed store).sent,
      c ∈ peerConfigs := by
  intro c hc
  unfold WireGuard.configureThenCommit at hc
  cases hmanager : wg.ensureRunningWithManager with
  | error err =>
    rw [hmanager] at hc
    simp [Outcome.sent, WireGuard.fail] at hc
  | ok manager =>
    rw [hmanager] at hc
    dsimp only at hc
    split at hc
    · simpa [Outcome.sent, Effect.peerConfigs] using hc
    · rw [sent_commit] at hc
      simpa [Effect.peerConfigs] using hc

namespace WireGuard

variable (N env wg users)

theorem has_partial : ∀ c ∈ (wg.syncUsersPartialReconcile N env users).sent,
    c.Has wg.config.getPreSharedKey := by
  intro c hc
  unfold syncUsersPartialReconcile at hc
  dsimp only at hc
  split at hc
  · simp [Outcome.sent, fail] at hc
  · next D hD =>
      split at hc
      · simp [Outcome.sent, fail] at hc
      · obtain ⟨T, -, -, -, hdiff⟩ := exists_targets hD wg.config.getPreSharedKey env.diffOrders
          (wg.buildExistingPeersSubsetForTouched env
            ((normalizeUsers (env.order .lastByEmail) users).map User.email))
        split_ifs at hc
        · exact hdiff.has c (sent_configureThenCommit c hc)
        · rw [sent_commit] at hc
          simp at hc

theorem has_full : ∀ c ∈ (wg.syncUsersFull N env users).sent,
    c.Has wg.config.getPreSharedKey := by
  intro c hc
  unfold syncUsersFull at hc
  dsimp only at hc
  split at hc
  · simp [Outcome.sent, fail] at hc
  · split_ifs at hc
    · simp [Outcome.sent] at hc
    · exact has_buildTargetPeerConfigs _ c (sent_configureThenCommit c hc)

theorem has_restart : ∀ c ∈ (wg.restartLocked N env).sent, c.Has wg.config.getPreSharedKey := by
  intro c hc
  unfold restartLocked at hc
  split at hc
  · simp [Outcome.sent, fail] at hc
  · split at hc
    · simp [Outcome.sent, fail] at hc
    · next configs hconfigs =>
        split at hc
        · simp [Outcome.sent, fail] at hc
        · have hmem : c ∈ configs := by
            dsimp only at hc
            split at hc
            · simpa [Outcome.sent, Effect.peerConfigs] using hc
            · simpa [Outcome.sent, Effect.peerConfigs] using hc
          exact has_buildPeerConfigsForRestart hconfigs c hmem

theorem config_exec (op : Op) : (wg.exec N env op).wg.config = wg.config := by
  cases op with
  | new config users => rfl
  | syncUser user =>
    cases user with
    | none => rfl
    | some u => exact wg.config_syncUsersPartialReconcile N env _
  | syncUsers users => exact wg.config_full N env users
  | updateUsers users => exact wg.config_syncUsersPartialReconcile N env users
  | updateUsersAndRestart users =>
    rcases wg.updateUsersAndRestart_cases N env users with heq | heq
    · exact (congrArg config heq).trans (wg.config_syncUsersPartialReconcile N env users)
    · exact (congrArg config heq).trans
        ((config_restart N env _).trans (wg.config_syncUsersPartialReconcile N env users))
  | restart => exact wg.config_restart N env

/-- **Whatever is sent carries the key the configuration gives**, on every
path. -/
theorem has_exec (op : Op) : ∀ c ∈ (wg.exec N env op).sent, c.Has wg.config.getPreSharedKey := by
  cases op with
  | new config users => simp [exec, Outcome.sent]
  | syncUser user =>
    cases user with
    | none => simp [exec, syncUser, Outcome.sent, fail]
    | some u => exact wg.has_partial N env _
  | syncUsers users => exact wg.has_full N env users
  | updateUsers users => exact wg.has_partial N env users
  | updateUsersAndRestart users =>
    intro c hc
    simp only [exec, updateUsersAndRestart] at hc
    split at hc
    · exact wg.has_partial N env users c hc
    · rw [Outcome.sent, List.flatMap_append, List.mem_append] at hc
      rcases hc with hc | hc
      · exact wg.has_partial N env users c hc
      · have hhas := has_restart N env (wg.syncUsersPartialReconcile N env users).wg c hc
        rwa [config_syncUsersPartialReconcile] at hhas
  | restart => exact wg.has_restart N env

theorem has_startup (cfg : Config) :
    ∀ c ∈ startupPeerConfigs N env cfg users, c.Has cfg.getPreSharedKey := by
  unfold startupPeerConfigs startup
  cases collectDesiredPeers N cfg (normalizeUsers (env.order .lastByEmail) users) with
  | error err => simp
  | ok desiredPeers => exact has_buildTargetPeerConfigs _

end WireGuard

/-! ## A user on its own -/

theorem collectIPs_alone {email : String} (ips : List String) {seen : GoMap String String}
    (hseen : ∀ x e, seen.lookup x = some e → e = email) (nets : List GoNet.IPNet) :
    ∃ res, collectIPs N cfg email ips (seen, nets) = .ok res := by
  induction ips generalizing seen nets with
  | nil => exact ⟨_, rfl⟩
  | cons ip ips ih =>
    unfold collectIPs
    cases N.parseCIDR ip with
    | none => exact ⟨_, rfl⟩
    | some ipNet =>
      dsimp only
      split_ifs
      · exact ih hseen nets
      · have hfree : (seen.lookup (N.string ipNet)).filter (· ≠ email) = none := by
          refine Option.filter_eq_none_iff.2 fun e he => ?_
          simp [hseen _ e he]
        rw [hfree]
        refine ih (fun x e hx => ?_) _
        rw [GoMap.lookup_insert_eq] at hx
        split_ifs at hx
        · exact (Option.some.inj hx).symm
        · exact hseen x e hx

theorem collectDesiredPeers_alone (u : User) :
    ∃ D, collectDesiredPeers N cfg [u] = .ok D := by
  have hone : ∃ acc, collectOne N cfg ⟨∅, ∅⟩ u = .ok acc := by
    unfold collectOne
    split_ifs
    · exact ⟨_, rfl⟩
    · cases parseKey u.getPublicKey with
      | none => exact ⟨_, rfl⟩
      | some key =>
        have halone : ∃ res, collectIPs N cfg u.email u.getPeerIps (∅, []) = .ok res :=
          collectIPs_alone _ (fun x e h => by cases h) []
        obtain ⟨⟨seen, nets⟩, hips⟩ := halone
        dsimp only
        rw [hips]
        cases nets with
        | none => exact ⟨_, rfl⟩
        | some nets =>
          dsimp only
          split_ifs
          · exact ⟨_, rfl⟩
          · exact ⟨_, rfl⟩
  obtain ⟨acc, hacc⟩ := hone
  exact ⟨acc.desiredPeers, by rw [collectDesiredPeers, List.foldlM_cons, hacc]; rfl⟩

/-! ## The key -/

/-- **An addition or an update carries exactly the pre-shared key** of the
configuration. -/
def PeerConfig.CarriesKeyOf (cfg : Config) (c : PeerConfig) : Prop :=
  c.remove = false → ∃ key, parseKey cfg.preSharedKey = some key ∧ c.presharedKey = some key

/-- **The pre-shared key is never dropped**: `New` fails, or whatever is
added or updated by it, and by any operation after it, carries the key. -/
def KeepsPreSharedKey (N : GoNet.Lib) (cfg : Config) : Prop :=
  ∀ env users wg, WireGuard.new N env (some cfg) users = .ok wg →
    (∀ c ∈ WireGuard.startupPeerConfigs N env cfg users, c.CarriesKeyOf cfg) ∧
      ∀ wg', Runs.Path (fun wg (l : Env × Op) => (wg.exec N l.1 l.2).wg) (fun _ _ => True) wg wg' →
        ∀ env op, ∀ c ∈ (wg'.exec N env op).sent, c.CarriesKeyOf cfg

theorem keepsPreSharedKey_of_parses {key : Key} (hkey : cfg.getPreSharedKey = some key)
    (hparse : parseKey cfg.preSharedKey = some key) : KeepsPreSharedKey N cfg := by
  have hcarries : ∀ c : PeerConfig, c.Has cfg.getPreSharedKey → c.CarriesKeyOf cfg := by
    intro c hc hadd
    exact ⟨key, hparse, (hc hadd).trans hkey⟩
  intro env users wg hnew
  refine ⟨fun c hc => hcarries c (WireGuard.has_startup N env users cfg c hc), ?_⟩
  intro wg' hrun env' op c hc
  have hstart : wg.config = cfg := (Option.some.inj (WireGuard.new_ok hnew).1).symm
  have hconfig : wg'.config = cfg :=
    hrun.invariant (I := fun b => b.config = cfg)
      (fun b l hb _ => (b.config_exec N l.1 l.2).trans hb) hstart
  have hhas := wg'.has_exec N env' op c hc
  rw [hconfig] at hhas
  exact hcarries c hhas

/-! ## Somebody is served -/

variable {n : GoNet.IPNet}

theorem contains_self (h : n.IsCidr) : n.contains n.ip = true :=
  h.contains_iff.2 ⟨rfl, rfl⟩

theorem exists_allowed (hN : N.ReadsCIDR) (hreads : ∃ s, N.parseCIDR s ≠ none) (cfg : Config) :
    ∃ s n, N.parseCIDR s = some n ∧
      peerIPAllowedOnInterface n (cfg.interfaceNetworks N) = true := by
  cases hnets : cfg.interfaceNetworks N with
  | nil =>
    obtain ⟨s, hs⟩ := hreads
    obtain ⟨n, hn⟩ := Option.ne_none_iff_exists'.1 hs
    exact ⟨s, n, hn, by simp [peerIPAllowedOnInterface]⟩
  | cons pool pools =>
    have hmem : pool ∈ cfg.interfaceNetworks N := by
      rw [hnets]
      exact List.mem_cons_self ..
    obtain ⟨addr, -, hpool⟩ := mem_interfaceNetworks hmem
    have hself := contains_self (hN.isCidr _ pool hpool)
    exact ⟨_, pool, hpool, by simp [peerIPAllowedOnInterface, hself]⟩

/-- A user with one network, on the interface. -/
def guest (cfg : Config) (publicKey : Key) (ip : String) : User :=
  ⟨"guest", some ⟨publicKey.string, [ip]⟩, [cfg.interfaceName]⟩

theorem guest_getPublicKey (publicKey : Key) (ip : String) :
    (guest cfg publicKey ip).getPublicKey = publicKey.string :=
  rfl

theorem guest_not_skipped (publicKey : Key) (ip : String) :
    (guest cfg publicKey ip).skipped = false := by
  have hkey : publicKey.string ≠ "" := by
    intro hempty
    have hparse := parseKey_string publicKey
    have hnone : parseKey "" = none := by decide
    rw [hempty, hnone] at hparse
    cases hparse
  simp [User.skipped, guest_getPublicKey, hkey]
  simp [guest, User.getPeerIps]

theorem desiredOf_guest {publicKey : Key} {ip : String} (hip : N.parseCIDR ip = some n)
    (hallowed : peerIPAllowedOnInterface n (cfg.interfaceNetworks N) = true) :
    desiredOf N cfg (guest cfg publicKey ip) =
      some ⟨"guest", publicKey.string, publicKey, [n]⟩ := by
  have hnets : netsOf N cfg [ip] = some [n] := by simp [netsOf, hip, hallowed]
  have hincl : shouldIncludeUserInInterface (guest cfg publicKey ip) cfg.interfaceName = true := by
    simp [shouldIncludeUserInInterface, guest]
  unfold desiredOf
  rw [hincl, guest_getPublicKey, parseKey_string]
  have hips : (guest cfg publicKey ip).getPeerIps = [ip] := rfl
  rw [hips, hnets]
  rfl

/-- **A backend for the guest alone**, where nothing fails: it is sent to
the kernel with the key the configuration gives. -/
theorem new_guest (publicKey : Key) {ip : String}
    (hprivate : cfg.getPrivateKey ≠ none) (hip : N.parseCIDR ip = some n)
    (hallowed : peerIPAllowedOnInterface n (cfg.interfaceNetworks N) = true) :
    ∃ wg, WireGuard.new N Env.calm (some cfg) [some (guest cfg publicKey ip)] = .ok wg ∧
      buildAddConfig publicKey [n] cfg.getPreSharedKey ∈
        WireGuard.startupPeerConfigs N Env.calm cfg [some (guest cfg publicKey ip)] := by
  obtain ⟨privateKey, hprivate⟩ := Option.ne_none_iff_exists'.1 hprivate
  have hskip : (guest cfg publicKey ip).skipped = false := guest_not_skipped publicKey ip
  have hlast : lastByEmail [some (guest cfg publicKey ip)] =
      (∅ : GoMap String User).insert "guest" (guest cfg publicKey ip) := by
    show (if (guest cfg publicKey ip).skipped then _ else _) = _
    rw [hskip]
    rfl
  have hnormal : normalizeUsers .given [some (guest cfg publicKey ip)] =
      [guest cfg publicKey ip] := by
    rw [normalizeUsers, hlast]
    rfl
  have halone : ∃ D, collectDesiredPeers N cfg [guest cfg publicKey ip] = .ok D :=
    collectDesiredPeers_alone _
  obtain ⟨D, hD⟩ := halone
  rw [← hnormal] at hD
  obtain ⟨T, hT, -, htargets, -⟩ := exists_targets hD cfg.getPreSharedKey Env.calm.diffOrders ∅
  have htarget : T.lookup publicKey.string = some ⟨"guest", publicKey, [n]⟩ := by
    refine (hT.lookup_iff _ _).2 ⟨⟨"guest", publicKey.string, publicKey, [n]⟩,
      ⟨guest cfg publicKey ip, ?_, desiredOf_guest hip hallowed⟩, rfl, rfl⟩
    rw [hlast]
    exact AList.lookup_insert ..
  have hsome : ∃ wg, WireGuard.new N Env.calm (some cfg) [some (guest cfg publicKey ip)] =
      .ok wg := by
    unfold WireGuard.new WireGuard.startup
    dsimp only
    rw [hprivate, show Env.calm.order .lastByEmail = .given from rfl, hD]
    exact ⟨_, rfl⟩
  obtain ⟨wg, hnew⟩ := hsome
  refine ⟨wg, hnew, ?_⟩
  unfold WireGuard.startupPeerConfigs WireGuard.startup
  rw [show Env.calm.order .lastByEmail = .given from rfl, hD]
  dsimp only
  rw [htargets, buildTargetPeerConfigs_eq hT.routed]
  refine List.mem_filterMap.2 ⟨publicKey.string, ?_, by rw [htarget]; rfl⟩
  exact mem_sortStrings.2 (GoMap.mem_keys_iff.2 ⟨_, htarget⟩)

/-- **A pre-shared key is kept exactly if it can be parsed**, or if there
is no private key, so that every `New` fails. -/
theorem preSharedKey_kept_iff (N : GoNet.Lib) (hN : N.ReadsCIDR)
    (hreads : ∃ s, N.parseCIDR s ≠ none) (cfg : Config) (hset : cfg.preSharedKey ≠ "") :
    KeepsPreSharedKey N cfg ↔
      parseKey cfg.preSharedKey ≠ none ∨ cfg.getPrivateKey = none := by
  have hget : cfg.getPreSharedKey = parseKey cfg.preSharedKey := by
    rw [Config.getPreSharedKey, if_neg hset]
  constructor
  · intro hkeeps
    by_contra hno
    rw [not_or, not_not] at hno
    obtain ⟨hparse, hprivate⟩ := hno
    -- whoever is served is sent to the kernel without a key
    obtain ⟨ip, n, hip, hallowed⟩ := exists_allowed hN hreads cfg
    obtain ⟨wg, hnew, hsent⟩ := new_guest ⟨List.replicate 32 0, rfl⟩ hprivate hip hallowed
    obtain ⟨key, hkey, -⟩ := (hkeeps _ _ wg hnew).1 _ hsent rfl
    rw [hparse] at hkey
    cases hkey
  · rintro (hparse | hprivate)
    · obtain ⟨key, hkey⟩ := Option.ne_none_iff_exists'.1 hparse
      exact keepsPreSharedKey_of_parses (hget.trans hkey) hkey
    · intro env users wg hnew
      unfold WireGuard.new at hnew
      dsimp only at hnew
      rw [hprivate] at hnew
      cases hnew

namespace Demo

def preShared (preSharedKey : String) : Config :=
  { config with preSharedKey := preSharedKey }

end Demo

/-- A key in base64 is kept. -/
theorem preSharedKey_kept_base64 : KeepsPreSharedKey GoNet.std (Demo.preShared (Demo.key 7).string) :=
  (preSharedKey_kept_iff GoNet.std GoNet.std_readsCIDR ⟨"10.0.0.0/8", by decide +kernel⟩
    (Demo.preShared (Demo.key 7).string) (by decide +kernel)).2
    (Or.inl (by decide +kernel))

/-- A key that is too short is not noticed: the backend starts, and
its users have no pre-shared key. -/
theorem preSharedKey_dropped :
    (Demo.preShared "c2VjcmV0").preSharedKey ≠ "" ∧
      (WireGuard.new GoNet.std Env.calm (some (Demo.preShared "c2VjcmV0")) Demo.pair).isOk = true ∧
      (WireGuard.startupPeerConfigs GoNet.std Env.calm (Demo.preShared "c2VjcmV0")
        Demo.pair).map (fun c => (c.remove, c.presharedKey)) = [(false, none), (false, none)] ∧
      ¬ KeepsPreSharedKey GoNet.std (Demo.preShared "c2VjcmV0") := by
  have hok : (WireGuard.new GoNet.std Env.calm (some (Demo.preShared "c2VjcmV0")) Demo.pair).isOk =
      true := by decide +kernel
  have hsent : (WireGuard.startupPeerConfigs GoNet.std Env.calm (Demo.preShared "c2VjcmV0")
      Demo.pair).map (fun c => (c.remove, c.presharedKey)) = [(false, none), (false, none)] := by
    decide +kernel
  refine ⟨by decide, hok, hsent, fun hkeeps => ?_⟩
  cases hnew : WireGuard.new GoNet.std Env.calm (some (Demo.preShared "c2VjcmV0")) Demo.pair with
  | error err =>
    rw [hnew] at hok
    cases hok
  | ok wg =>
    have hmem : (false, (none : Option Key)) ∈ (WireGuard.startupPeerConfigs GoNet.std Env.calm
        (Demo.preShared "c2VjcmV0") Demo.pair).map (fun c => (c.remove, c.presharedKey)) := by
      rw [hsent]
      exact List.mem_cons_self ..
    obtain ⟨c, hc, hadd⟩ := List.mem_map.1 hmem
    obtain ⟨hremove, hnone⟩ := Prod.mk.inj hadd
    obtain ⟨key, -, hkey⟩ := (hkeeps _ _ wg hnew).1 c hc hremove
    rw [hnone] at hkey
    cases hkey

end Wireguard

end NodeAgent
