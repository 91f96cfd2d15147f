import NodeAgent.Wireguard.Model.Backend
import NodeAgent.Wireguard.Helpers.Collect
import NodeAgent.Wireguard.Helpers.Diff
import NodeAgent.Wireguard.Helpers.Store
/-!
# What an operation of the backend can do

Each operation returns an error and leaves the backend as it was, or it
commits the difference it has computed to the kernel, to the store and to
the tracker: one lemma an operation says so, and everything else about
them is read off these.
-/

namespace NodeAgent

namespace Wireguard

/-- The keys `RemoveStats` was called for, in the order of the calls. -/
def Outcome.statsRemoved (out : Outcome) : List String :=
  out.effects.filterMap fun e =>
    match e with
    | .removeStats publicKey => some publicKey
    | .configureDevice _ _ => none

/-- The tracker of a backend changes. -/
def WireGuard.withTracker (wg : WireGuard) (t : Tracker) : WireGuard :=
  { wg with statsTracker := t }

/-- A backend with another store and device, the stats of some keys
removed. -/
def WireGuard.committed (wg : WireGuard) (store : PeerStore × List String) (device : Device) :
    WireGuard :=
  { wg with
    peerStore := store.1
    statsTracker := store.2.foldl Tracker.removeStats wg.statsTracker
    device := device }

/-- **A store and a device have been committed.** -/
structure Outcome.Commits (out : Outcome) (wg : WireGuard) (store : PeerStore × List String)
    (device : Device) : Prop where
  err : out.err = none
  state : out.wg = wg.committed store device
  stats : out.statsRemoved = store.2

/-- **An error, and nothing has changed.** -/
structure Outcome.Refuses (out : Outcome) (wg : WireGuard) : Prop where
  err : out.err ≠ none
  state : out.wg = wg
  stats : out.statsRemoved = []

namespace WireGuard

variable {N : GoNet.Lib} {env : Env} {wg : WireGuard} {users : List (Option User)}

theorem refuses_fail (wg : WireGuard) (err : Err) : (wg.fail err).Refuses wg :=
  ⟨by simp [fail], rfl, rfl⟩

theorem commits_commit (wg : WireGuard) (store : PeerStore × List String) (device : Device)
    {calls : List Effect} (hcalls : ∀ e ∈ calls, ∃ r cs, e = .configureDevice r cs) :
    ({ wg with device := device }.commit store calls).Commits wg store device where
  err := rfl
  state := rfl
  stats := by
    unfold Outcome.statsRemoved commit
    rw [List.filterMap_append, List.filterMap_map]
    have hnone : calls.filterMap (fun e : Effect => match e with
        | .removeStats publicKey => some publicKey
        | .configureDevice _ _ => none) = [] := by
      refine List.filterMap_eq_nil_iff.2 fun e he => ?_
      obtain ⟨r, cs, rfl⟩ := hcalls e he
      rfl
    rw [hnone, List.nil_append]
    exact List.filterMap_some

theorem configureDevice_cases (N : GoNet.Lib) (wg : WireGuard) (manager : Manager)
    (succeeds replacePeers : Bool) (peers : List PeerConfig) :
    (∃ err, wg.configureDevice N manager succeeds replacePeers peers = .error err) ∨
      wg.configureDevice N manager succeeds replacePeers peers =
        .ok (wg.device.configure N replacePeers peers) := by
  unfold configureDevice
  split_ifs
  · exact Or.inl ⟨_, rfl⟩
  · exact Or.inr rfl
  · exact Or.inl ⟨_, rfl⟩

/-- **The kernel first**: if it is not reconfigured, nothing is
committed. -/
theorem configureThenCommit_cases (N : GoNet.Lib) (env : Env) (wg : WireGuard)
    (replacePeers : Bool) (peerConfigs : List PeerConfig) (failed : DeviceErr → Err)
    (store : PeerStore × List String) :
    (wg.configureThenCommit N env replacePeers peerConfigs failed store).Refuses wg ∨
      (wg.configureThenCommit N env replacePeers peerConfigs failed store).Commits wg store
        (wg.device.configure N replacePeers peerConfigs) := by
  unfold configureThenCommit
  cases wg.ensureRunningWithManager with
  | error err => exact Or.inl (refuses_fail wg err)
  | ok manager =>
    dsimp only
    rcases configureDevice_cases N wg manager env.configured replacePeers peerConfigs with
      ⟨err, herr⟩ | hok
    · rw [herr]
      exact Or.inl ⟨by simp, rfl, rfl⟩
    · rw [hok]
      exact Or.inr (commits_commit _ _ _ (by simp))

/-! ## Partial sync -/

/-- The stored peers of the users a list names. -/
def touchedPeers (env : Env) (wg : WireGuard) (users : List (Option User)) : GoMap String PeerInfo :=
  wg.buildExistingPeersSubsetForTouched env
    ((normalizeUsers (env.order .lastByEmail) users).map User.email)

/-- The difference between existing peers and what a list asks for. -/
def diffFor (N : GoNet.Lib) (env : Env) (wg : WireGuard) (E : GoMap String PeerInfo)
    (D : GoMap String DesiredPeer) : SyncDiff :=
  buildSyncDiff N wg.config.getPreSharedKey env.diffOrders E D

/-- **A partial sync** is refused, or commits its difference: the desired
peers were collected, and their keys are not those of others. -/
theorem syncUsersPartialReconcile_cases (N : GoNet.Lib) (env : Env) (wg : WireGuard)
    (users : List (Option User)) :
    (wg.syncUsersPartialReconcile N env users).Refuses wg ∨
      ∃ D, collectDesiredPeers N wg.config (normalizeUsers (env.order .lastByEmail) users) = .ok D ∧
        wg.checkOwners env ((normalizeUsers (env.order .lastByEmail) users).map User.email) D =
          none ∧
        let diff := diffFor N env wg (wg.touchedPeers env users) D
        (wg.syncUsersPartialReconcile N env users).Commits wg
          (wg.peerStore.applyChanges diff.removeKeys diff.upsertPeers)
          (wg.device.configure N false diff.peerConfigs) := by
  unfold syncUsersPartialReconcile
  dsimp only
  cases hcollect : collectDesiredPeers N wg.config
      (normalizeUsers (env.order .lastByEmail) users) with
  | error err => exact Or.inl (refuses_fail wg err)
  | ok D =>
    dsimp only
    cases howned : wg.checkOwners env
        ((normalizeUsers (env.order .lastByEmail) users).map User.email) D with
    | some err => exact Or.inl (refuses_fail wg err)
    | none =>
      dsimp only
      split_ifs with hconfigs
      · rcases configureThenCommit_cases N env wg false _ _ _ with hrefuses | hcommits
        · exact Or.inl hrefuses
        · exact Or.inr ⟨D, rfl, howned, hcommits⟩
      · -- no configuration: the kernel is not called, and would not change
        have hnil : (diffFor N env wg (wg.touchedPeers env users) D).peerConfigs = [] := by
          simpa [diffFor, touchedPeers] using hconfigs
        refine Or.inr ⟨D, rfl, howned, ?_⟩
        rw [hnil]
        exact commits_commit wg _ wg.device (by simp)

/-! ## Full sync -/

/-- The peers of a full sync: the targets a configuration was built for. -/
def validTargets (env : Env) (wg : WireGuard) (T : GoMap String PeerInfo) : List PeerInfo :=
  ((GoMap.range (env.order .valid) T).filter fun p =>
    (buildTargetPeerConfigs wg.config.getPreSharedKey T).2.contains p.1).map Prod.snd

/-- **A full sync** is refused, finds nothing to change, or replaces
everything. -/
theorem syncUsersFull_cases (N : GoNet.Lib) (env : Env) (wg : WireGuard)
    (users : List (Option User)) :
    (wg.syncUsersFull N env users).Refuses wg ∨
      ∃ D, collectDesiredPeers N wg.config (normalizeUsers (env.order .lastByEmail) users) = .ok D ∧
        let diff := diffFor N env wg (wg.buildExistingPeersByKeySnapshot env) D
        diff.changed = false ∧ wg.syncUsersFull N env users = ⟨wg, none, []⟩ ∨
          diff.changed = true ∧
            (wg.syncUsersFull N env users).Commits wg
              (wg.peerStore.replaceAll (env.order .old) (wg.validTargets env diff.targetPeers))
              (wg.device.configure N true
                (buildTargetPeerConfigs wg.config.getPreSharedKey diff.targetPeers).1) := by
  unfold syncUsersFull
  dsimp only
  cases hcollect : collectDesiredPeers N wg.config
      (normalizeUsers (env.order .lastByEmail) users) with
  | error err => exact Or.inl (refuses_fail wg err)
  | ok D =>
    dsimp only
    split_ifs with hchanged
    · exact Or.inr ⟨D, rfl, Or.inl ⟨by simpa [diffFor] using hchanged, rfl⟩⟩
    · rcases configureThenCommit_cases N env wg true _ _ _ with hrefuses | hcommits
      · exact Or.inl hrefuses
      · exact Or.inr ⟨D, rfl, Or.inr ⟨by simpa [diffFor] using hchanged, hcommits⟩⟩

/-! ## Restart -/

/-- **A restart** is refused, or gives the kernel the peers of the store
anew. -/
theorem restartLocked_cases (N : GoNet.Lib) (env : Env) (wg : WireGuard) :
    (wg.restartLocked N env).Refuses wg ∨
      ∃ configs,
        buildPeerConfigsForRestart wg.config.getPreSharedKey
          (wg.peerStore.getAll (env.order .all)) = .ok configs ∧
        (wg.restartLocked N env).wg =
          { wg with device := wg.device.configure N true configs } := by
  unfold restartLocked
  cases wg.config.getPrivateKey with
  | none => exact Or.inl (refuses_fail wg _)
  | some key =>
    dsimp only
    cases buildPeerConfigsForRestart wg.config.getPreSharedKey
        (wg.peerStore.getAll (env.order .all)) with
    | error err => exact Or.inl (refuses_fail wg err)
    | ok configs =>
      dsimp only
      cases wg.ensureRunningWithManager with
      | error err => exact Or.inl (refuses_fail wg err)
      | ok manager =>
        dsimp only
        rcases configureDevice_cases N wg manager env.reconfigured true configs with
          ⟨err, herr⟩ | hok
        · rw [herr]
          exact Or.inl ⟨by simp, rfl, rfl⟩
        · rw [hok]
          exact Or.inr ⟨configs, rfl, rfl⟩

/-! ## The configuration

No operation touches it. -/

section
variable (N : GoNet.Lib) (env : Env) (wg : WireGuard) (users : List (Option User))

theorem config_syncUsersPartialReconcile :
    (wg.syncUsersPartialReconcile N env users).wg.config = wg.config := by
  rcases wg.syncUsersPartialReconcile_cases N env users with hrefuses | ⟨D, -, -, hcommits⟩
  · rw [hrefuses.state]
  · rw [hcommits.state]
    rfl

theorem config_full : (wg.syncUsersFull N env users).wg.config = wg.config := by
  rcases wg.syncUsersFull_cases N env users with hrefuses | ⟨D, -, ⟨-, hout⟩ | ⟨-, hcommits⟩⟩
  · rw [hrefuses.state]
  · rw [hout]
  · rw [hcommits.state]
    rfl

theorem config_restart : (wg.restartLocked N env).wg.config = wg.config := by
  rcases wg.restartLocked_cases N env with hrefuses | ⟨configs, -, hout⟩
  · rw [hrefuses.state]
  · rw [hout]

end

end WireGuard

end Wireguard

end NodeAgent
