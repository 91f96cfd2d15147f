import NodeAgent.Common.Runs
import NodeAgent.Wireguard.Model.Diff
import NodeAgent.Wireguard.Model.Tracker
/-!
# The WireGuard backend

`backend/wireguard`: the operations on a running interface, each run to
its end under the backend's lock, and what they do outside of it, the
calls to the kernel and to the stats tracker. The order of the loops over
maps and the outcome of the calls are the surroundings' (`Env`).
-/

namespace NodeAgent

namespace Wireguard

/-- `lifecycleState`. -/
inductive Lifecycle
  | stopped
  | starting
  | running
  deriving DecidableEq

/-- The interface manager; `client` says whether there is a client to the
kernel. -/
structure Manager where
  client : Bool

/-- **The backend**, with the device it has in the kernel. -/
structure WireGuard where
  config : Config
  state : Lifecycle
  manager : Option Manager
  peerStore : PeerStore
  statsTracker : Tracker
  device : Device

/-- The loops over maps whose order is left open. -/
inductive Site
  /-- `normalizeUsers`, over the last user of each email. -/
  | lastByEmail
  /-- `buildExistingPeersSubsetForTouched`. -/
  | touched
  /-- The check of owners. -/
  | owners
  /-- `buildSyncDiff`, over the desired, the existing and the target
  peers. -/
  | desired
  | existing
  | target
  /-- `GetAll`. -/
  | all
  /-- `syncUsersFull`, over the target peers. -/
  | valid
  /-- `ReplaceAll`, over the old peers. -/
  | old
  deriving DecidableEq

/-- What the surroundings decide. -/
structure Env where
  order : Site → Order String
  /-- Whether `ConfigureDevice` succeeds in a sync. -/
  configured : Bool
  /-- Whether it succeeds in a restart. -/
  reconfigured : Bool
  /-- Whether the manager can be created. -/
  managerCreated : Bool
  /-- Whether the interface can be set up; that its addresses can be parsed
  is a part of it. -/
  initialized : Bool

/-- Surroundings in which everything succeeds. -/
def Env.calm : Env where
  order := fun _ => .given
  configured := true
  reconfigured := true
  managerCreated := true
  initialized := true

def Env.diffOrders (env : Env) : DiffOrders where
  desired := env.order .desired
  existing := env.order .existing
  target := env.order .target

/-- A call out of the backend. -/
inductive Effect
  | configureDevice (replacePeers : Bool) (peers : List PeerConfig)
  | removeStats (publicKey : String)

/-- The peer configurations a call sends to the kernel. -/
def Effect.peerConfigs : Effect → List PeerConfig
  | .configureDevice _ peers => peers
  | .removeStats _ => []

/-- What an operation leaves, the error it returns, and the calls it has
made. -/
structure Outcome where
  wg : WireGuard
  err : Option Err
  effects : List Effect

namespace WireGuard

variable (N : GoNet.Lib) (env : Env)

/-- An operation that returns an error before it has done anything. -/
def fail (wg : WireGuard) (err : Err) : Outcome :=
  ⟨wg, some err, []⟩

/-- `ensureRunningWithManagerLocked`. -/
def ensureRunningWithManager (wg : WireGuard) : Except Err Manager :=
  if wg.state ≠ .running then .error .notStarted
  else
    match wg.manager with
    | none => .error .managerNotInitialized
    | some manager => .ok manager

/-- `ConfigureDevice` through the manager. -/
def configureDevice (wg : WireGuard) (manager : Manager) (succeeds replacePeers : Bool)
    (peers : List PeerConfig) : Except DeviceErr Device :=
  if !manager.client then .error .clientNotInitialized
  else if succeeds then .ok (wg.device.configure N replacePeers peers)
  else .error .configure

/-- Commit a new store, and drop the stats of the keys that went. -/
def commit (wg : WireGuard) (store : PeerStore × List String) (effects : List Effect) : Outcome :=
  ⟨{ wg with
      peerStore := store.1
      statsTracker := store.2.foldl Tracker.removeStats wg.statsTracker },
    none, effects ++ store.2.map .removeStats⟩

/-- The end of both syncs: the kernel is reconfigured, and only if that
succeeds is the new store committed. -/
def configureThenCommit (wg : WireGuard) (replacePeers : Bool) (peerConfigs : List PeerConfig)
    (failed : DeviceErr → Err) (store : PeerStore × List String) : Outcome :=
  match wg.ensureRunningWithManager with
  | .error err => wg.fail err
  | .ok manager =>
    let calls := [Effect.configureDevice replacePeers peerConfigs]
    match wg.configureDevice N manager env.configured replacePeers peerConfigs with
    | .error err => ⟨wg, some (failed err), calls⟩
    | .ok device => { wg with device := device }.commit store calls

/-! ## Partial sync -/

/-- `buildExistingPeersSubsetForTouched`. -/
def buildExistingPeersSubsetForTouched (wg : WireGuard) (touchedEmails : List String) :
    GoMap String PeerInfo :=
  GoMap.insertAll ∅
    ((((env.order .touched).run touchedEmails).filterMap wg.peerStore.getByEmail).map
      fun p => (p.key, p))

/-- The check that no key belongs to a user the list does not touch. -/
def checkOwners (wg : WireGuard) (touchedEmails : List String)
    (desiredPeers : GoMap String DesiredPeer) : Option Err :=
  (GoMap.range (env.order .owners) desiredPeers).findSome? fun p =>
    match wg.peerStore.getEmailMap p.1 with
    | none => none
    | some currentOwner =>
      if currentOwner = p.2.email ∨ touchedEmails.contains currentOwner then none
      else some (.keyOwned p.1 currentOwner)

/-- `syncUsersPartialReconcile`. -/
def syncUsersPartialReconcile (wg : WireGuard) (users : List (Option User)) : Outcome :=
  let normalizedUsers := normalizeUsers (env.order .lastByEmail) users
  let touchedEmails := normalizedUsers.map User.email
  let existingSubset := wg.buildExistingPeersSubsetForTouched env touchedEmails
  match collectDesiredPeers N wg.config normalizedUsers with
  | .error err => wg.fail err
  | .ok desiredPeers =>
    match wg.checkOwners env touchedEmails desiredPeers with
    | some err => wg.fail err
    | none =>
      let diff := buildSyncDiff N wg.config.getPreSharedKey env.diffOrders existingSubset
        desiredPeers
      let store := wg.peerStore.applyChanges diff.removeKeys diff.upsertPeers
      if 0 < diff.peerConfigs.length then
        wg.configureThenCommit N env false diff.peerConfigs .applyPeers store
      else wg.commit store []

/-! ## Full sync -/

/-- `buildExistingPeersByKeySnapshot`. -/
def buildExistingPeersByKeySnapshot (wg : WireGuard) : GoMap String PeerInfo :=
  GoMap.insertAll ∅ ((wg.peerStore.getAll (env.order .all)).map fun p => (p.key, p))

/-- `syncUsersFull`. -/
def syncUsersFull (wg : WireGuard) (users : List (Option User)) : Outcome :=
  let normalizedUsers := normalizeUsers (env.order .lastByEmail) users
  let existingByKey := wg.buildExistingPeersByKeySnapshot env
  match collectDesiredPeers N wg.config normalizedUsers with
  | .error err => wg.fail err
  | .ok desiredPeers =>
    let psk := wg.config.getPreSharedKey
    let diff := buildSyncDiff N psk env.diffOrders existingByKey desiredPeers
    if !diff.changed then ⟨wg, none, []⟩
    else
      let (peerConfigs, appliedKeys) := buildTargetPeerConfigs psk diff.targetPeers
      let validTargetPeers :=
        ((GoMap.range (env.order .valid) diff.targetPeers).filter fun p =>
          appliedKeys.contains p.1).map Prod.snd
      wg.configureThenCommit N env true peerConfigs .applySnapshot
        (wg.peerStore.replaceAll (env.order .old) validTargetPeers)

/-! ## Restart -/

/-- `buildPeerConfigsForRestart`: the configurations of the peers in the
order of their keys; a peer without allowed IPs is an error. -/
def buildPeerConfigsForRestart (psk : Option Key) (peers : List PeerInfo) :
    Except Err (List PeerConfig) :=
  (peers.insertionSort fun p q => p.key ≤ q.key).mapM fun peer =>
    match buildAddConfigFromPeerInfo peer psk with
    | none => .error (.noAllowedIPs peer.email)
    | some config => .ok config

/-- `restartLocked`. -/
def restartLocked (wg : WireGuard) : Outcome :=
  match wg.config.getPrivateKey with
  | none => wg.fail .privateKey
  | some _ =>
    match buildPeerConfigsForRestart wg.config.getPreSharedKey
        (wg.peerStore.getAll (env.order .all)) with
    | .error err => wg.fail err
    | .ok peerConfigs =>
      match wg.ensureRunningWithManager with
      | .error err => wg.fail err
      | .ok manager =>
        let calls := [Effect.configureDevice true peerConfigs]
        match wg.configureDevice N manager env.reconfigured true peerConfigs with
        | .error err => ⟨wg, some (.reconfigure err), calls⟩
        | .ok device => ⟨{ wg with device := device }, none, calls⟩

/-! ## The operations -/

/-- `SyncUser`. -/
def syncUser (wg : WireGuard) (user : Option User) : Outcome :=
  match user with
  | none => wg.fail .userNil
  | some u => wg.syncUsersPartialReconcile N env [some u]

/-- `SyncUsers`. -/
def syncUsers (wg : WireGuard) (users : List (Option User)) : Outcome :=
  wg.syncUsersFull N env users

/-- `UpdateUsers`. -/
def updateUsers (wg : WireGuard) (users : List (Option User)) : Outcome :=
  wg.syncUsersPartialReconcile N env users

/-- `UpdateUsersAndRestart`. -/
def updateUsersAndRestart (wg : WireGuard) (users : List (Option User)) : Outcome :=
  let updated := wg.syncUsersPartialReconcile N env users
  match updated.err with
  | some _ => updated
  | none =>
    let restarted := updated.wg.restartLocked N env
    { restarted with effects := updated.effects ++ restarted.effects }

/-- What `New` works out first: the diff to a store without peers, and the
peers for `InitializeWithPeers` with their keys. -/
def startup (cfg : Config) (users : List (Option User)) :
    Except Err (SyncDiff × List PeerConfig × List String) :=
  match collectDesiredPeers N cfg (normalizeUsers (env.order .lastByEmail) users) with
  | .error err => .error err
  | .ok desiredPeers =>
    let psk := cfg.getPreSharedKey
    let diff := buildSyncDiff N psk env.diffOrders ∅ desiredPeers
    .ok (diff, buildTargetPeerConfigs psk diff.targetPeers)

/-- The peers `New` gives to `InitializeWithPeers` under a configuration,
if it gets so far. -/
def startupPeerConfigs (cfg : Config) (users : List (Option User)) : List PeerConfig :=
  match startup N env cfg users with
  | .error _ => []
  | .ok (_, peerConfigs, _) => peerConfigs

/-- `New`: a backend on an interface created for it. -/
def new (config : Option Config) (users : List (Option User)) : Except Err WireGuard :=
  match config with
  | none => .error .configNil
  | some cfg =>
    match cfg.getPrivateKey with
    | none => .error .invalidPrivateKey
    | some _ =>
      match startup N env cfg users with
      | .error err => .error (.collect err)
      | .ok (diff, peerConfigs, appliedKeys) =>
        if !env.managerCreated then .error .createManager
        else if !env.initialized then .error .initializeInterface
        else
          .ok
            { config := cfg
              state := .running
              manager := some ⟨true⟩
              peerStore := PeerStore.new.init
                (filterUpsertsByAppliedKeys diff.upsertPeers appliedKeys)
              statsTracker := ∅
              -- peers are replaced only if there are some, which on a new
              -- interface is the same
              device := Device.fresh.configure N (0 < peerConfigs.length) peerConfigs }

end WireGuard

/-! ## Runs -/

/-- The operations of a backend. -/
inductive Op
  | new (config : Option Config) (users : List (Option User))
  | syncUser (user : Option User)
  | syncUsers (users : List (Option User))
  | updateUsers (users : List (Option User))
  | updateUsersAndRestart (users : List (Option User))
  | restart

namespace WireGuard

variable (N : GoNet.Lib)

/-- An operation on a backend there is; `new` makes another. -/
def exec (env : Env) (wg : WireGuard) : Op → Outcome
  | .new _ _ => ⟨wg, none, []⟩
  | .syncUser user => wg.syncUser N env user
  | .syncUsers users => wg.syncUsers N env users
  | .updateUsers users => wg.updateUsers N env users
  | .updateUsersAndRestart users => wg.updateUsersAndRestart N env users
  | .restart => wg.restartLocked N env

/-- One step of a caller with at most one backend: a `New` that fails
leaves it with none, and without one nothing else is done. -/
def step (wg : Option WireGuard) (l : Env × Op) : Option WireGuard :=
  match l.2 with
  | .new config users => (new N l.1 config users).toOption
  | op => wg.map fun wg => (wg.exec N l.1 op).wg

end WireGuard

end Wireguard

end NodeAgent
