import NodeAgent.Wireguard.Model.Device
import Mathlib.Data.List.Sort
/-!
# From users to peer configurations

`backend/wireguard/user_common.go`: which peers a list of users asks for,
and the difference between the peers there are and those, as removals and
upserts of the store and as a batch for the kernel. Desired peers are kept
under the key *as the user spells it*, stored peers under the canonical
spelling, and the difference compares the two.
-/

namespace NodeAgent

namespace Wireguard

/-! ## Users -/

/-- A user's WireGuard settings. -/
structure Settings where
  publicKey : String
  peerIps : List String
  deriving DecidableEq

/-- A user, as far as this backend reads one. -/
structure User where
  email : String
  /-- `GetProxies().GetWireguard()`. -/
  wireguard : Option Settings
  inbounds : List String
  deriving DecidableEq

namespace User

def getPublicKey (u : User) : String :=
  (u.wireguard.map Settings.publicKey).getD ""

def getPeerIps (u : User) : List String :=
  (u.wireguard.map Settings.peerIps).getD []

/-- A user that is passed over: no email, no settings, no key or no IPs. -/
def skipped (u : User) : Bool :=
  u.email = "" || u.wireguard.isNone || u.getPublicKey = "" || u.getPeerIps.length = 0

end User

/-- The last user of each email, of those not passed over. -/
def lastByEmail (users : List (Option User)) : GoMap String User :=
  users.foldl
    (fun m user =>
      match user with
      | none => m
      | some u => if u.skipped then m else m.insert u.email u) ∅

/-- `normalizeUsers`. -/
def normalizeUsers (o : Order String) (users : List (Option User)) : List User :=
  (GoMap.range o (lastByEmail users)).map Prod.snd

/-! ## Errors -/

/-- Why the kernel was not reconfigured. -/
inductive DeviceErr
  /-- "wgctrl client is not initialized" -/
  | clientNotInitialized
  /-- The error of `ConfigureDevice`. -/
  | configure
  deriving DecidableEq

/-- The errors of the backend, with the data their texts show. -/
inductive Err
  /-- "user is nil" -/
  | userNil
  /-- "duplicate wireguard allowed IP %s assigned to users %s and %s" -/
  | duplicateIP (ip existingEmail email : String)
  /-- "wireguard public key %s is assigned to multiple users: %s and %s" -/
  | keyShared (publicKey existingEmail email : String)
  /-- "wireguard public key %s is already assigned to user %s" -/
  | keyOwned (key currentOwner : String)
  /-- "wireguard not started" -/
  | notStarted
  /-- "wireguard manager not initialized" -/
  | managerNotInitialized
  /-- "failed to apply peer changes: %w" -/
  | applyPeers (err : DeviceErr)
  /-- "failed to apply full peer snapshot: %w" -/
  | applySnapshot (err : DeviceErr)
  /-- "failed to get private key: %w" -/
  | privateKey
  /-- "failed to build restart peer configs: peer %s has no allowed IPs" -/
  | noAllowedIPs (email : String)
  /-- "failed to reconfigure interface during restart: %w" -/
  | reconfigure (err : DeviceErr)
  /-- "wireguard config string must not be empty or nil" -/
  | configNil
  /-- "invalid wireguard private key: %w" -/
  | invalidPrivateKey
  /-- "failed to collect desired peers: %w" -/
  | collect (err : Err)
  /-- "failed to create manager: %w" -/
  | createManager
  /-- "failed to initialize interface: %w" -/
  | initializeInterface
  deriving DecidableEq

/-! ## The peers a list asks for -/

/-- A peer a user asks for. -/
structure DesiredPeer where
  email : String
  /-- The key as the user spells it. -/
  publicKey : String
  parsedKey : Key
  allowedIPNets : List GoNet.IPNet
  deriving DecidableEq

/-- The peer it becomes. -/
def DesiredPeer.peerInfo (d : DesiredPeer) : PeerInfo where
  email := d.email
  publicKey := d.parsedKey
  allowedIPs := d.allowedIPNets

/-- `peerIPAllowedOnInterface`: within one of the interface's networks,
if it has any. -/
def peerIPAllowedOnInterface (peerNet : GoNet.IPNet) (ifaceNets : List GoNet.IPNet) : Bool :=
  ifaceNets.length = 0 || ifaceNets.any fun pool =>
    peerNet.ip.length = pool.ip.length && pool.contains peerNet.ip &&
      GoNet.ones pool.mask ≤ GoNet.ones peerNet.mask

/-- `shouldIncludeUserInInterface`. -/
def shouldIncludeUserInInterface (u : User) (interfaceName : String) : Bool :=
  u.inbounds.contains interfaceName

section
variable (N : GoNet.Lib) (cfg : Config)

/-- The loop of `collectDesiredPeers` over the IPs of a user: who has been
seen with which network, and the user's networks, `none` once an IP is
invalid. -/
def collectIPs (email : String) :
    List String → GoMap String String × List GoNet.IPNet →
      Except Err (GoMap String String × Option (List GoNet.IPNet))
  | [], (seenIPs, nets) => .ok (seenIPs, some nets)
  | peerIp :: rest, (seenIPs, nets) =>
    match N.parseCIDR peerIp with
    -- what has been seen of the user so far stays seen
    | none => .ok (seenIPs, none)
    | some ipNet =>
      if !peerIPAllowedOnInterface ipNet (cfg.interfaceNetworks N) then
        collectIPs email rest (seenIPs, nets)
      else
        let canonicalIP := N.string ipNet
        match (seenIPs.lookup canonicalIP).filter (· ≠ email) with
        | some existingEmail => .error (.duplicateIP canonicalIP existingEmail email)
        | none => collectIPs email rest (seenIPs.insert canonicalIP email, nets ++ [ipNet])

/-- The desired peers so far, and who has been seen with which network. -/
structure Collected where
  desiredPeers : GoMap String DesiredPeer
  seenIPs : GoMap String String

/-- One turn of the loop of `collectDesiredPeers`. -/
def collectOne (acc : Collected) (u : User) : Except Err Collected :=
  if !shouldIncludeUserInInterface u cfg.interfaceName then .ok acc
  else
    match parseKey u.getPublicKey with
    | none => .ok acc
    | some parsedKey =>
      match collectIPs N cfg u.email u.getPeerIps (acc.seenIPs, []) with
      | .error err => .error err
      | .ok (seenIPs, none) => .ok { acc with seenIPs := seenIPs }
      | .ok (seenIPs, some nets) =>
        if nets.length = 0 then .ok { acc with seenIPs := seenIPs }
        else
          match (acc.desiredPeers.lookup u.getPublicKey).filter (·.email ≠ u.email) with
          | some existing => .error (.keyShared u.getPublicKey existing.email u.email)
          | none =>
            .ok ⟨acc.desiredPeers.insert u.getPublicKey
              ⟨u.email, u.getPublicKey, parsedKey, nets⟩, seenIPs⟩

/-- `collectDesiredPeers`: the desired peers, by key as spelled. -/
def collectDesiredPeers (users : List User) : Except Err (GoMap String DesiredPeer) :=
  (users.foldlM (collectOne N cfg) ⟨∅, ∅⟩).map Collected.desiredPeers

end

/-! ## The difference -/

/-- `buildAddConfig`. -/
def buildAddConfig (publicKey : Key) (allowedIPs : List GoNet.IPNet) (presharedKey : Option Key) :
    PeerConfig where
  publicKey := publicKey
  remove := false
  presharedKey := presharedKey
  persistentKeepaliveInterval := some 0
  replaceAllowedIPs := false
  allowedIPs := allowedIPs

/-- `buildRemoveConfig`. -/
def buildRemoveConfig (publicKey : Key) : PeerConfig where
  publicKey := publicKey
  remove := true
  presharedKey := none
  persistentKeepaliveInterval := none
  replaceAllowedIPs := false
  allowedIPs := []

/-- `buildAddConfigFromPeerInfo`; without allowed IPs there is an error. -/
def buildAddConfigFromPeerInfo (peer : PeerInfo) (presharedKey : Option Key) : Option PeerConfig :=
  if peer.allowedIPs.length = 0 then none
  else some (buildAddConfig peer.publicKey peer.allowedIPs presharedKey)

/-- `sort.Strings`. -/
def sortStrings (l : List String) : List String :=
  l.insertionSort (· ≤ ·)

/-- `buildRemoveConfigsForPeers`; a key that does not parse is passed
over. -/
def buildRemoveConfigsForPeers (removeSet : GoMap String PeerInfo) :
    List String × List PeerConfig :=
  let sortedKeys := sortStrings removeSet.keys
  (sortedKeys.filter fun key => (parseKey key).isSome,
    sortedKeys.filterMap fun key => (parseKey key).map buildRemoveConfig)

/-- Whether two lists of networks read the same, one by one. -/
def ipNetsEqual (N : GoNet.Lib) (a b : List GoNet.IPNet) : Bool :=
  a.length = b.length && (a.zip b).all fun p => N.string p.1 = N.string p.2

/-- What the two loops of `buildSyncDiff` build up. -/
structure DiffAcc where
  removeSet : GoMap String PeerInfo
  upsertByKey : GoMap String PeerInfo
  peerConfigs : List PeerConfig

/-- `SyncDiff`. -/
structure SyncDiff where
  removeKeys : List String
  upsertPeers : List PeerInfo
  peerConfigs : List PeerConfig
  targetPeers : GoMap String PeerInfo
  changed : Bool

section
variable (N : GoNet.Lib) (presharedKey : Option Key)

/-- One turn of the loop over the existing peers: it goes, it stays as it
is, or it is updated. -/
def diffExisting (targetPeers : GoMap String PeerInfo) (acc : DiffAcc) (entry : String × PeerInfo) :
    DiffAcc :=
  let (key, existing) := entry
  match targetPeers.lookup key with
  | none => { acc with removeSet := acc.removeSet.insert key existing }
  | some target =>
    let ipnetsEqual := ipNetsEqual N existing.allowedIPs target.allowedIPs
    if existing.email ≠ target.email ∨ !ipnetsEqual then
      if !ipnetsEqual then
        match buildAddConfigFromPeerInfo target presharedKey with
        | none => acc
        | some config =>
          { acc with
            peerConfigs := acc.peerConfigs ++ [{ config with replaceAllowedIPs := true }]
            upsertByKey := acc.upsertByKey.insert key target }
      else { acc with upsertByKey := acc.upsertByKey.insert key target }
    else acc

/-- One turn of the loop over the targets: those that are new. -/
def diffTarget (existingPeers : GoMap String PeerInfo) (acc : DiffAcc) (entry : String × PeerInfo) :
    DiffAcc :=
  let (key, target) := entry
  if (existingPeers.lookup key).isSome then acc
  else
    match buildAddConfigFromPeerInfo target presharedKey with
    | none => acc
    | some config =>
      { acc with
        upsertByKey := acc.upsertByKey.insert key target
        peerConfigs := acc.peerConfigs ++ [config] }

/-- The orders of the three loops of `buildSyncDiff` over maps. -/
structure DiffOrders where
  desired : Order String
  existing : Order String
  target : Order String

/-- `buildSyncDiff`. It returns no errors. -/
def buildSyncDiff (o : DiffOrders) (existingPeers : GoMap String PeerInfo)
    (desiredPeers : GoMap String DesiredPeer) : SyncDiff :=
  let targetPeers := GoMap.insertAll ∅
    ((GoMap.range o.desired desiredPeers).map fun p => (p.1, p.2.peerInfo))
  let acc := (GoMap.range o.existing existingPeers).foldl
    (diffExisting N presharedKey targetPeers) ⟨∅, ∅, []⟩
  let acc := (GoMap.range o.target targetPeers).foldl (diffTarget presharedKey existingPeers) acc
  let (removeKeys, removeConfigs) := buildRemoveConfigsForPeers acc.removeSet
  -- adds and updates come before the removals
  let peerConfigs := acc.peerConfigs ++ removeConfigs
  let upsertPeers := (sortStrings acc.upsertByKey.keys).filterMap acc.upsertByKey.lookup
  { removeKeys := removeKeys
    upsertPeers := upsertPeers
    peerConfigs := peerConfigs
    targetPeers := targetPeers
    changed := 0 < removeKeys.length || 0 < upsertPeers.length }

/-- `buildTargetPeerConfigs`: the configurations of the targets, and the
keys they were built for. -/
def buildTargetPeerConfigs (targetPeers : GoMap String PeerInfo) : List PeerConfig × List String :=
  (sortStrings targetPeers.keys).foldl
    (fun acc key =>
      match (targetPeers.lookup key).bind (buildAddConfigFromPeerInfo · presharedKey) with
      | none => acc
      | some config => (acc.1 ++ [config], acc.2 ++ [key])) ([], [])

end

/-- `filterUpsertsByAppliedKeys`. -/
def filterUpsertsByAppliedKeys (upserts : List PeerInfo) (appliedKeys : List String) :
    List PeerInfo :=
  if appliedKeys.length = upserts.length then upserts
  else upserts.filter fun p => appliedKeys.contains p.key

end Wireguard

end NodeAgent
