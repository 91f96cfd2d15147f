import NodeAgent.Common.Base64
import NodeAgent.Common.Maps
import NodeAgent.Common.Networks
/-!
# WireGuard peers, and the store of them

`backend/wireguard/config.go` and `peer_store.go`: keys as `wgtypes` reads
and writes them, the peers a backend has put into the kernel, and the
store that keeps them under their keys, with an index from emails. A key
is stored under its canonical spelling, the one `Key.string` writes;
`parseKey` reads others too.
-/

namespace NodeAgent

namespace Wireguard

/-! ## Keys -/

/-- `wgtypes.Key`: thirty-two bytes. -/
structure Key where
  bytes : List UInt8
  size : bytes.length = 32
  deriving DecidableEq

/-- `Key.String`: standard base64. -/
def Key.string (k : Key) : String :=
  Base64.encodeToString k.bytes

/-- `wgtypes.ParseKey`. -/
def parseKey (s : String) : Option Key :=
  match Base64.decodeString s with
  | none => none
  | some bs => if h : bs.length = 32 then some ⟨bs, h⟩ else none

@[simp] theorem parseKey_string (k : Key) : parseKey k.string = some k := by
  simp [parseKey, Key.string, Base64.decodeString_encodeToString, k.size]

theorem Key.string_injective : Function.Injective Key.string := by
  intro k k' h
  have hparse := parseKey_string k
  rw [h, parseKey_string] at hparse
  exact (Option.some.inj hparse).symm

/-! ## Configuration -/

/-- The configuration of an interface. -/
structure Config where
  interfaceName : String
  privateKey : String
  preSharedKey : String
  listenPort : ℕ
  address : List String

namespace Config

/-- `GetPrivateKey`; `none` is an error. The parsed key is cached, which
changes nothing of what is returned. -/
def getPrivateKey (c : Config) : Option Key :=
  if c.privateKey = "" then none else parseKey c.privateKey

/-- The key of `psk, _ := GetPreSharedKey()`: no key where there is none,
and none where it cannot be parsed. -/
def getPreSharedKey (c : Config) : Option Key :=
  if c.preSharedKey = "" then none else parseKey c.preSharedKey

/-- The networks of the interface's addresses, those that parse. -/
def interfaceNetworks (N : GoNet.Lib) (c : Config) : List GoNet.IPNet :=
  c.address.filterMap fun addr =>
    let addr := GoStrings.trimSpace addr
    if addr = "" then none else N.parseCIDR addr

end Config

/-! ## Peers -/

/-- A peer as the backend has put it into the kernel. -/
structure PeerInfo where
  email : String
  publicKey : Key
  allowedIPs : List GoNet.IPNet
  deriving DecidableEq

/-- What is stored under: the canonical spelling of its key. -/
def PeerInfo.key (p : PeerInfo) : String :=
  p.publicKey.string

/-- The networks of a peer, as they are told apart. -/
def PeerInfo.networks (N : GoNet.Lib) (p : PeerInfo) : List String :=
  p.allowedIPs.map N.string

/-- **The peer store**: peers by key, keys by email. A peer sits under its
own key. -/
structure PeerStore where
  peers : GoMap String PeerInfo
  emailToKey : GoMap String String
  keyed : ∀ k p, peers.lookup k = some p → p.key = k

namespace PeerStore

/-- `NewPeerStore`. -/
def new : PeerStore :=
  ⟨∅, ∅, fun _ _ h => by simp at h⟩

/-- Put a peer under its key and index its email. -/
def put (ps : PeerStore) (p : PeerInfo) : PeerStore where
  peers := ps.peers.insert p.key p
  emailToKey := ps.emailToKey.insert p.email p.key
  keyed := by
    intro k q h
    rw [GoMap.lookup_insert_eq] at h
    split_ifs at h with hk
    · rw [← Option.some.inj h, hk]
    · exact ps.keyed k q h

/-- Take the peer under a key out, and an email off the index. -/
def delete (ps : PeerStore) (key email : Option String) : PeerStore where
  peers := GoMap.eraseKeys ps.peers key.toList
  emailToKey := GoMap.eraseKeys ps.emailToKey email.toList
  keyed := by
    intro k q h
    rw [GoMap.lookup_eraseKeys] at h
    split_ifs at h
    exact ps.keyed k q h

/-- `Init`, and the new maps of `ReplaceAll`: one peer after the other. -/
def init (ps : PeerStore) (peers : List PeerInfo) : PeerStore :=
  peers.foldl put ps

/-- One removal of `ApplyChanges`; the keys removed so far beside the
store. -/
def removeOne (acc : PeerStore × List String) (key : String) : PeerStore × List String :=
  match acc.1.peers.lookup key with
  | none => acc
  | some peer => (acc.1.delete (some key) (some peer.email), acc.2 ++ [key])

/-- One upsert of `ApplyChanges`: the email leaves its old key, and
whoever had the new one loses it. -/
def upsertOne (ps : PeerStore) (p : PeerInfo) : PeerStore :=
  let oldKey := (ps.emailToKey.lookup p.email).filter (· ≠ p.key)
  let ps := ps.delete oldKey none
  let owner := ((ps.peers.lookup p.key).map PeerInfo.email).filter (· ≠ p.email)
  (ps.delete none owner).put p

/-- One round of the loop over `upsertPeers`: a nil pointer is skipped. -/
def upsertPointer (ps : PeerStore) : Option PeerInfo → PeerStore
  | none => ps
  | some p => ps.upsertOne p

/-- `ApplyChanges`: the store, and the keys removed from it. -/
def applyPointers (ps : PeerStore) (removeKeys : List String)
    (upsertPeers : List (Option PeerInfo)) : PeerStore × List String :=
  let (ps, removed) := removeKeys.foldl removeOne (ps, [])
  (upsertPeers.foldl upsertPointer ps, removed)

/-- `ApplyChanges` as the syncs call it, with no nil pointers. -/
def applyChanges (ps : PeerStore) (removeKeys : List String) (upsertPeers : List PeerInfo) :
    PeerStore × List String :=
  ps.applyPointers removeKeys (upsertPeers.map some)

theorem applyChanges_eq (ps : PeerStore) (removeKeys : List String) (upsertPeers : List PeerInfo) :
    ps.applyChanges removeKeys upsertPeers =
      (upsertPeers.foldl upsertOne (removeKeys.foldl removeOne (ps, [])).1,
        (removeKeys.foldl removeOne (ps, [])).2) := by
  simp only [applyChanges, applyPointers, List.foldl_map]
  rfl

/-- `ReplaceAll`: a new store, and the keys of the old one that are not in
it. -/
def replaceAll (o : Order String) (ps : PeerStore) (peers : List PeerInfo) :
    PeerStore × List String :=
  let ps' := new.init peers
  (ps', ((GoMap.range o ps.peers).map Prod.fst).filter fun k => (ps'.peers.lookup k).isNone)

/-- `GetByEmail`. -/
def getByEmail (ps : PeerStore) (email : String) : Option PeerInfo :=
  (ps.emailToKey.lookup email).bind ps.peers.lookup

/-- `GetAll`. -/
def getAll (o : Order String) (ps : PeerStore) : List PeerInfo :=
  (GoMap.range o ps.peers).map Prod.snd

/-- `GetEmailMap`, looked up in. -/
def getEmailMap (ps : PeerStore) (key : String) : Option String :=
  (ps.peers.lookup key).map PeerInfo.email

end PeerStore

end Wireguard

end NodeAgent
