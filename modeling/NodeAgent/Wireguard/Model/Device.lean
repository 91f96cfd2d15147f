import NodeAgent.Common.Holdings
import NodeAgent.Wireguard.Model.Peers
/-!
# The kernel's device

What `ConfigureDevice` does to an interface, as far as peers and their
allowed IPs go: a table of which key holds which networks (`Holdings`),
changed one peer configuration after the other. Networks are told apart by
their canonical text.
-/

namespace NodeAgent

namespace Wireguard

/-- `wgtypes.PeerConfig`. -/
structure PeerConfig where
  publicKey : Key
  remove : Bool
  presharedKey : Option Key
  /-- Seconds; `none` leaves it as it is. -/
  persistentKeepaliveInterval : Option ℕ
  replaceAllowedIPs : Bool
  allowedIPs : List GoNet.IPNet

/-- The device: keys and the networks they hold. -/
abbrev Device := Holdings.Table Key String

/-- The networks of a list, as a set. -/
def networkSet (N : GoNet.Lib) (ips : List GoNet.IPNet) : Finset String :=
  (ips.map N.string).toFinset

/-- What a peer configuration does to a device. -/
def PeerConfig.change (N : GoNet.Lib) (c : PeerConfig) : Holdings.Change Key String :=
  if c.remove then .remove c.publicKey
  else .assign c.publicKey (networkSet N c.allowedIPs) c.replaceAllowedIPs

/-- `ConfigureDevice`, where it succeeds. -/
def Device.configure (N : GoNet.Lib) (d : Device) (replacePeers : Bool) (peers : List PeerConfig) :
    Device :=
  (peers.map (PeerConfig.change N)).foldl Holdings.apply (if replacePeers then fun _ => none else d)

/-- A device without peers, as an interface just created is. -/
def Device.fresh : Device :=
  fun _ => none

end Wireguard

end NodeAgent
