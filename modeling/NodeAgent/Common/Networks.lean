import Mathlib.Algebra.Group.Nat.Defs
import NodeAgent.Common.Strings
/-!
# IP networks

Go's `net.IPNet`: an address and a mask, as bytes. An IPv4 address has a
form of four bytes and one of sixteen, and most functions take either for
the other. Reading a network from a text and writing it as one are handed
over (`Lib`), so that nothing here depends on how they are spelled.
-/

namespace GoNet

/-- An address: four bytes, or sixteen. -/
abbrev IP := List UInt8

/-- What an IPv4 address starts with in its long form. -/
def v4InV6Prefix : List UInt8 :=
  List.replicate 10 0 ++ [255, 255]

/-- `To4`: the short form of an IPv4 address. -/
def to4 (ip : IP) : Option IP :=
  if ip.length = 4 then some ip
  else if ip.length = 16 ∧ ip.take 12 = v4InV6Prefix then some (ip.drop 12)
  else none

/-- A network. -/
structure IPNet where
  ip : IP
  mask : List UInt8
  deriving DecidableEq

/-- The bits of a byte, the highest first. -/
def bitsOf (b : UInt8) : List Bool :=
  (List.range 8).map fun i => b.toNat.testBit (7 - i)

/-- `IPMask.Size`: the number of leading ones; `0` if a one follows a
zero. -/
def ones (mask : List UInt8) : ℕ :=
  let bits := mask.flatMap bitsOf
  let n := (bits.takeWhile id).length
  if (bits.drop n).any id then 0 else n

/-- The address and mask of a network in one length, both empty where
there is none. -/
def IPNet.networkNumberAndMask (n : IPNet) : IP × List UInt8 :=
  let ip := (to4 n.ip).getD (if n.ip.length = 16 then n.ip else [])
  if n.mask.length = 4 ∧ ip.length = 4 then (ip, n.mask)
  else if n.mask.length = 16 ∧ ip.length = 4 then (ip, n.mask.drop 12)
  else if n.mask.length = 16 ∧ ip.length = 16 then (ip, n.mask)
  else ([], [])

/-- `Contains`. -/
def IPNet.contains (n : IPNet) (ip : IP) : Bool :=
  let (nn, m) := n.networkNumberAndMask
  let ip := (to4 ip).getD ip
  ip.length == nn.length && (nn.zip (ip.zip m)).all fun p => p.1 &&& p.2.2 == p.2.1 &&& p.2.2

/-- How networks are read and written. -/
structure Lib where
  /-- The network `ParseCIDR` gives for a text; `none` is an error. -/
  parseCIDR : String → Option IPNet
  /-- `IPNet.String`. -/
  string : IPNet → String

end GoNet
