import NodeAgent.Common.Masks
/-!
# Networks as texts

`net.ParseCIDR` and `IPNet.String` for both families. An IPv6 address is
eight groups of hexadecimal digits; `::` stands for at least one group of
zeros, and the last two groups may be written as an IPv4 address.
-/

namespace GoNet

/-! ## Reading -/

/-- A number in decimal digits. -/
def decimal (cs : List Char) : Option ℕ :=
  if cs ≠ [] ∧ cs.all Char.isDigit then
    some (cs.foldl (fun n c => n * 10 + (c.toNat - '0'.toNat)) 0)
  else none

/-- A byte of a dotted address, without leading zeros. -/
def decimalByte (cs : List Char) : Option UInt8 :=
  match decimal cs with
  | some n => if n ≤ 255 ∧ (cs.length = 1 ∨ cs.head? ≠ some '0') then some (UInt8.ofNat n) else none
  | none => none

/-- The value of a hexadecimal digit. -/
def hexValue (c : Char) : Option ℕ :=
  if c.isDigit then some (c.toNat - '0'.toNat)
  else if 'a' ≤ c ∧ c ≤ 'f' then some (c.toNat - 'a'.toNat + 10)
  else if 'A' ≤ c ∧ c ≤ 'F' then some (c.toNat - 'A'.toNat + 10)
  else none

/-- A group of one to four digits, in two bytes. -/
def hexGroup (cs : List Char) : Option IP :=
  if 1 ≤ cs.length ∧ cs.length ≤ 4 then
    (cs.mapM hexValue).map fun ds =>
      let n := ds.foldl (fun n d => n * 16 + d) 0
      [UInt8.ofNat (n / 256), UInt8.ofNat n]
  else none

/-- A dotted address. -/
def dotted (cs : List Char) : Option IP :=
  ((GoStrings.splitList ['.'] cs).mapM decimalByte).filter fun ip => ip.length = 4

/-- Groups one after the other; the last may be a dotted address where
`tail` says so. -/
def fields (tail : Bool) : List (List Char) → Option IP
  | [] => some []
  | [g] => if tail then (hexGroup g).or (dotted g) else hexGroup g
  | g :: gs => (hexGroup g).bind fun a => (fields tail gs).map (a ++ ·)

/-- The groups on a side of `::`, where there may be none. -/
def side (tail : Bool) (cs : List Char) : Option IP :=
  if cs = [] then some [] else fields tail (GoStrings.splitList [':'] cs)

/-- An IPv6 address, in sixteen bytes. -/
def parseIPv6 (cs : List Char) : Option IP :=
  match GoStrings.splitList [':', ':'] cs with
  | [whole] => (fields true (GoStrings.splitList [':'] whole)).filter fun ip => ip.length = 16
  | [l, r] =>
    match side false l, side true r with
    | some a, some b =>
      if a.length + b.length ≤ 14 then
        some (a ++ List.replicate (16 - (a.length + b.length)) 0 ++ b)
      else none
    | _, _ => none
  | _ => none

/-- An address without a zone: four bytes if it is dotted, else sixteen. -/
def parseAddr (cs : List Char) : Option IP :=
  if cs.contains '%' then none else if cs.contains ':' then parseIPv6 cs else dotted cs

/-- `ParseCIDR`. -/
def parseCIDR (s : String) : Option IPNet :=
  match GoStrings.splitList ['/'] s.toList with
  | [addr, len] =>
    match parseAddr addr, decimal len with
    | some ip, some n =>
      if n ≤ 8 * ip.length then
        some ⟨masked ip (cidrMask n ip.length), cidrMask n ip.length⟩
      else none
    | _, _ => none
  | _ => none

/-! ## Writing -/

/-- The groups of an address. -/
def groups : IP → List ℕ
  | a :: b :: rest => (a.toNat * 256 + b.toNat) :: groups rest
  | _ => []

/-- The first of the longest runs of at least two zero groups: where it
starts, and how long it is. -/
def zeroRun (gs : List ℕ) : ℕ × ℕ :=
  (List.range gs.length).foldl
    (fun best i =>
      let len := ((gs.drop i).takeWhile (· = 0)).length
      if 2 ≤ len ∧ best.2 < len then (i, len) else best) (0, 0)

def hexText (n : ℕ) : String :=
  String.ofList (Nat.toDigits 16 n)

/-- An address of sixteen bytes, its longest run of zeros left out. -/
def string6 (ip : IP) : String :=
  let gs := groups ip
  let (start, len) := zeroRun gs
  if len = 0 then ":".intercalate (gs.map hexText)
  else ":".intercalate ((gs.take start).map hexText) ++ "::" ++
    ":".intercalate ((gs.drop (start + len)).map hexText)

/-- `IPNet.String` of a network with a mask of leading ones: an IPv4
network is written in its short form. -/
def IPNet.string (n : IPNet) : String :=
  let (ip, mask) := n.networkNumberAndMask
  (if ip.length = 4 then ".".intercalate (ip.map fun b => toString b.toNat) else string6 ip) ++
    "/" ++ toString (ones mask)

/-- The library, for both families. -/
def std : Lib where
  parseCIDR := parseCIDR
  string := IPNet.string

/-! ## What is read -/

theorem length_parseIPv6 {cs : List Char} {ip : IP} (h : parseIPv6 cs = some ip) :
    ip.length = 16 := by
  unfold parseIPv6 at h
  split at h
  · exact of_decide_eq_true (Option.filter_eq_some_iff.1 h).2
  · split at h
    · next a b _ _ =>
        split_ifs at h with hlen
        rw [← Option.some.inj h, List.length_append, List.length_append, List.length_replicate]
        omega
    · cases h
  · cases h

theorem length_parseAddr {cs : List Char} {ip : IP} (h : parseAddr cs = some ip) :
    ip.length = 4 ∨ ip.length = 16 := by
  unfold parseAddr at h
  split_ifs at h
  · exact Or.inr (length_parseIPv6 h)
  · exact Or.inl (of_decide_eq_true (Option.filter_eq_some_iff.1 h).2)

/-- **The library reads networks with masks of leading ones.** -/
theorem std_readsCIDR : std.ReadsCIDR where
  isCidr := by
    intro s n h
    change parseCIDR s = some n at h
    unfold parseCIDR at h
    split at h
    · split at h
      · next ip k hip _ =>
          split_ifs at h with hk
          have hlen : (masked ip (cidrMask k ip.length)).length = ip.length := by simp [masked]
          rw [← Option.some.inj h]
          exact ⟨by simpa only [hlen] using length_parseAddr hip,
            ⟨k, by simpa only [hlen] using hk, by simp only [hlen]⟩⟩
      · cases h
    · cases h
  empty := by decide

example : std.parseCIDR "::ffff:10.0.0.7/120" =
    some ⟨v4InV6Prefix ++ [10, 0, 0, 0], cidrMask 120 16⟩ := by decide +kernel

example : (std.parseCIDR "FD00:0:0:1::2/64").map std.string = some "fd00:0:0:1::/64" := by
  decide +kernel

end GoNet
