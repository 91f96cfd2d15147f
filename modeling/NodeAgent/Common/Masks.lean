import NodeAgent.Common.Networks
/-!
# Networks within networks

A network read from a text has a mask of leading ones (`IsCidr`), and an
address or a mask may be in the long form of IPv4. `Contains` compares the
short forms under the mask, so a network whose address lies in another,
with at least as many ones, lies in it whole: every address of the one is
an address of the other.
-/

namespace GoNet

/-! ## Masks -/

/-- A byte that starts with so many ones. -/
def maskByte (n : ℕ) : UInt8 :=
  UInt8.ofNat (256 - 2 ^ (8 - min 8 n))

/-- `CIDRMask`: the mask of so many ones, in `len` bytes. -/
def cidrMask : ℕ → ℕ → List UInt8
  | _, 0 => []
  | n, len + 1 => maskByte n :: cidrMask (n - 8) len

@[simp] theorem length_cidrMask (n len : ℕ) : (cidrMask n len).length = len := by
  induction len generalizing n with
  | zero => rfl
  | succ len ih => rw [cidrMask, List.length_cons, ih]

theorem maskByte_min (n : ℕ) : maskByte (min 8 n) = maskByte n := by
  simp [maskByte]

theorem bitsOf_maskByte (n : ℕ) :
    bitsOf (maskByte n) = List.replicate (min 8 n) true ++ List.replicate (8 - min 8 n) false := by
  have hall : ∀ m ≤ 8, bitsOf (maskByte m) =
      List.replicate m true ++ List.replicate (8 - m) false := by decide
  rw [← maskByte_min]
  exact hall _ (Nat.min_le_left ..)

theorem bits_cidrMask {n len : ℕ} (h : n ≤ 8 * len) :
    (cidrMask n len).flatMap bitsOf =
      List.replicate n true ++ List.replicate (8 * len - n) false := by
  induction len generalizing n with
  | zero =>
    obtain rfl : n = 0 := by omega
    rfl
  | succ len ih =>
    rw [cidrMask, List.flatMap_cons, bitsOf_maskByte, ih (by omega)]
    rcases Nat.le_total 8 n with hn | hn
    · have hones : n = 8 + (n - 8) := by omega
      rw [Nat.min_eq_left hn, Nat.sub_self, List.replicate_zero, List.append_nil,
        ← List.append_assoc, ← List.replicate_add, ← hones]
      have hzeros : 8 * len - (n - 8) = 8 * (len + 1) - n := by omega
      rw [hzeros]
    · have hzeros : 8 - n + 8 * len = 8 * (len + 1) - n := by omega
      rw [Nat.min_eq_right hn, Nat.sub_eq_zero_of_le hn, List.replicate_zero, List.nil_append,
        Nat.sub_zero, List.append_assoc, ← List.replicate_add, hzeros]

/-- **`Size` counts the ones of a mask.** -/
theorem ones_cidrMask {n len : ℕ} (h : n ≤ 8 * len) : ones (cidrMask n len) = n := by
  unfold ones
  rw [bits_cidrMask h]
  have htake : (List.replicate n true ++ List.replicate (8 * len - n) false).takeWhile id =
      List.replicate n true := by
    rw [List.takeWhile_append_of_pos (by simp)]
    cases 8 * len - n <;> simp [List.replicate_succ]
  simp [htake]

theorem maskByte_and {k j : ℕ} (h : k ≤ j) : maskByte k &&& maskByte j = maskByte k := by
  have hall : ∀ a ≤ 8, ∀ b ≤ 8, a ≤ b → maskByte a &&& maskByte b = maskByte a := by decide
  rw [← maskByte_min k, ← maskByte_min j]
  exact hall _ (Nat.min_le_left ..) _ (Nat.min_le_left ..) (by omega)

/-- An address, or a mask, under a mask. -/
def masked (ip mask : List UInt8) : List UInt8 :=
  List.zipWith (· &&& ·) ip mask

theorem masked_cidrMask {k j : ℕ} (h : k ≤ j) (len : ℕ) :
    masked (cidrMask k len) (cidrMask j len) = cidrMask k len := by
  induction len generalizing k j with
  | zero => rfl
  | succ len ih =>
    have hrest := ih (Nat.sub_le_sub_right h 8)
    rw [masked] at hrest
    rw [masked, cidrMask, cidrMask, List.zipWith_cons_cons, maskByte_and h, hrest]

theorem masked_masked {m M : List UInt8} (h : masked M m = M) (ip : List UInt8) :
    masked (masked ip m) M = masked ip M := by
  unfold masked at h ⊢
  induction M generalizing m ip with
  | nil => simp
  | cons c M ih =>
    cases m with
    | nil => cases h
    | cons b m =>
      rw [List.zipWith_cons_cons, List.cons.injEq] at h
      cases ip with
      | nil => rfl
      | cons a ip =>
        have hbyte : a &&& b &&& c = a &&& c := by
          rw [UInt8.and_assoc, UInt8.and_comm b c, h.1]
        rw [List.zipWith_cons_cons, List.zipWith_cons_cons, List.zipWith_cons_cons,
          ih h.2, hbyte]

/-! ## Networks -/

/-- An address in its short form, if it has one. -/
def short (ip : IP) : IP :=
  (to4 ip).getD ip

/-- **A network as a text gives it**: of four bytes or sixteen, with a
mask of leading ones. -/
structure IPNet.IsCidr (n : IPNet) : Prop where
  family : n.ip.length = 4 ∨ n.ip.length = 16
  mask : ∃ k ≤ 8 * n.ip.length, n.mask = cidrMask k n.ip.length

/-- **Two networks are of one family**: in form, and as IPv4 or not. -/
def IPNet.SameFamily (n pool : IPNet) : Prop :=
  n.ip.length = pool.ip.length ∧ ((to4 n.ip).isSome ↔ (to4 pool.ip).isSome)

/-- The mask of a network for addresses in their short form. -/
def IPNet.shortMask (n : IPNet) : List UInt8 :=
  n.mask.drop (n.ip.length - (short n.ip).length)

theorem length_short {ip : IP} (h : ip.length = 4 ∨ ip.length = 16) :
    (short ip).length = if (to4 ip).isSome then 4 else 16 := by
  unfold short to4
  rcases h with h | h
  · simp [h]
  · by_cases hcut : ip.take 12 = v4InV6Prefix
    · simp [h, hcut]
    · simp [h, hcut]

namespace IPNet.IsCidr

variable {n pool : IPNet}

theorem length_mask (h : n.IsCidr) : n.mask.length = n.ip.length := by
  obtain ⟨k, -, hk⟩ := h.mask
  rw [hk, length_cidrMask]

theorem networkNumberAndMask (h : n.IsCidr) :
    n.networkNumberAndMask = (short n.ip, n.shortMask) := by
  have hmask := h.length_mask
  unfold IPNet.networkNumberAndMask IPNet.shortMask short to4
  rcases h.family with hlen | hlen
  · simp [hlen, hmask]
  · by_cases hcut : n.ip.take 12 = v4InV6Prefix
    · simp [hlen, hmask, hcut]
    · simp [hlen, hmask, hcut]

end IPNet.IsCidr

theorem all_zip_iff {a b m : List UInt8} (h : b.length = a.length) :
    ((a.zip (b.zip m)).all fun p => p.1 &&& p.2.2 == p.2.1 &&& p.2.2) = true ↔
      masked a m = masked b m := by
  unfold masked
  induction a generalizing b m with
  | nil =>
    obtain rfl : b = [] := List.length_eq_zero_iff.1 h
    simp
  | cons x a ih =>
    cases b with
    | nil => cases h
    | cons y b =>
      cases m with
      | nil => simp
      | cons c m =>
        have hrest := ih (b := b) (m := m) (by simpa using h)
        simp only [List.zip_cons_cons, List.all_cons, Bool.and_eq_true, beq_iff_eq,
          List.zipWith_cons_cons, List.cons.injEq, hrest]

namespace IPNet.IsCidr

variable {n pool : IPNet} {ip : IP}

/-- **`Contains`**: under the mask the two read the same. -/
theorem contains_iff (h : n.IsCidr) :
    n.contains ip = true ↔ (short ip).length = (short n.ip).length ∧
      masked (short n.ip) n.shortMask = masked (short ip) n.shortMask := by
  unfold IPNet.contains
  rw [h.networkNumberAndMask]
  dsimp only
  rw [Bool.and_eq_true, beq_iff_eq]
  exact and_congr_right fun hlen => all_zip_iff hlen

theorem masked_shortMask (hn : n.IsCidr) (hpool : pool.IsCidr)
    (hlen : n.ip.length = pool.ip.length) (hshort : (short n.ip).length = (short pool.ip).length)
    (hones : ones pool.mask ≤ ones n.mask) : masked pool.shortMask n.shortMask = pool.shortMask := by
  obtain ⟨j, hj, hmask⟩ := hn.mask
  obtain ⟨k, hk, hpoolMask⟩ := hpool.mask
  rw [hmask, hpoolMask, ones_cidrMask hj, ones_cidrMask hk] at hones
  unfold IPNet.shortMask
  rw [hlen, hshort, masked, ← List.drop_zipWith, hmask, hpoolMask, hlen]
  exact congrArg _ (masked_cidrMask hones _)

/-- **A network lies in another whole** if its address does and it has at
least as many ones. -/
theorem subset (hn : n.IsCidr) (hpool : pool.IsCidr) (hlen : n.ip.length = pool.ip.length)
    (hin : pool.contains n.ip = true) (hones : ones pool.mask ≤ ones n.mask) :
    n.SameFamily pool ∧ ∀ ip, n.contains ip = true → pool.contains ip = true := by
  obtain ⟨hshort, hnumber⟩ := hpool.contains_iff.1 hin
  have hwithin := hn.masked_shortMask hpool hlen hshort hones
  refine ⟨⟨hlen, ?_⟩, fun ip hip => ?_⟩
  · rw [length_short hn.family, length_short hpool.family] at hshort
    split_ifs at hshort with h₁ h₂ h₂
    · exact iff_of_true h₁ h₂
    · exact absurd hshort (by decide)
    · exact absurd hshort (by decide)
    · exact iff_of_false h₁ h₂
  · obtain ⟨hlong, hsame⟩ := hn.contains_iff.1 hip
    refine hpool.contains_iff.2 ⟨hlong.trans hshort, ?_⟩
    calc masked (short pool.ip) pool.shortMask
        = masked (short n.ip) pool.shortMask := hnumber
      _ = masked (masked (short n.ip) n.shortMask) pool.shortMask :=
          (masked_masked hwithin _).symm
      _ = masked (masked (short ip) n.shortMask) pool.shortMask := by rw [hsame]
      _ = masked (short ip) pool.shortMask := masked_masked hwithin _

end IPNet.IsCidr

/-- **What `ParseCIDR` is documented to give**: a network with a mask of
leading ones, and nothing for an empty text. -/
structure Lib.ReadsCIDR (N : Lib) : Prop where
  isCidr : ∀ s n, N.parseCIDR s = some n → n.IsCidr
  empty : N.parseCIDR "" = none

end GoNet
