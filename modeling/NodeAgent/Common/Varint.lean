import Mathlib.Algebra.Order.Ring.Nat
import Mathlib.Data.List.Infix
import Mathlib.Tactic.Ring
/-!
# Varints, and frames with a length in front

Numbers as `encoding/binary` writes and reads them: seven bits a byte, the
lowest first, and the top bit of every byte but the last set. Input that
ends inside a number is told apart from input that ends before one. A frame
is a payload behind its length.
-/

namespace Varint

/-- How a read fails. -/
inductive ReadErr
  /-- `io.EOF` -/
  | eof
  /-- `io.ErrUnexpectedEOF` -/
  | unexpectedEOF
  /-- "binary: varint overflows a 64-bit integer" -/
  | overflow
  /-- Another error of the reader underneath. -/
  | reader
  deriving DecidableEq

/-- What the end of the input is, once some of what is read was there. -/
def ReadErr.inside : ReadErr → ReadErr
  | eof => unexpectedEOF
  | err => err

/-- `binary.AppendUvarint`. -/
def putUvarint (n : ℕ) : List UInt8 :=
  if n < 128 then [UInt8.ofNat n] else UInt8.ofNat (n % 128 + 128) :: putUvarint (n / 128)
termination_by n
decreasing_by omega

/-- The loop of `binary.ReadUvarint`, with `i` bytes read so far that come
to `x`; `stop` is the error at the end of the input. The bits of a byte
and those of `x` do not overlap, so they are added. -/
def readUvarintFrom (stop : ReadErr) : List UInt8 → ℕ → ℕ → Except ReadErr (ℕ × List UInt8)
  | bytes, i, x =>
    if 10 ≤ i then .error .overflow
    else
      match bytes with
      | [] => .error (if 0 < i then stop.inside else stop)
      | b :: rest =>
        if b.toNat < 128 then
          if i = 9 ∧ 1 < b.toNat then .error .overflow
          else .ok (x + b.toNat * 2 ^ (7 * i), rest)
        else readUvarintFrom stop rest (i + 1) (x + b.toNat % 128 * 2 ^ (7 * i))

/-- `binary.ReadUvarint`: the number, and the input after it. -/
def readUvarint (stop : ReadErr) (bytes : List UInt8) : Except ReadErr (ℕ × List UInt8) :=
  readUvarintFrom stop bytes 0 0

/-- `io.ReadFull`: so many bytes, and the input after them. -/
def readFull (stop : ReadErr) (n : ℕ) (bytes : List UInt8) :
    Except ReadErr (List UInt8 × List UInt8) :=
  if n ≤ bytes.length then .ok (bytes.take n, bytes.drop n)
  else .error (if 0 < bytes.length then stop.inside else stop)

variable {n : ℕ} {bytes rest : List UInt8} {stop : ReadErr}

theorem putUvarint_of_lt (h : n < 128) : putUvarint n = [UInt8.ofNat n] := by
  rw [putUvarint, if_pos h]

theorem putUvarint_of_ge (h : 128 ≤ n) :
    putUvarint n = UInt8.ofNat (n % 128 + 128) :: putUvarint (n / 128) := by
  rw [putUvarint, if_neg (Nat.not_lt.2 h)]

theorem putUvarint_ne_nil (n : ℕ) : putUvarint n ≠ [] := by
  rw [putUvarint]
  split_ifs
  · exact List.cons_ne_nil _ _
  · exact List.cons_ne_nil _ _

theorem toNat_ofNat_of_lt (h : n < 256) : (UInt8.ofNat n).toNat = n := by
  rw [UInt8.toNat_ofNat', Nat.mod_eq_of_lt h]

theorem div_lt_of_ge {i : ℕ} (hi : i < 10) (hn : n < 2 ^ (64 - 7 * i)) (hge : 128 ≤ n) :
    i + 1 < 10 ∧ n / 128 < 2 ^ (64 - 7 * (i + 1)) := by
  have hnine : i < 9 := by
    rcases Nat.lt_succ_iff_lt_or_eq.1 hi with hlt | rfl
    · exact hlt
    · exact absurd hn (Nat.not_lt.2 (le_trans (by decide) hge))
  have hsplit : 64 - 7 * i = 64 - 7 * (i + 1) + 7 := by omega
  rw [hsplit, pow_add] at hn
  exact ⟨by omega, (Nat.div_lt_iff_lt_mul (by decide)).2 hn⟩

theorem readUvarintFrom_putUvarint (stop : ReadErr) (rest : List UInt8) {i : ℕ} (hi : i < 10)
    (hn : n < 2 ^ (64 - 7 * i)) (x : ℕ) :
    readUvarintFrom stop (putUvarint n ++ rest) i x = .ok (x + n * 2 ^ (7 * i), rest) := by
  induction n using Nat.strongRecOn generalizing i x with
  | ind n ih =>
    rcases Nat.lt_or_ge n 128 with hlt | hge
    · rw [putUvarint_of_lt hlt, List.singleton_append, readUvarintFrom,
        if_neg (Nat.not_le.2 hi)]
      simp only [toNat_ofNat_of_lt (show n < 256 by omega), if_pos hlt]
      have hfits : ¬ (i = 9 ∧ 1 < n) := by
        rintro ⟨rfl, hone⟩
        exact absurd hn (Nat.not_lt.2 hone)
      rw [if_neg hfits]
    · obtain ⟨hnext, hdiv⟩ := div_lt_of_ge hi hn hge
      have hhead : (UInt8.ofNat (n % 128 + 128)).toNat = n % 128 + 128 :=
        toNat_ofNat_of_lt (by omega)
      rw [putUvarint_of_ge hge, List.cons_append, readUvarintFrom, if_neg (Nat.not_le.2 hi)]
      simp only [hhead, if_neg (show ¬ n % 128 + 128 < 128 by omega)]
      rw [ih (n / 128) (by omega) hnext hdiv]
      have hlow : (n % 128 + 128) % 128 = n % 128 := by omega
      have hvalue : n * 2 ^ (7 * i) =
          n % 128 * 2 ^ (7 * i) + n / 128 * 2 ^ (7 * (i + 1)) := by
        have hpow : 2 ^ (7 * (i + 1)) = 128 * 2 ^ (7 * i) := by
          rw [Nat.mul_add, pow_add, Nat.mul_comm]
          rfl
        calc n * 2 ^ (7 * i) = (n % 128 + 128 * (n / 128)) * 2 ^ (7 * i) := by
              rw [Nat.mod_add_div]
          _ = n % 128 * 2 ^ (7 * i) + n / 128 * 2 ^ (7 * (i + 1)) := by
              rw [hpow]
              ring
      rw [hlow, Nat.add_assoc, ← hvalue]

/-- **A number is read back**, whatever comes after it. -/
theorem readUvarint_putUvarint (stop : ReadErr) (rest : List UInt8) (hn : n < 2 ^ 64) :
    readUvarint stop (putUvarint n ++ rest) = .ok (n, rest) := by
  rw [readUvarint, readUvarintFrom_putUvarint stop rest (by decide) hn, Nat.zero_add,
    Nat.mul_zero, pow_zero, Nat.mul_one]

theorem readUvarintFrom_short (stop : ReadErr) {i : ℕ} (hi : i < 10) (hn : n < 2 ^ (64 - 7 * i))
    (hcut : bytes <+: putUvarint n) (hshort : bytes ≠ putUvarint n) (x : ℕ) :
    readUvarintFrom stop bytes i x =
      .error (if 0 < i + bytes.length then stop.inside else stop) := by
  induction bytes generalizing n i x with
  | nil =>
    rw [readUvarintFrom, if_neg (Nat.not_le.2 hi)]
    rfl
  | cons b bytes ih =>
    rcases Nat.lt_or_ge n 128 with hlt | hge
    · -- of a single byte there is no such part
      rw [putUvarint_of_lt hlt] at hcut hshort
      obtain ⟨tail, htail⟩ := hcut
      obtain ⟨rfl, hnil⟩ := List.cons.inj htail
      exact absurd (by rw [(List.append_eq_nil_iff.1 hnil).1]) hshort
    · obtain ⟨hnext, hdiv⟩ := div_lt_of_ge hi hn hge
      rw [putUvarint_of_ge hge] at hcut hshort
      obtain ⟨rfl, hrest⟩ := List.cons_prefix_cons.1 hcut
      have hhead : (UInt8.ofNat (n % 128 + 128)).toNat = n % 128 + 128 :=
        toNat_ofNat_of_lt (by omega)
      rw [readUvarintFrom, if_neg (Nat.not_le.2 hi)]
      simp only [hhead, if_neg (show ¬ n % 128 + 128 < 128 by omega)]
      rw [ih hnext hdiv hrest fun heq => hshort (by rw [heq])]
      rw [if_pos (by omega), if_pos (by rw [List.length_cons]; omega)]

/-! ## Frames -/

/-- A payload behind its length. -/
def frame (payload : List UInt8) : List UInt8 :=
  putUvarint payload.length ++ payload

/-- **Input that ends inside a frame**: the length cannot be read, or the
payload cannot. -/
theorem read_cut {payload cut : List UInt8} (stop : ReadErr) (hsize : payload.length < 2 ^ 64)
    (hcut : cut <+: frame payload) (hshort : cut ≠ frame payload) (hne : cut ≠ []) :
    readUvarint stop cut = .error stop.inside ∨
      ∃ part err, readUvarint stop cut = .ok (payload.length, part) ∧ 0 < payload.length ∧
        readFull stop payload.length part = .error err := by
  rcases Nat.lt_or_ge cut.length (putUvarint payload.length).length with hlt | hge
  · left
    have hinside : cut <+: putUvarint payload.length :=
      List.prefix_of_prefix_length_le hcut (List.prefix_append _ _) (Nat.le_of_lt hlt)
    have hread := readUvarintFrom_short stop (show 0 < 10 by decide) hsize hinside
      (fun heq => Nat.lt_irrefl _ (heq ▸ hlt)) 0
    rw [readUvarint, hread, if_pos (by rw [Nat.zero_add]; exact List.length_pos_iff.2 hne)]
  · right
    obtain ⟨part, rfl⟩ := List.prefix_of_prefix_length_le (List.prefix_append _ _) hcut hge
    have hpart : part <+: payload := (List.prefix_append_right_inj _).1 hcut
    have hless : part.length < payload.length := by
      refine Nat.lt_of_le_of_ne hpart.length_le fun heq => hshort ?_
      rw [frame, hpart.eq_of_length heq]
    exact ⟨part, _, readUvarint_putUvarint stop part hsize, by omega,
      by rw [readFull, if_neg (Nat.not_le.2 hless)]⟩

end Varint
