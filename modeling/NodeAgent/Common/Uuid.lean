import Mathlib.Data.List.Basic
/-!
# Reading a UUID

A UUID is sixteen bytes and has many spellings: thirty-two hex digits, or
the same with dashes after the eighth, the twelfth, the sixteenth and the
twentieth, the latter also in braces or behind `urn:uuid:`, and every
letter in either case. `parse` reads them all, by length, as Go's
`google/uuid` does; of a text in braces it only looks at what is between
the first character and the last.
-/

namespace Uuid

/-- The value of a hex digit. -/
def digit (b : UInt8) : Option ℕ :=
  if 48 ≤ b ∧ b ≤ 57 then some (b.toNat - 48)
  else if 97 ≤ b ∧ b ≤ 102 then some (b.toNat - 87)
  else if 65 ≤ b ∧ b ≤ 70 then some (b.toNat - 55)
  else none

/-- The value of a row of hex digits. -/
def digits (bs : List UInt8) : Option ℕ :=
  bs.foldlM (fun n b => (digit b).map fun d => 16 * n + d) 0

/-- The value of the first thirty-six bytes, digits and dashes. -/
def dashed (bs : List UInt8) : Option ℕ :=
  if bs[8]? = some 45 ∧ bs[13]? = some 45 ∧ bs[18]? = some 45 ∧ bs[23]? = some 45 then
    digits (bs.take 8 ++ (bs.drop 9).take 4 ++ (bs.drop 14).take 4 ++ (bs.drop 19).take 4 ++
      (bs.drop 24).take 12)
  else none

/-- An ASCII letter in lower case. -/
def lower (b : UInt8) : UInt8 :=
  if 65 ≤ b ∧ b ≤ 90 then b + 32 else b

/-- The UUID a text spells. -/
def parse (s : String) : Option (BitVec 128) :=
  let bs := s.toUTF8.toList
  let value :=
    if bs.length = 36 then dashed bs
    else if bs.length = 45 then
      if (bs.take 9).map lower = "urn:uuid:".toUTF8.toList then dashed (bs.drop 9) else none
    else if bs.length = 38 then dashed (bs.drop 1)
    else if bs.length = 32 then digits bs
    else none
  value.map (BitVec.ofNat 128)

end Uuid
