import Mathlib.Data.List.Infix
import Mathlib.Data.Nat.Digits.Defs
/-!
# The fields of a text

A text is cut at the separators of a table, and what lies between is its
fields, none of them empty. No separator begins inside another, so cutting
goes on afresh after each (`fields_append`): a text without a separator is
one field, and one with a separator inside is two at least. Go's
`strings.Fields` cuts the bytes of a text at white space. Numbers are
written in decimal, and read as `strconv.Atoi` does.
-/

namespace Fields

variable {α : Type} [DecidableEq α]

/-- Separators none of which begins inside another. -/
structure Separators (α : Type) where
  list : List (List α)
  ne_nil : ∀ s ∈ list, s ≠ []
  apart : ∀ s ∈ list, ∀ t ∈ list, ∀ a ∈ s.head?, a ∉ t.tail

variable (S : Separators α)

/-- The separator a text begins with. -/
def Separators.first (l : List α) : Option (List α) :=
  S.list.find? fun s => s.isPrefixOf l

/-- A field that has ended; an empty one is none. -/
def closed (field : List α) : List (List α) :=
  if field = [] then [] else [field]

/-- The fields of a text, with one begun before it; the first `skip`
elements belong to a separator already found. -/
def cut : ℕ → List α → List α → List (List α)
  | _, field, [] => closed field
  | skip + 1, field, _ :: l => cut skip field l
  | 0, field, a :: l =>
    match S.first (a :: l) with
    | none => cut 0 (field ++ [a]) l
    | some s => closed field ++ cut (s.length - 1) [] l

/-- **The fields of a text.** -/
def fields (l : List α) : List (List α) :=
  cut S 0 [] l

/-- A text without a separator in it. -/
def Whole (l : List α) : Prop :=
  ∀ s ∈ S.list, ¬ s <:+: l

instance decidableWhole (l : List α) : Decidable (Whole S l) :=
  inferInstanceAs (Decidable (∀ s ∈ S.list, ¬ s <:+: l))

variable {S} {s l x y field : List α} {a b : α} {skip : ℕ}

/-! ## Separators -/

theorem Separators.first_some (h : S.first l = some s) : s ∈ S.list ∧ s ≠ [] ∧ s <+: l := by
  have hmem := List.mem_of_find?_eq_some h
  have hpre : s.isPrefixOf l = true := List.find?_some (p := fun t : List α => t.isPrefixOf l) h
  exact ⟨hmem, S.ne_nil s hmem, List.isPrefixOf_iff_prefix.1 hpre⟩

/-- **No separator reaches into the next one.** -/
theorem Separators.first_append (hx : x ≠ []) (hy : S.first y = some s) :
    S.first (x ++ y) = S.first x := by
  obtain ⟨hs, hne, hsy⟩ := Separators.first_some hy
  have hprefix : ∀ t ∈ S.list, t <+: x ++ y ↔ t <+: x := by
    intro t ht
    refine ⟨fun hpre => ?_, fun hpre => hpre.trans (List.prefix_append x y)⟩
    rcases Nat.le_total t.length x.length with hle | hle
    · exact List.prefix_of_prefix_length_le hpre (List.prefix_append x y) hle
    · -- what `t` has of `y` begins as the separator there does
      obtain ⟨r, rfl⟩ := List.prefix_of_prefix_length_le (List.prefix_append x y) hpre hle
      cases r with
      | nil => rw [List.append_nil]
      | cons c r =>
        have hhead : c ∈ s.head? := by
          obtain ⟨w, rfl⟩ := hsy
          obtain ⟨d, s, rfl⟩ := List.exists_cons_of_ne_nil hne
          have hcd := (List.cons_prefix_cons.1 ((List.prefix_append_right_inj x).1 hpre)).1
          rw [hcd]
          rfl
        refine absurd ?_ (S.apart s hs _ ht c hhead)
        obtain ⟨d, x, rfl⟩ := List.exists_cons_of_ne_nil hx
        simp
  rw [Separators.first, Separators.first, ← List.head?_filter, ← List.head?_filter]
  refine congrArg List.head? (List.filter_congr fun t ht => ?_)
  rw [Bool.eq_iff_iff, List.isPrefixOf_iff_prefix, List.isPrefixOf_iff_prefix]
  exact hprefix t ht

/-! ## Cutting -/

theorem cut_skip (s l field : List α) : cut S s.length field (s ++ l) = cut S 0 field l := by
  induction s with
  | nil => rfl
  | cons a s ih => rwa [List.cons_append, List.length_cons, cut]

theorem cut_separator (h : S.first (s ++ l) = some s) :
    cut S 0 field (s ++ l) = closed field ++ cut S 0 [] l := by
  obtain ⟨-, hne, -⟩ := Separators.first_some h
  obtain ⟨a, s, rfl⟩ := List.exists_cons_of_ne_nil hne
  rw [List.cons_append] at h ⊢
  rw [cut, h]
  show closed field ++ cut S (s.length + 1 - 1) [] (s ++ l) = _
  rw [Nat.add_sub_cancel, cut_skip]

/-- **At a separator the cutting begins afresh.** -/
theorem cut_append (hy : S.first y = some s) (hskip : skip ≤ x.length) :
    cut S skip field (x ++ y) = cut S skip field x ++ cut S 0 [] y := by
  induction x generalizing skip field with
  | nil =>
    obtain rfl : skip = 0 := Nat.le_zero.1 hskip
    obtain ⟨-, -, l, rfl⟩ := Separators.first_some hy
    rw [List.nil_append, cut_separator hy, cut_separator hy]
    rfl
  | cons a x ih =>
    cases skip with
    | succ skip =>
      rw [List.cons_append, cut, cut]
      exact ih (Nat.le_of_succ_le_succ hskip)
    | zero =>
      have hfirst := Separators.first_append (List.cons_ne_nil a x) hy
      rw [List.cons_append] at hfirst ⊢
      rw [cut, hfirst, cut]
      cases ht : S.first (a :: x) with
      | none => exact ih (Nat.zero_le _)
      | some t =>
        obtain ⟨-, -, hpre⟩ := Separators.first_some ht
        have hlen : t.length - 1 ≤ x.length := by
          have hle := hpre.length_le
          rw [List.length_cons] at hle
          omega
        show closed field ++ cut S (t.length - 1) [] (x ++ y) = _
        rw [ih hlen, List.append_assoc]

theorem fields_append (h : S.first (s ++ y) = some s) (x : List α) :
    fields S (x ++ (s ++ y)) = fields S x ++ fields S y := by
  rw [fields, cut_append h (Nat.zero_le _), cut_separator h]
  rfl

/-! ## Texts without separators -/

omit [DecidableEq α] in
theorem Whole.tail (h : Whole S (a :: l)) : Whole S l :=
  fun s hs hin => h s hs (List.infix_cons hin)

theorem Whole.first (h : Whole S l) : S.first l = none := by
  rw [Option.eq_none_iff_forall_ne_some]
  intro s hs
  obtain ⟨hmem, -, hpre⟩ := Separators.first_some hs
  exact h s hmem hpre.isInfix

theorem cut_of_whole (h : Whole S l) (field : List α) :
    cut S 0 field l = closed (field ++ l) := by
  induction l generalizing field with
  | nil => rw [List.append_nil, cut]
  | cons a l ih =>
    rw [cut, h.first]
    show cut S 0 (field ++ [a]) l = _
    rw [ih h.tail, List.append_assoc, List.singleton_append]

/-- **A text without a separator is one field.** -/
theorem fields_of_whole (h : Whole S l) (hne : l ≠ []) : fields S l = [l] := by
  rw [fields, cut_of_whole h, List.nil_append, closed, if_neg hne]

omit [DecidableEq α] in
theorem Whole.wrap (h : Whole S l) (ha : ∀ s ∈ S.list, a ∉ s) (hb : ∀ s ∈ S.list, b ∉ s) :
    Whole S (a :: l ++ [b]) := by
  intro s hs hin
  rcases List.infix_concat_iff.1 hin with hsuffix | hin
  · rcases List.suffix_concat_iff.1 hsuffix with rfl | ⟨t, rfl, -⟩
    · exact S.ne_nil _ hs rfl
    · exact hb _ hs (by simp)
  rcases List.infix_cons_iff.1 hin with hpre | hin
  · rcases List.prefix_cons_iff.1 hpre with rfl | ⟨t, rfl, -⟩
    · exact S.ne_nil _ hs rfl
    · exact ha _ hs (by simp)
  · exact h s hs hin

omit [DecidableEq α] in
theorem whole_of_forall (h : ∀ a ∈ l, ∀ s ∈ S.list, a ∉ s) : Whole S l := by
  intro s hs hin
  obtain ⟨a, ha⟩ := List.exists_mem_of_ne_nil s (S.ne_nil s hs)
  exact h a (hin.subset ha) s hs ha

theorem cut_ne_nil (hb : ∀ s ∈ S.list, b ∉ s) (h : field ≠ [] ∨ b ∈ l.drop skip) :
    cut S skip field l ≠ [] := by
  induction l generalizing skip field with
  | nil =>
    have hfield : field ≠ [] := h.resolve_right (by simp)
    rw [cut, closed, if_neg hfield]
    exact List.cons_ne_nil _ _
  | cons a l ih =>
    cases skip with
    | succ skip =>
      rw [cut]
      exact ih h
    | zero =>
      rw [cut]
      cases hfirst : S.first (a :: l) with
      | none => exact ih (Or.inl (by simp))
      | some s =>
        obtain ⟨hs, hne, w, hw⟩ := Separators.first_some hfirst
        show closed field ++ cut S (s.length - 1) [] l ≠ []
        rcases h with hfield | hmem
        · rw [closed, if_neg hfield]
          exact List.cons_ne_nil _ _
        · refine List.append_ne_nil_of_right_ne_nil _ (ih (Or.inr ?_))
          rw [List.drop_zero, ← hw] at hmem
          have hbw : b ∈ w := (List.mem_append.1 hmem).resolve_left (hb s hs)
          obtain ⟨c, s, rfl⟩ := List.exists_cons_of_ne_nil hne
          rw [List.cons_append] at hw
          obtain ⟨-, rfl⟩ := List.cons.inj hw
          rw [List.length_cons, Nat.add_sub_cancel, List.drop_left]
          exact hbw

/-- **A separator between two such elements makes two fields.** -/
theorem two_le_length_fields (ha : ∀ s ∈ S.list, a ∉ s) (hb : ∀ s ∈ S.list, b ∉ s)
    (h : ¬ Whole S l) : 2 ≤ (fields S (a :: l ++ [b])).length := by
  obtain ⟨s, hs, u, w, rfl⟩ : ∃ s ∈ S.list, s <:+: l := by
    simpa only [Whole, not_forall, not_not, exists_prop] using h
  -- the separator found there ends before the last element
  obtain ⟨t, ht⟩ : ∃ t, S.first (s ++ w ++ [b]) = some t := by
    refine Option.isSome_iff_exists.1 (List.find?_isSome.2 ⟨s, hs, ?_⟩)
    exact List.isPrefixOf_iff_prefix.2 ⟨w ++ [b], by rw [List.append_assoc]⟩
  obtain ⟨hmem, -, hpre⟩ := Separators.first_some ht
  have hpre' : t <+: s ++ w := by
    rcases List.prefix_concat_iff.1 hpre with rfl | hpre'
    · exact absurd (by simp) (hb _ hmem)
    · exact hpre'
  obtain ⟨r, hr⟩ := hpre'
  rw [← hr, List.append_assoc] at ht
  have hsplit : a :: (u ++ s ++ w) ++ [b] = (a :: u) ++ (t ++ (r ++ [b])) := by
    rw [List.append_assoc u, ← hr]
    simp
  rw [hsplit, fields_append ht, List.length_append]
  have hleft : fields S (a :: u) ≠ [] := cut_ne_nil ha (Or.inr (by simp))
  have hright : fields S (r ++ [b]) ≠ [] := cut_ne_nil hb (Or.inr (by simp))
  have := List.length_pos_iff.2 hleft
  have := List.length_pos_iff.2 hright
  omega

/-! ## White space -/

/-- The characters of `unicode.IsSpace` in UTF-8. -/
def space : Separators UInt8 where
  list := [[0x20], [0x09], [0x0A], [0x0B], [0x0C], [0x0D], [0xC2, 0x85], [0xC2, 0xA0],
    [0xE1, 0x9A, 0x80], [0xE2, 0x80, 0x80], [0xE2, 0x80, 0x81], [0xE2, 0x80, 0x82],
    [0xE2, 0x80, 0x83], [0xE2, 0x80, 0x84], [0xE2, 0x80, 0x85], [0xE2, 0x80, 0x86],
    [0xE2, 0x80, 0x87], [0xE2, 0x80, 0x88], [0xE2, 0x80, 0x89], [0xE2, 0x80, 0x8A],
    [0xE2, 0x80, 0xA8], [0xE2, 0x80, 0xA9], [0xE2, 0x80, 0xAF], [0xE2, 0x81, 0x9F],
    [0xE3, 0x80, 0x80]]
  ne_nil := by decide
  apart := by decide +kernel

theorem fields_blank (x y : List UInt8) :
    fields space (x ++ 0x20 :: y) = fields space x ++ fields space y :=
  fields_append (s := [0x20]) rfl x

/-- A byte that is visible in ASCII. -/
def Visible (b : UInt8) : Prop :=
  0x21 ≤ b ∧ b ≤ 0x7E

instance decidableVisible (b : UInt8) : Decidable (Visible b) :=
  inferInstanceAs (Decidable (_ ∧ _))

theorem Visible.notMem {b : UInt8} (h : Visible b) : ∀ s ∈ space.list, b ∉ s := by
  have hall : ∀ s ∈ space.list, ∀ b ∈ s, ¬ Visible b := by decide +kernel
  exact fun s hs hb => hall s hs b hb h

theorem fields_of_visible {l : List UInt8} (h : ∀ b ∈ l, Visible b) (hne : l ≠ []) :
    fields space l = [l] :=
  fields_of_whole (whole_of_forall fun b hb => (h b hb).notMem) hne

/-- A text without the separators it begins with; the first `skip`
elements belong to one already found. -/
def trimFront (seps : List (List α)) : ℕ → List α → List α
  | _, [] => []
  | skip + 1, _ :: l => trimFront seps skip l
  | 0, a :: l =>
    match seps.find? fun s => s.isPrefixOf (a :: l) with
    | none => a :: l
    | some s => trimFront seps (s.length - 1) l

/-- `strings.TrimSpace`. -/
def trimSpace (l : List UInt8) : List UInt8 :=
  (trimFront (space.list.map List.reverse) 0 (trimFront space.list 0 l).reverse).reverse

/-! ## Numbers -/

def isDigit (b : UInt8) : Bool :=
  0x30 ≤ b && b ≤ 0x39

/-- The number of a row of digits, if it is one. -/
def parseDigits (ds : List UInt8) : Option ℕ :=
  if ds ≠ [] ∧ ds.all isDigit = true then
    some (ds.foldl (fun n d => 10 * n + (d.toNat - 0x30)) 0)
  else none

/-- `strconv.Atoi`, where an `int` has 64 bits. -/
def atoi : List UInt8 → Option ℤ
  | [] => none
  | sign :: ds =>
    if sign = 0x2D then
      (parseDigits ds).bind fun n => if n ≤ 2 ^ 63 then some (-(n : ℤ)) else none
    else
      (parseDigits (if sign = 0x2B then ds else sign :: ds)).bind fun n =>
        if n < 2 ^ 63 then some (n : ℤ) else none

def natText (n : ℕ) : List UInt8 :=
  (Nat.toDigits 10 n).map Char.toUInt8

/-- A number as `%d` writes it. -/
def itoa (n : ℤ) : List UInt8 :=
  if n < 0 then 0x2D :: natText n.natAbs else natText n.natAbs

theorem isDigit_iff {b : UInt8} : isDigit b = true ↔ 0x30 ≤ b.toNat ∧ b.toNat ≤ 0x39 := by
  simp [isDigit, UInt8.le_iff_toNat_le]

theorem isDigit_toUInt8 {c : Char} (h : c.isDigit = true) :
    isDigit c.toUInt8 = true ∧ c.toUInt8.toNat = c.toNat := by
  have hrange : 0x30 ≤ c.toNat ∧ c.toNat ≤ 0x39 := by
    simpa [Char.isDigit, UInt32.le_iff_toNat_le] using h
  have hbyte : c.toUInt8.toNat = c.toNat := by
    have hmod : c.toUInt8.toNat = c.toNat % 256 := UInt32.toNat_toUInt8 c.val
    omega
  rw [isDigit_iff, hbyte]
  exact ⟨hrange, rfl⟩

theorem isDigit_of_mem_natText {n : ℕ} {b : UInt8} (h : b ∈ natText n) : isDigit b = true := by
  obtain ⟨c, hc, rfl⟩ := List.mem_map.1 h
  exact (isDigit_toUInt8 (Nat.isDigit_of_mem_toDigits (by decide) (by decide) hc)).1

theorem natText_ne_nil (n : ℕ) : natText n ≠ [] :=
  fun h => Nat.toDigits_ne_nil (List.map_eq_nil_iff.1 h)

theorem visible_of_isDigit {b : UInt8} (h : isDigit b = true) : Visible b := by
  have hrange := isDigit_iff.1 h
  simp only [Visible, UInt8.le_iff_toNat_le]
  exact ⟨by show 0x21 ≤ _; omega, by show _ ≤ 0x7E; omega⟩

theorem visible_of_mem_itoa {n : ℤ} : ∀ b ∈ itoa n, Visible b := by
  have hnat : ∀ b ∈ natText n.natAbs, Visible b :=
    fun b hb => visible_of_isDigit (isDigit_of_mem_natText hb)
  unfold itoa
  split_ifs
  · exact List.forall_mem_cons.2 ⟨by decide, hnat⟩
  · exact hnat

theorem itoa_ne_nil (n : ℤ) : itoa n ≠ [] := by
  unfold itoa
  split_ifs
  · exact List.cons_ne_nil _ _
  · exact natText_ne_nil _

theorem parseDigits_natText (n : ℕ) : parseDigits (natText n) = some n := by
  have hdigits : (natText n).all isDigit = true :=
    List.all_eq_true.2 fun b hb => isDigit_of_mem_natText hb
  rw [parseDigits, if_pos ⟨natText_ne_nil n, hdigits⟩]
  have hvalue : (natText n).foldl (fun n d => 10 * n + (d.toNat - 0x30)) 0 =
      Nat.ofDigitChars 10 (Nat.toDigits 10 n) 0 := by
    rw [natText, List.foldl_map, Nat.ofDigitChars]
    refine List.foldl_ext _ _ 0 fun m c hc => ?_
    rw [(isDigit_toUInt8 (Nat.isDigit_of_mem_toDigits (by decide) (by decide) hc)).2]
    rfl
  rw [hvalue, Nat.ofDigitChars_toDigits (by decide) (by decide)]

/-- **A number is read back as it was written.** -/
theorem atoi_itoa {n : ℤ} (hlow : -2 ^ 63 ≤ n) (hhigh : n < 2 ^ 63) : atoi (itoa n) = some n := by
  unfold itoa
  split_ifs with hneg
  · rw [atoi, if_pos rfl, parseDigits_natText, Option.bind_some, if_pos (by omega)]
    congr 1
    omega
  · obtain ⟨b, ds, hds⟩ := List.exists_cons_of_ne_nil (natText_ne_nil n.natAbs)
    have hb : isDigit b = true := isDigit_of_mem_natText (by rw [hds]; simp)
    have hplus : b ≠ 0x2B := by rintro rfl; cases hb
    have hminus : b ≠ 0x2D := by rintro rfl; cases hb
    rw [hds, atoi, if_neg hminus, if_neg hplus, ← hds, parseDigits_natText, Option.bind_some,
      if_pos (by omega)]
    congr 1
    omega

end Fields
