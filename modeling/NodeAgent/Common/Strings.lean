import Mathlib.Data.List.Infix
import Mathlib.Data.List.TakeDrop
/-!
# Prefixes, and splitting at a separator

Go's `strings.HasPrefix`, `HasSuffix`, `TrimPrefix`, `TrimSpace`,
`Contains` and `Split`, read off the characters of a string. `Split` cuts at the leftmost
occurrences of the separator that do not overlap, so what it gives back is
the piece before a separator only when no occurrence starts earlier:
`Clean` says so, and `splitList_eq_cons_iff` that nothing less will do.
-/

namespace GoStrings

/-! ## Splitting a list -/

variable {α : Type} [DecidableEq α]

/-- Put `a` in front of the first piece. -/
def consHead (a : α) : List (List α) → List (List α)
  | [] => [[a]]
  | h :: t => (a :: h) :: t

/-- The pieces of a list between occurrences of `sep`, the first `skip`
elements belonging to a separator already found. -/
def splitGo (sep : List α) : ℕ → List α → List (List α)
  | _, [] => [[]]
  | 0, a :: l =>
    if sep.isPrefixOf (a :: l) then [] :: splitGo sep (sep.length - 1) l
    else consHead a (splitGo sep 0 l)
  | skip + 1, _ :: l => splitGo sep skip l

/-- The pieces of a list between occurrences of `sep`. -/
def splitList (sep l : List α) : List (List α) :=
  splitGo sep 0 l

theorem splitGo_skip (sep s l : List α) : splitGo sep s.length (s ++ l) = splitGo sep 0 l := by
  induction s with
  | nil => rfl
  | cons a s ih => simpa [splitGo] using ih

theorem splitList_sep {sep : List α} (hsep : sep ≠ []) (l : List α) :
    splitList sep (sep ++ l) = [] :: splitList sep l := by
  obtain ⟨a, s, rfl⟩ := List.exists_cons_of_ne_nil hsep
  have hpre : (a :: s).isPrefixOf (a :: (s ++ l)) = true :=
    List.isPrefixOf_iff_prefix.2 ⟨l, rfl⟩
  have hskip := splitGo_skip (a :: s) s l
  simp only [splitList, List.cons_append, splitGo, hpre, if_true, List.length_cons,
    Nat.add_sub_cancel, hskip]

/-- **No occurrence of `sep` starts inside `x`** when `x` is followed by
one. -/
def Clean (sep x : List α) : Prop :=
  ∀ a b, a ++ b = x → b ≠ [] → ¬ sep <+: b ++ sep

omit [DecidableEq α] in
theorem Clean.tail {sep x : List α} {c : α} (h : Clean sep (c :: x)) : Clean sep x :=
  fun a b hab hb => h (c :: a) b (by rw [List.cons_append, hab]) hb

theorem splitList_clean {sep x : List α} (hsep : sep ≠ []) (hx : Clean sep x) (l : List α) :
    splitList sep (x ++ (sep ++ l)) = x :: splitList sep l := by
  induction x with
  | nil => exact splitList_sep hsep l
  | cons c x ih =>
    have hno : ¬ sep <+: c :: x ++ (sep ++ l) := by
      intro hpre
      refine hx [] (c :: x) rfl (List.cons_ne_nil c x) ?_
      have hmid : c :: x ++ sep <+: c :: x ++ (sep ++ l) := ⟨l, by simp⟩
      exact List.prefix_of_prefix_length_le hpre hmid (by simp; omega)
    have hno' : sep.isPrefixOf (c :: (x ++ (sep ++ l))) = false := by
      rw [Bool.eq_false_iff]
      exact fun h => hno (List.isPrefixOf_iff_prefix.1 h)
    have hrec : splitGo sep 0 (x ++ (sep ++ l)) = x :: splitGo sep 0 l := ih hx.tail
    simp [splitList, splitGo, hno', hrec, consHead]

theorem splitList_head_length {sep t : List α} (hsep : sep ≠ []) (ht : sep <+: t) (a : List α) :
    ∃ h rest, splitList sep (a ++ t) = h :: rest ∧ h.length ≤ a.length := by
  induction a with
  | nil =>
    obtain ⟨l, rfl⟩ := ht
    exact ⟨[], splitList sep l, splitList_sep hsep l, le_refl _⟩
  | cons c a ih =>
    obtain ⟨h, rest, heq, hlen⟩ := ih
    by_cases hpre : sep.isPrefixOf (c :: (a ++ t)) = true
    · exact ⟨[], splitGo sep (sep.length - 1) (a ++ t), by simp [splitList, splitGo, hpre], by simp⟩
    · refine ⟨c :: h, rest, ?_, by simpa using hlen⟩
      have hrec : splitGo sep 0 (a ++ t) = h :: rest := heq
      simp [splitList, splitGo, hpre, hrec, consHead]

/-- **The piece before a separator is recovered exactly when it is
clean.** -/
theorem splitList_eq_cons_iff {sep x l : List α} (hsep : sep ≠ []) :
    (∃ rest, splitList sep (x ++ (sep ++ l)) = x :: rest) ↔ Clean sep x := by
  constructor
  · rintro ⟨rest, hrest⟩ a b rfl hb hpre
    have hpre' : sep <+: b ++ (sep ++ l) := by
      rw [← List.append_assoc]
      exact hpre.trans (List.prefix_append _ _)
    obtain ⟨h, rest', heq, hlen⟩ := splitList_head_length hsep hpre' a
    rw [List.append_assoc, heq] at hrest
    have hh : h = a ++ b := (List.cons.inj hrest).1
    have hpos : 0 < b.length := List.length_pos_iff.2 hb
    rw [hh, List.length_append] at hlen
    omega
  · intro hx
    exact ⟨splitList sep l, splitList_clean hsep hx l⟩

omit [DecidableEq α] in
/-- **For a separator of one repeated character**, being clean is having
no separator inside and not ending in that character. -/
theorem clean_replicate_iff {n : ℕ} {c : α} {x : List α} :
    Clean (List.replicate (n + 1) c) x ↔
      ¬ List.replicate (n + 1) c <:+: x ∧ ¬ [c] <:+ x := by
  constructor
  · intro hx
    refine ⟨?_, ?_⟩
    · rintro ⟨a, b, rfl⟩
      refine hx a (List.replicate (n + 1) c ++ b) (by simp) (by simp [List.replicate_succ]) ?_
      exact ⟨b ++ List.replicate (n + 1) c, by simp⟩
    · rintro ⟨a, rfl⟩
      refine hx a [c] rfl (by simp) ⟨[c], ?_⟩
      rw [← List.replicate_succ', List.replicate_succ]
      rfl
  · rintro ⟨hin, hend⟩ a b rfl hb hpre
    rcases Nat.le_total (n + 1) b.length with hle | hle
    · refine hin ?_
      have hb' : List.replicate (n + 1) c <+: b :=
        List.prefix_of_prefix_length_le hpre (List.prefix_append _ _) (by simpa using hle)
      obtain ⟨t, rfl⟩ := hb'
      exact ⟨a, t, by simp⟩
    · have hb' : b <+: List.replicate (n + 1) c :=
        List.prefix_of_prefix_length_le (List.prefix_append _ _) hpre (by simpa using hle)
      have hall : ∀ d ∈ b, d = c := fun d hd => List.eq_of_mem_replicate (hb'.subset hd)
      have hbrep : b = List.replicate b.length c := List.eq_replicate_of_mem hall
      obtain ⟨k, hk⟩ : ∃ k, b.length = k + 1 :=
        Nat.exists_eq_succ_of_ne_zero fun h => hb (List.length_eq_zero_iff.1 h)
      rw [hk, List.replicate_succ'] at hbrep
      exact hend ⟨a ++ List.replicate k c, by rw [hbrep]; simp⟩

/-! ## The functions on strings -/

/-- `strings.HasPrefix`. -/
def hasPrefix (s p : String) : Bool :=
  p.toList.isPrefixOf s.toList

/-- `strings.HasSuffix`. -/
def hasSuffix (s p : String) : Bool :=
  p.toList.isSuffixOf s.toList

/-- `strings.TrimPrefix`. -/
def trimPrefix (s p : String) : String :=
  if hasPrefix s p then String.ofList (s.toList.drop p.toList.length) else s

/-- `strings.Contains`. -/
def contains (s sub : String) : Bool :=
  decide (sub.toList <:+: s.toList)

/-- `strings.Split`, for a separator that is not empty. -/
def split (s sep : String) : List String :=
  (splitList sep.toList s.toList).map String.ofList

/-- The characters `unicode.IsSpace` holds of. -/
def isSpace (c : Char) : Bool :=
  c.toNat ∈ [0x9, 0xA, 0xB, 0xC, 0xD, 0x20, 0x85, 0xA0, 0x1680, 0x2028, 0x2029, 0x202F, 0x205F,
    0x3000] || (0x2000 ≤ c.toNat && c.toNat ≤ 0x200A)

/-- `strings.TrimSpace`. -/
def trimSpace (s : String) : String :=
  String.ofList ((s.toList.dropWhile isSpace).reverse.dropWhile isSpace).reverse

theorem hasPrefix_iff {s p : String} : hasPrefix s p = true ↔ p.toList <+: s.toList :=
  List.isPrefixOf_iff_prefix

theorem hasSuffix_iff {s p : String} : hasSuffix s p = true ↔ p.toList <:+ s.toList :=
  List.isSuffixOf_iff_suffix

theorem contains_iff {s sub : String} : contains s sub = true ↔ sub.toList <:+: s.toList := by
  simp [contains]

@[simp] theorem hasPrefix_append (p s : String) : hasPrefix (p ++ s) p = true := by
  rw [hasPrefix_iff, String.toList_append]
  exact List.prefix_append _ _

@[simp] theorem trimPrefix_append (p s : String) : trimPrefix (p ++ s) p = s := by
  rw [trimPrefix, if_pos (hasPrefix_append p s), String.toList_append, List.drop_left,
    String.ofList_toList]

theorem append_trimPrefix {s p : String} (h : hasPrefix s p = true) : p ++ trimPrefix s p = s := by
  obtain ⟨t, ht⟩ := hasPrefix_iff.1 h
  have hs : s = p ++ String.ofList t := by
    rw [← String.toList_inj, String.toList_append, String.toList_ofList, ht]
  rw [hs, trimPrefix_append]

/-- **Two prefixes of one string are comparable.** -/
theorem hasPrefix_total {s p q : String} (hp : hasPrefix s p = true) (hq : hasPrefix s q = true) :
    hasPrefix p q = true ∨ hasPrefix q p = true := by
  simp only [hasPrefix_iff] at *
  exact (List.prefix_or_prefix_of_prefix hp hq).symm

/-! ## The bytes of a string

In UTF-8 a character up to `127` is one byte, and the others are bytes
above `127` only. -/

theorem toList_loop (b : ByteArray) (i : ℕ) (l : List UInt8) :
    ByteArray.toList.loop b i l = l.reverse ++ b.data.toList.drop i := by
  fun_induction ByteArray.toList.loop b i l with
  | case1 i l hi ih =>
    have hlen : i < b.data.toList.length := hi
    have hget : b.get! i = b.data.toList[i] := getElem!_pos b.data i hi
    rw [ih, List.reverse_cons, List.append_assoc, List.singleton_append, hget,
      ← List.drop_eq_getElem_cons hlen]
  | case2 i l hi =>
    have hlen : b.data.toList.length ≤ i := Nat.le_of_not_lt hi
    rw [List.drop_eq_nil_of_le hlen, List.append_nil]

theorem toList_toUTF8 (s : String) : s.toUTF8.toList = s.toList.flatMap String.utf8EncodeChar := by
  have hbytes : s.toUTF8.data.toList = s.toList.flatMap String.utf8EncodeChar := by
    rw [String.toUTF8, ← String.utf8Encode_toList, List.utf8Encode, List.toList_data_toByteArray]
  rw [ByteArray.toList, toList_loop, hbytes]
  rfl

theorem utf8EncodeChar_of_le {c : Char} (h : c.toNat ≤ 127) :
    String.utf8EncodeChar c = [c.toUInt8] := by
  have hc : c.val.toNat ≤ 127 := h
  rw [String.utf8EncodeChar, if_pos hc]
  rfl

theorem lt_of_mem_utf8EncodeChar {c : Char} (h : 127 < c.toNat) :
    ∀ b ∈ String.utf8EncodeChar c, 127 < b.toNat := by
  have hc : ¬ c.val.toNat ≤ 127 := Nat.not_le.2 h
  rw [String.utf8EncodeChar, if_neg hc]
  split_ifs
  all_goals
    simp only [List.forall_mem_cons, UInt8.toNat_ofNat', List.not_mem_nil, false_implies,
      implies_true, and_true]
    omega

end GoStrings
