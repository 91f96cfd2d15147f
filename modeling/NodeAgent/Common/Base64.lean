import NodeAgent.Common.Strings
/-!
# Standard base64

The padded standard encoding, as Go's `base64.StdEncoding` reads and
writes it: a decoder that passes over line ends, asks for the padding, and
does not look at the bits the padding leaves over. The two are inverse on
what the encoder writes (`decodeString_encodeToString`). `RawURLEncoding`
is the same with two other characters and no padding.
-/

namespace Base64

/-- The sixty-four characters, in the order of their values. -/
def alphabet : List Char :=
  "ABCDEFGHIJKLMNOPQRSTUVWXYZabcdefghijklmnopqrstuvwxyz0123456789+/".toList

/-- The character of a six-bit value. -/
def encodeSix (n : ℕ) : Char :=
  alphabet.getD n '='

/-- The six-bit value of a character, if it is one of the alphabet. -/
def decodeSix (c : Char) : Option ℕ :=
  alphabet.findIdx? (· == c)

/-- Three bytes to four characters, the last group padded. -/
def encode : List UInt8 → List Char
  | [] => []
  | [a] => [encodeSix (a.toNat / 4), encodeSix (a.toNat % 4 * 16), '=', '=']
  | [a, b] =>
    [encodeSix (a.toNat / 4), encodeSix (a.toNat % 4 * 16 + b.toNat / 16),
      encodeSix (b.toNat % 16 * 4), '=']
  | a :: b :: c :: rest =>
    encodeSix (a.toNat / 4) :: encodeSix (a.toNat % 4 * 16 + b.toNat / 16) ::
      encodeSix (b.toNat % 16 * 4 + c.toNat / 64) :: encodeSix (c.toNat % 64) :: encode rest

/-- Four characters to at most three bytes; padding only in the last
group. -/
def decode : List Char → Option (List UInt8)
  | [] => some []
  | c₀ :: c₁ :: c₂ :: c₃ :: rest =>
    match decodeSix c₀, decodeSix c₁ with
    | some v₀, some v₁ =>
      if c₂ = '=' then
        if c₃ = '=' ∧ rest = [] then some [UInt8.ofNat (v₀ * 4 + v₁ / 16)] else none
      else
        match decodeSix c₂ with
        | none => none
        | some v₂ =>
          if c₃ = '=' then
            if rest = [] then
              some [UInt8.ofNat (v₀ * 4 + v₁ / 16), UInt8.ofNat (v₁ % 16 * 16 + v₂ / 4)]
            else none
          else
            match decodeSix c₃ with
            | none => none
            | some v₃ =>
              (decode rest).map fun bs =>
                UInt8.ofNat (v₀ * 4 + v₁ / 16) :: UInt8.ofNat (v₁ % 16 * 16 + v₂ / 4) ::
                  UInt8.ofNat (v₂ % 4 * 64 + v₃) :: bs
    | _, _ => none
  | _ => none

/-- `EncodeToString`. -/
def encodeToString (bs : List UInt8) : String :=
  String.ofList (encode bs)

/-- `DecodeString`; carriage returns and line feeds are passed over. -/
def decodeString (s : String) : Option (List UInt8) :=
  decode (s.toList.filter fun c => c != '\n' && c != '\r')

theorem decodeSix_encodeSix {n : ℕ} (hn : n < 64) : decodeSix (encodeSix n) = some n := by
  have h : ∀ k : Fin 64, decodeSix (encodeSix k) = some k.val := by decide +kernel
  exact h ⟨n, hn⟩

theorem encodeSix_ne {n : ℕ} (hn : n < 64) :
    encodeSix n ≠ '=' ∧ encodeSix n ≠ '\n' ∧ encodeSix n ≠ '\r' := by
  have h : ∀ k : Fin 64, encodeSix k ≠ '=' ∧ encodeSix k ≠ '\n' ∧ encodeSix k ≠ '\r' := by
    decide +kernel
  exact h ⟨n, hn⟩

theorem ofNat_eq_of_toNat {a : UInt8} {n : ℕ} (h : n = a.toNat) : UInt8.ofNat n = a := by
  rw [h, UInt8.ofNat_toNat]

/-- **What is encoded decodes to itself.** -/
theorem decode_encode (bs : List UInt8) : decode (encode bs) = some bs := by
  induction bs using encode.induct with
  | case1 => rfl
  | case2 a =>
    have ha := a.toNat_lt
    have h₀ := decodeSix_encodeSix (n := a.toNat / 4) (by omega)
    have h₁ := decodeSix_encodeSix (n := a.toNat % 4 * 16) (by omega)
    have e₀ : UInt8.ofNat (a.toNat / 4 * 4 + a.toNat % 4 * 16 / 16) = a :=
      ofNat_eq_of_toNat (by omega)
    simp only [encode, decode, h₀, h₁, e₀, and_self, if_true]
  | case3 a b =>
    have ha := a.toNat_lt
    have hb := b.toNat_lt
    have h₀ := decodeSix_encodeSix (n := a.toNat / 4) (by omega)
    have h₁ := decodeSix_encodeSix (n := a.toNat % 4 * 16 + b.toNat / 16) (by omega)
    have h₂ := decodeSix_encodeSix (n := b.toNat % 16 * 4) (by omega)
    have hne := (encodeSix_ne (n := b.toNat % 16 * 4) (by omega)).1
    have e₀ : UInt8.ofNat (a.toNat / 4 * 4 + (a.toNat % 4 * 16 + b.toNat / 16) / 16) = a :=
      ofNat_eq_of_toNat (by omega)
    have e₁ : UInt8.ofNat ((a.toNat % 4 * 16 + b.toNat / 16) % 16 * 16 +
        b.toNat % 16 * 4 / 4) = b :=
      ofNat_eq_of_toNat (by omega)
    simp only [encode, decode, h₀, h₁, h₂, hne, e₀, e₁, if_true, if_false]
  | case4 a b c rest ih =>
    have ha := a.toNat_lt
    have hb := b.toNat_lt
    have hc := c.toNat_lt
    have h₀ := decodeSix_encodeSix (n := a.toNat / 4) (by omega)
    have h₁ := decodeSix_encodeSix (n := a.toNat % 4 * 16 + b.toNat / 16) (by omega)
    have h₂ := decodeSix_encodeSix (n := b.toNat % 16 * 4 + c.toNat / 64) (by omega)
    have h₃ := decodeSix_encodeSix (n := c.toNat % 64) (by omega)
    have hne₂ := (encodeSix_ne (n := b.toNat % 16 * 4 + c.toNat / 64) (by omega)).1
    have hne₃ := (encodeSix_ne (n := c.toNat % 64) (by omega)).1
    have e₀ : UInt8.ofNat (a.toNat / 4 * 4 + (a.toNat % 4 * 16 + b.toNat / 16) / 16) = a :=
      ofNat_eq_of_toNat (by omega)
    have e₁ : UInt8.ofNat ((a.toNat % 4 * 16 + b.toNat / 16) % 16 * 16 +
        (b.toNat % 16 * 4 + c.toNat / 64) / 4) = b :=
      ofNat_eq_of_toNat (by omega)
    have e₂ : UInt8.ofNat ((b.toNat % 16 * 4 + c.toNat / 64) % 4 * 64 + c.toNat % 64) = c :=
      ofNat_eq_of_toNat (by omega)
    simp only [encode, decode, h₀, h₁, h₂, h₃, hne₂, hne₃, e₀, e₁, e₂, if_false, ih,
      Option.map_some]

theorem forall_mem_encode {P : Char → Prop} (hsix : ∀ n, n < 64 → P (encodeSix n)) (hpad : P '=')
    (bs : List UInt8) : ∀ ch ∈ encode bs, P ch := by
  induction bs using encode.induct with
  | case1 => simp [encode]
  | case2 a =>
    have ha := a.toNat_lt
    simp only [encode, List.forall_mem_cons]
    exact ⟨hsix _ (by omega), hsix _ (by omega), hpad, hpad, by simp⟩
  | case3 a b =>
    have ha := a.toNat_lt
    have hb := b.toNat_lt
    simp only [encode, List.forall_mem_cons]
    exact ⟨hsix _ (by omega), hsix _ (by omega), hsix _ (by omega), hpad, by simp⟩
  | case4 a b c rest ih =>
    have ha := a.toNat_lt
    have hb := b.toNat_lt
    have hc := c.toNat_lt
    simp only [encode, List.forall_mem_cons]
    exact ⟨hsix _ (by omega), hsix _ (by omega), hsix _ (by omega), hsix _ (by omega), ih⟩

theorem encode_no_newline (bs : List UInt8) :
    ∀ ch ∈ encode bs, (ch != '\n' && ch != '\r') = true := by
  refine forall_mem_encode (fun n hn => ?_) (by decide) bs
  obtain ⟨-, h₁, h₂⟩ := encodeSix_ne hn
  simp [h₁, h₂]

theorem decodeString_encodeToString (bs : List UInt8) :
    decodeString (encodeToString bs) = some bs := by
  rw [decodeString, encodeToString, String.toList_ofList,
    List.filter_eq_self.2 (encode_no_newline bs), decode_encode]

/-! ## Over bytes

A Go string is bytes of any kind. One above `127` is not of the alphabet,
and no more is the character it stands for in Latin-1. -/

/-- `EncodeToString`, as the bytes it writes. -/
def encodeBytes (bs : List UInt8) : List UInt8 :=
  (encode bs).map Char.toUInt8

/-- `DecodeString` of any bytes. -/
def decodeBytes (text : List UInt8) : Option (List UInt8) :=
  decode ((text.map Char.ofUInt8).filter fun c => c != '\n' && c != '\r')

theorem encodeSix_le {n : ℕ} (hn : n < 64) : (encodeSix n).toNat ≤ 127 := by
  have h : ∀ k : Fin 64, (encodeSix k).toNat ≤ 127 := by decide +kernel
  exact h ⟨n, hn⟩

theorem le_of_mem_encode (bs : List UInt8) : ∀ ch ∈ encode bs, ch.toNat ≤ 127 :=
  forall_mem_encode (fun _ => encodeSix_le) (by decide) bs

theorem ofUInt8_toUInt8 {c : Char} (h : c.toNat ≤ 127) : Char.ofUInt8 c.toUInt8 = c := by
  refine Char.ext (UInt32.toNat_inj.1 ?_)
  have hc : c.val.toNat ≤ 127 := h
  show c.val.toUInt8.toUInt32.toNat = c.val.toNat
  rw [UInt8.toNat_toUInt32, UInt32.toNat_toUInt8]
  omega

theorem decodeBytes_encodeBytes (bs : List UInt8) : decodeBytes (encodeBytes bs) = some bs := by
  have hread : (encodeBytes bs).map Char.ofUInt8 = encode bs := by
    rw [encodeBytes, List.map_map]
    refine (List.map_congr_left fun c hc => ?_).trans (List.map_id _)
    exact ofUInt8_toUInt8 (le_of_mem_encode bs c hc)
  rw [decodeBytes, hread, List.filter_eq_self.2 (encode_no_newline bs), decode_encode]

/-- A character the encoder can write. -/
def Written (c : Char) : Prop :=
  c = '=' ∨ ∃ n < 64, c = encodeSix n

theorem written_of_decodeSix {c : Char} {v : ℕ} (h : decodeSix c = some v) : Written c := by
  obtain ⟨hv, hc, -⟩ := List.findIdx?_eq_some_iff_getElem.1 h
  have hlength : alphabet.length = 64 := by decide +kernel
  refine Or.inr ⟨v, by omega, ?_⟩
  rw [encodeSix, List.getD_eq_getElem?_getD, List.getElem?_eq_getElem hv, Option.getD_some,
    beq_iff_eq.1 hc]

/-- **What decodes is written in the alphabet and the padding.** -/
theorem written_of_decode {text : List Char} {bs : List UInt8} (h : decode text = some bs) :
    ∀ c ∈ text, Written c := by
  have hpad : Written '=' := Or.inl rfl
  fun_induction decode text generalizing bs with
  | case1 => simp
  | case2 c₀ c₁ c₃ rest v₀ v₁ h₁ h₀ hend =>
    obtain ⟨rfl, rfl⟩ := hend
    simp only [List.forall_mem_cons]
    exact ⟨written_of_decodeSix h₀, written_of_decodeSix h₁, hpad, hpad, by simp⟩
  | case5 c₀ c₁ c₂ v₀ v₁ h₁ h₀ _ v₂ h₂ =>
    simp only [List.forall_mem_cons]
    exact ⟨written_of_decodeSix h₀, written_of_decodeSix h₁, written_of_decodeSix h₂, hpad,
      by simp⟩
  | case8 c₀ c₁ c₂ c₃ rest v₀ v₁ h₁ h₀ _ v₂ h₂ _ v₃ h₃ ih =>
    obtain ⟨bs', hrest, -⟩ := Option.map_eq_some_iff.1 h
    simp only [List.forall_mem_cons]
    exact ⟨written_of_decodeSix h₀, written_of_decodeSix h₁, written_of_decodeSix h₂,
      written_of_decodeSix h₃, ih hrest⟩
  | _ => cases h

theorem decode_eq_none {text : List Char} {c : Char} (hmem : c ∈ text) (hc : ¬ Written c) :
    decode text = none := by
  rw [Option.eq_none_iff_forall_ne_some]
  exact fun bs h => hc (written_of_decode h c hmem)

theorem Written.le {c : Char} (h : Written c) : c.toNat ≤ 127 := by
  rcases h with rfl | ⟨n, hn, rfl⟩
  · decide
  · exact encodeSix_le hn

theorem decodeBytes_toUTF8 (s : String) : decodeBytes s.toUTF8.toList = decodeString s := by
  rw [GoStrings.toList_toUTF8, decodeBytes, decodeString]
  by_cases hascii : ∀ c ∈ s.toList, c.toNat ≤ 127
  · have hread : (s.toList.flatMap String.utf8EncodeChar).map Char.ofUInt8 = s.toList := by
      rw [List.map_flatMap]
      refine (List.flatMap_congr fun c hc => ?_).trans (List.flatMap_singleton' s.toList)
      rw [GoStrings.utf8EncodeChar_of_le (hascii c hc), List.map_singleton,
        ofUInt8_toUInt8 (hascii c hc)]
    rw [hread]
  · -- a character above 127 spoils the string, and its bytes spoil them
    simp only [not_forall, Nat.not_le] at hascii
    obtain ⟨c, hc, hhigh⟩ := hascii
    have hspoils : ∀ d : Char, 127 < d.toNat →
        (d != '\n' && d != '\r') = true ∧ ¬ Written d := by
      intro d hd
      refine ⟨?_, fun hw => Nat.not_le.2 hd hw.le⟩
      simp only [Bool.and_eq_true, bne_iff_ne]
      constructor
      · rintro rfl
        exact absurd hd (by decide)
      · rintro rfl
        exact absurd hd (by decide)
    obtain ⟨b, hb⟩ := List.exists_mem_of_ne_nil _ (String.utf8EncodeChar_ne_nil (c := c))
    have hb' : 127 < (Char.ofUInt8 b).toNat := GoStrings.lt_of_mem_utf8EncodeChar hhigh b hb
    have hmem : Char.ofUInt8 b ∈ (s.toList.flatMap String.utf8EncodeChar).map Char.ofUInt8 :=
      List.mem_map_of_mem (List.mem_flatMap.2 ⟨c, hc, hb⟩)
    rw [decode_eq_none (List.mem_filter.2 ⟨hmem, (hspoils _ hb').1⟩) (hspoils _ hb').2,
      decode_eq_none (List.mem_filter.2 ⟨hc, (hspoils c hhigh).1⟩) (hspoils c hhigh).2]

theorem toUTF8_encodeToString (bs : List UInt8) :
    (encodeToString bs).toUTF8.toList = encodeBytes bs := by
  rw [GoStrings.toList_toUTF8, encodeToString, String.toList_ofList, encodeBytes,
    ← List.flatMap_pure_eq_map]
  exact List.flatMap_congr fun c hc => GoStrings.utf8EncodeChar_of_le (le_of_mem_encode bs c hc)

/-! ## The URL alphabet, without padding -/

/-- A character of the URL alphabet in the standard one. -/
def ofURL (c : Char) : Option Char :=
  if c = '-' then some '+'
  else if c = '_' then some '/'
  else if c = '+' ∨ c = '/' ∨ c = '=' then none
  else some c

def toURL (c : Char) : Char :=
  if c = '+' then '-' else if c = '/' then '_' else c

/-- `RawURLEncoding.DecodeString`. A group of one character is padded
here to one that the decoder refuses. -/
def decodeRawURL (s : String) : Option (List UInt8) :=
  match (s.toList.filter fun c => c != '\n' && c != '\r').mapM ofURL with
  | none => none
  | some cs => decode (cs ++ List.replicate ((4 - cs.length % 4) % 4) '=')

/-- `RawURLEncoding.EncodeToString`. -/
def encodeRawURL (bs : List UInt8) : String :=
  String.ofList (((encode bs).filter fun c => c ≠ '=').map toURL)

end Base64
