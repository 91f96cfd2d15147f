import NodeAgent.Common.Ranging
import NodeAgent.Common.Varint
/-!
# The wire format of protocol buffers

A message is a list of fields, each a number and a value: a varint, or
bytes behind their length, which a text, a list's element or a message
inside the message is. What is not set is left out. Fields are written in
the order of the message and read by their number, so the readers here ask
a list of fields for one number at a time.
-/

namespace Protobuf

open Varint

/-- The values of the two wire types used here. -/
inductive Value
  | varint (n : UInt64)
  | bytes (bs : List UInt8)

structure Field where
  number : UInt32
  value : Value

/-- A field: its number and wire type, and its value. -/
def Field.encode (f : Field) : List UInt8 :=
  match f.value with
  | .varint n => putUvarint (f.number.toNat * 8) ++ putUvarint n.toNat
  | .bytes bs => putUvarint (f.number.toNat * 8 + 2) ++ frame bs

/-- A message. -/
def encode (fs : List Field) : List UInt8 :=
  fs.flatMap Field.encode

/-- The value of a wire type, and the input after it. -/
def decodeValue (wireType : ℕ) (bytes : List UInt8) : Option (Value × List UInt8) :=
  match readUvarint .eof bytes with
  | .error _ => none
  | .ok (n, rest) =>
    if wireType = 0 then some (.varint (UInt64.ofNat n), rest)
    else if wireType = 2 then
      match readFull .eof n rest with
      | .error _ => none
      | .ok (bs, rest) => some (.bytes bs, rest)
    else none

/-- The field the input starts with, and the input after it. -/
def decodeField (bytes : List UInt8) : Option (Field × List UInt8) :=
  match readUvarint .eof bytes with
  | .error _ => none
  | .ok (tag, rest) =>
    if tag / 8 < 2 ^ 32 then
      (decodeValue (tag % 8) rest).map fun p => (⟨UInt32.ofNat (tag / 8), p.1⟩, p.2)
    else none

/-- The fields of the input; `none` if it takes more turns than it is
given. -/
def decodeFields : ℕ → List UInt8 → Option (List Field)
  | _, [] => some []
  | 0, _ => none
  | turns + 1, bytes =>
    (decodeField bytes).bind fun p => (decodeFields turns p.2).map (p.1 :: ·)

/-- The fields of a message. A field is a byte at least. -/
def decode (bytes : List UInt8) : Option (List Field) :=
  decodeFields bytes.length bytes

variable {f : Field} {fs gs : List Field} {n m : UInt32}

/-! ## Fields -/

/-- What has to fit into sixty-four bits. -/
def Field.Fits (f : Field) : Prop :=
  ∀ bs, f.value = .bytes bs → bs.length < 2 ^ 64

theorem Field.encode_ne_nil (f : Field) : f.encode ≠ [] := by
  rw [encode]
  split
  · exact List.append_ne_nil_of_left_ne_nil (putUvarint_ne_nil _) _
  · exact List.append_ne_nil_of_left_ne_nil (putUvarint_ne_nil _) _

/-- **A field is read back.** -/
theorem decodeField_encode (h : f.Fits) (rest : List UInt8) :
    decodeField (f.encode ++ rest) = some (f, rest) := by
  obtain ⟨number, value⟩ := f
  have hnumber : number.toNat < 2 ^ 32 := number.toNat_lt
  cases value with
  | varint n =>
    have htag := readUvarint_putUvarint .eof (putUvarint n.toNat ++ rest)
      (show number.toNat * 8 < 2 ^ 64 by omega)
    have hvalue := readUvarint_putUvarint .eof rest n.toNat_lt
    have hdiv : number.toNat * 8 / 8 = number.toNat := by omega
    have hmod : number.toNat * 8 % 8 = 0 := by omega
    rw [Field.encode, List.append_assoc, decodeField, htag]
    simp only [hdiv, hmod, if_pos hnumber, decodeValue, hvalue, if_true, Option.map_some,
      UInt32.ofNat_toNat, UInt64.ofNat_toNat]
  | bytes bs =>
    have hsize : bs.length < 2 ^ 64 := h bs rfl
    have htag := readUvarint_putUvarint .eof (frame bs ++ rest)
      (show number.toNat * 8 + 2 < 2 ^ 64 by omega)
    have hlength := readUvarint_putUvarint .eof (bs ++ rest) hsize
    have hfull : readFull .eof bs.length (bs ++ rest) = .ok (bs, rest) := by
      rw [readFull, if_pos (by rw [List.length_append]; omega), List.take_left, List.drop_left]
    have hdiv : (number.toNat * 8 + 2) / 8 = number.toNat := by omega
    have hmod : (number.toNat * 8 + 2) % 8 = 2 := by omega
    rw [Field.encode, List.append_assoc, decodeField, htag]
    rw [← List.append_assoc] at hlength
    simp only [hdiv, hmod, if_pos hnumber, decodeValue, frame, hlength, hfull,
      if_neg (show ¬ 2 = 0 by decide), if_true, Option.map_some, UInt32.ofNat_toNat]

theorem decodeFields_encode (h : ∀ f ∈ fs, f.Fits) {turns : ℕ} (hturns : fs.length ≤ turns) :
    decodeFields turns (encode fs) = some fs := by
  induction fs generalizing turns with
  | nil =>
    cases turns with
    | zero => rfl
    | succ turns => rfl
  | cons f fs ih =>
    cases turns with
    | zero => exact absurd hturns (Nat.not_succ_le_zero _)
    | succ turns =>
      have hfield := decodeField_encode (h f List.mem_cons_self) (encode fs)
      have hrest := ih (fun g hg => h g (List.mem_cons_of_mem f hg)) (Nat.le_of_succ_le_succ hturns)
      obtain ⟨b, bs, hb⟩ := List.exists_cons_of_ne_nil f.encode_ne_nil
      have hmessage : encode (f :: fs) = f.encode ++ encode fs := rfl
      rw [hmessage, hb, List.cons_append, decodeFields, ← List.cons_append, ← hb, hfield,
        Option.bind_some, hrest]
      rfl
      · exact List.cons_ne_nil _ _

theorem length_le_encode {bs : List UInt8} (h : ⟨n, .bytes bs⟩ ∈ fs) :
    bs.length ≤ (encode fs).length := by
  have hfield : Field.encode ⟨n, .bytes bs⟩ =
      putUvarint (n.toNat * 8 + 2) ++ (putUvarint bs.length ++ bs) := rfl
  obtain ⟨before, after, rfl⟩ := List.append_of_mem h
  simp only [encode, List.flatMap_append, List.flatMap_cons, hfield, List.length_append]
  omega

/-- **A message is read back.** -/
theorem decode_encode (h : (encode fs).length < 2 ^ 64) : decode (encode fs) = some fs := by
  refine decodeFields_encode (fun f hf bs hbs => ?_) ?_
  · obtain ⟨number, value⟩ := f
    obtain rfl : value = .bytes bs := hbs
    exact lt_of_le_of_lt (length_le_encode hf) h
  · clear h
    induction fs with
    | nil => exact Nat.zero_le _
    | cons f fs ih =>
      have hpos : 0 < f.encode.length := List.length_pos_iff.2 f.encode_ne_nil
      have hmessage : (encode (f :: fs)).length = f.encode.length + (encode fs).length := by
        rw [encode, List.flatMap_cons, List.length_append]
        rfl
      rw [List.length_cons, hmessage]
      omega

/-! ## Messages -/

/-- The texts of a message are UTF-8. -/
def utf8 (s : String) : List UInt8 :=
  s.toUTF8.data.toList

def ofUtf8 (bs : List UInt8) : Option String :=
  String.fromUTF8? ⟨bs.toArray⟩

theorem ofUtf8_utf8 (s : String) : ofUtf8 (utf8 s) = some s := by
  have hbytes : (⟨(utf8 s).toArray⟩ : ByteArray) = s.toByteArray := by
    rw [utf8, Array.toArray_toList]
    rfl
  rw [ofUtf8, hbytes, String.fromUTF8?, dif_pos s.isValidUTF8]
  rfl

/-- The bytes under a number, as they come. -/
def bytesOf (n : UInt32) (fs : List Field) : List (List UInt8) :=
  fs.filterMap fun f =>
    match f.value with
    | .varint _ => none
    | .bytes bs => if f.number = n then some bs else none

/-- The varints under a number, as they come. -/
def varintsOf (n : UInt32) (fs : List Field) : List UInt64 :=
  fs.filterMap fun f =>
    match f.value with
    | .varint v => if f.number = n then some v else none
    | .bytes _ => none

/-- **A kind of message**: its fields, and how it is made of them again. -/
structure Codec (α : Type) where
  fields : α → List Field
  ofFields : List Field → Option α
  ofFields_fields : ∀ a, (encode (fields a)).length < 2 ^ 64 → ofFields (fields a) = some a

namespace Codec

variable {α : Type} (C : Codec α)

def marshal (a : α) : List UInt8 :=
  encode (C.fields a)

def unmarshal (bytes : List UInt8) : Option α :=
  (decode bytes).bind C.ofFields

theorem unmarshal_marshal {a : α} (h : (C.marshal a).length < 2 ^ 64) :
    C.unmarshal (C.marshal a) = some a := by
  rw [unmarshal, marshal, decode_encode h, Option.bind_some, C.ofFields_fields a h]

end Codec

/-! ### Written -/

/-- A text; the empty one is left out. -/
def text (n : UInt32) (s : String) : List Field :=
  if s = "" then [] else [⟨n, .bytes (utf8 s)⟩]

def texts (n : UInt32) (l : List String) : List Field :=
  l.map fun s => ⟨n, .bytes (utf8 s)⟩

/-- A number; zero is left out. -/
def uint (n : UInt32) (v : UInt64) : List Field :=
  if v = 0 then [] else [⟨n, .varint v⟩]

section

variable {α : Type} (C : Codec α)

/-- A message inside the message, if there is one. -/
def message (n : UInt32) (o : Option α) : List Field :=
  o.toList.map fun a => ⟨n, .bytes (C.marshal a)⟩

def messages (n : UInt32) (l : List α) : List Field :=
  l.map fun a => ⟨n, .bytes (C.marshal a)⟩

/-! ### Read -/

/-- The last text counts. -/
def readText (n : UInt32) (fs : List Field) : Option String :=
  match (bytesOf n fs).getLast? with
  | none => some ""
  | some bs => ofUtf8 bs

def readTexts (n : UInt32) (fs : List Field) : Option (List String) :=
  (bytesOf n fs).mapM ofUtf8

def readUint (n : UInt32) (fs : List Field) : UInt64 :=
  (varintsOf n fs).getLast?.getD 0

/-- A message that comes in parts is the one its parts make together. -/
def readMessage (n : UInt32) (fs : List Field) : Option (Option α) :=
  match bytesOf n fs with
  | [] => some none
  | l => (C.unmarshal l.flatten).map some

def readMessages (n : UInt32) (fs : List Field) : Option (List α) :=
  (bytesOf n fs).mapM C.unmarshal

end

/-! ### Read back -/

@[simp] theorem bytesOf_append (n : UInt32) (fs gs : List Field) :
    bytesOf n (fs ++ gs) = bytesOf n fs ++ bytesOf n gs :=
  List.filterMap_append

@[simp] theorem varintsOf_append (n : UInt32) (fs gs : List Field) :
    varintsOf n (fs ++ gs) = varintsOf n fs ++ varintsOf n gs :=
  List.filterMap_append

theorem bytesOf_map {β : Type} (n m : UInt32) (l : List β) (g : β → List UInt8) :
    bytesOf n (l.map fun b => ⟨m, .bytes (g b)⟩) = if m = n then l.map g else [] := by
  rw [bytesOf, List.filterMap_map]
  split_ifs with h
  · rw [← List.filterMap_eq_map]
    exact List.filterMap_congr fun b _ => if_pos h
  · exact List.filterMap_eq_nil_iff.2 fun b _ => if_neg h

@[simp] theorem bytesOf_texts (n m : UInt32) (l : List String) :
    bytesOf n (texts m l) = if m = n then l.map utf8 else [] :=
  bytesOf_map n m l utf8

@[simp] theorem bytesOf_text (n m : UInt32) (s : String) :
    bytesOf n (text m s) = if m = n ∧ s ≠ "" then [utf8 s] else [] := by
  rw [text]
  by_cases hs : s = ""
  · rw [if_pos hs, if_neg fun h => h.2 hs]
    rfl
  · rw [if_neg hs]
    by_cases hm : m = n
    · rw [if_pos ⟨hm, hs⟩]
      exact (bytesOf_texts n m [s]).trans (if_pos hm)
    · rw [if_neg fun h => hm h.1]
      exact (bytesOf_texts n m [s]).trans (if_neg hm)

@[simp] theorem bytesOf_uint (n m : UInt32) (v : UInt64) : bytesOf n (uint m v) = [] := by
  rw [uint]
  split_ifs
  · rfl
  · rfl

theorem varintsOf_map {β : Type} (n m : UInt32) (l : List β) (g : β → List UInt8) :
    varintsOf n (l.map fun b => ⟨m, .bytes (g b)⟩) = [] := by
  rw [varintsOf, List.filterMap_map]
  exact List.filterMap_eq_nil_iff.2 fun b _ => rfl

@[simp] theorem varintsOf_uint (n m : UInt32) (v : UInt64) :
    varintsOf n (uint m v) = if m = n ∧ v ≠ 0 then [v] else [] := by
  rw [uint]
  by_cases hv : v = 0
  · rw [if_pos hv, if_neg fun h => h.2 hv]
    rfl
  · rw [if_neg hv]
    by_cases hm : m = n
    · rw [if_pos ⟨hm, hv⟩]
      simp [varintsOf, hm]
    · rw [if_neg fun h => hm h.1]
      simp [varintsOf, hm]

section

variable {α : Type} (C : Codec α)

@[simp] theorem bytesOf_message (n m : UInt32) (o : Option α) :
    bytesOf n (message C m o) = if m = n then o.toList.map C.marshal else [] :=
  bytesOf_map n m o.toList C.marshal

@[simp] theorem bytesOf_messages (n m : UInt32) (l : List α) :
    bytesOf n (messages C m l) = if m = n then l.map C.marshal else [] :=
  bytesOf_map n m l C.marshal

@[simp] theorem varintsOf_messages (n m : UInt32) (l : List α) :
    varintsOf n (messages C m l) = [] :=
  varintsOf_map n m l C.marshal

end

theorem mapM_map_eq_some {α β : Type} {g : α → β} {h : β → Option α} {l : List α}
    (hl : ∀ a ∈ l, h (g a) = some a) : (l.map g).mapM h = some l := by
  rw [Ranging.mapM_eq_some_iff, List.map_map]
  exact List.map_congr_left hl

theorem readText_eq {s : String} (h : bytesOf n fs = if s ≠ "" then [utf8 s] else []) :
    readText n fs = some s := by
  rw [readText, h]
  by_cases hs : s = ""
  · rw [if_neg (not_not.2 hs), hs]
    rfl
  · rw [if_pos hs]
    exact ofUtf8_utf8 s

theorem readTexts_eq {l : List String} (h : bytesOf n fs = l.map utf8) :
    readTexts n fs = some l := by
  rw [readTexts, h]
  exact mapM_map_eq_some fun s _ => ofUtf8_utf8 s

theorem readUint_eq {v : UInt64} (h : varintsOf n fs = if v ≠ 0 then [v] else []) :
    readUint n fs = v := by
  rw [readUint, h]
  by_cases hv : v = 0
  · rw [if_neg (not_not.2 hv), hv]
    rfl
  · rw [if_pos hv]
    rfl

section

variable {α : Type} {C : Codec α}

theorem length_le_of_mem_bytesOf {bs : List UInt8} (h : bs ∈ bytesOf n fs) :
    bs.length ≤ (encode fs).length := by
  obtain ⟨⟨number, value⟩, hf, hbs⟩ := List.mem_filterMap.1 h
  cases value with
  | varint v => cases hbs
  | bytes bs' =>
    simp only at hbs
    split_ifs at hbs
    · rw [← Option.some.inj hbs]
      exact length_le_encode hf

theorem readMessage_eq {o : Option α} (hlength : (encode fs).length < 2 ^ 64)
    (h : bytesOf n fs = o.toList.map C.marshal) : readMessage C n fs = some o := by
  rw [readMessage]
  cases o with
  | none =>
    rw [h]
    rfl
  | some a =>
    have hmem : C.marshal a ∈ bytesOf n fs := by
      rw [h]
      exact List.mem_singleton_self _
    have hread := C.unmarshal_marshal (lt_of_le_of_lt (length_le_of_mem_bytesOf hmem) hlength)
    rw [h]
    show (C.unmarshal [C.marshal a].flatten).map some = some (some a)
    rw [List.flatten_singleton, hread]
    rfl

theorem readMessages_eq {l : List α} (hlength : (encode fs).length < 2 ^ 64)
    (h : bytesOf n fs = l.map C.marshal) : readMessages C n fs = some l := by
  rw [readMessages, h]
  refine mapM_map_eq_some fun a ha => C.unmarshal_marshal ?_
  have hmem : C.marshal a ∈ bytesOf n fs := by
    rw [h]
    exact List.mem_map_of_mem ha
  exact lt_of_le_of_lt (length_le_of_mem_bytesOf hmem) hlength

end

end Protobuf
