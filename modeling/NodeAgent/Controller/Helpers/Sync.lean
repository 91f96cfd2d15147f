import NodeAgent.Controller.Helpers.Chunks
import NodeAgent.Controller.Model.Sync
/-!
# What the two chunked syncs come to

Both are the chunk protocol. The gRPC handler follows it on the messages
received; the REST handler follows it on those it decodes from the frames
of its body, which leaves out the empty ones.
-/

namespace NodeAgent

open UsersChunk Varint

variable {sent : List UsersChunk} {call : BackendUpdate} {err : ChunksErr}

@[simp] theorem users_updateBackend (users : List User) : (updateBackend users).users = users := by
  rw [updateBackend]
  split_ifs
  · rfl
  · rfl

section CallBackend

variable {ε : Type} {failed : ChunksErr → ε} {turns : ℕ} {r : ChunksReceived}

theorem callBackend_eq_ok_iff :
    callBackend failed turns r = some (.ok call) ↔
      ∃ users, buildUsersFromChunks turns r.chunks r.lastIndex r.sawLast = some (.ok users) ∧
        call = updateBackend users := by
  rw [callBackend]
  split
  · next hbuild => simp [hbuild]
  · next hbuild => simp [hbuild]
  · next users hbuild =>
    simp only [hbuild, Option.some.injEq, Except.ok.injEq, exists_eq_left']
    exact eq_comm

theorem callBackend_eq_error_iff :
    (∃ err, callBackend failed turns r = some (.error err)) ↔
      ∃ err, buildUsersFromChunks turns r.chunks r.lastIndex r.sawLast = some (.error err) := by
  rw [callBackend]
  split
  · next hbuild => simp [hbuild]
  · next hbuild => simp [hbuild]
  · next hbuild => simp [hbuild]

end CallBackend

/-! ## The protocol's errors -/

/-- The protocol rejects the chunks, for whatever reason. -/
def Refused (sent : List UsersChunk) : Prop :=
  ∃ turns err, chunkProtocol turns sent = some (.error err)

theorem byIndex_eq_nil_iff (sent : List UsersChunk) (l : UsersChunk) :
    byIndex sent l = [] ↔ ∀ c ∈ upToLast sent, c.index ≤ l.index → c.users = [] := by
  rw [byIndex, Buckets.byKey_eq_filter, List.flatMap_eq_nil_iff]
  simp only [List.mem_filter, List.mem_insertionSort, decide_eq_true_eq, Nat.lt_succ_iff,
    UInt64.le_iff_toNat_le, and_imp]

theorem refused_iff (sent : List UsersChunk) :
    Refused sent ↔ ∀ l, final sent = some l → (∃ n ≤ l.index.toNat, ¬ Sent sent n) ∨
      (l.index.toNat + 1 < 2 ^ 64 ∧ byIndex sent l = []) := by
  have hsplit : Refused sent ↔ Rejected sent ∨ ∃ turns, chunkProtocol turns sent =
      some (.error .noUsers) := by
    constructor
    · rintro ⟨turns, err, h⟩
      by_cases herr : err = .noUsers
      · exact Or.inr ⟨turns, herr ▸ h⟩
      · exact Or.inl ⟨turns, err, h, herr⟩
    · rintro (⟨turns, err, h, -⟩ | ⟨turns, h⟩)
      · exact ⟨turns, err, h⟩
      · exact ⟨turns, .noUsers, h⟩
  rw [hsplit, rejected_iff]
  simp only [chunkProtocol_eq]
  cases hfinal : final sent with
  | none => simp
  | some l =>
    have hsize := l.index.toNat_lt
    have hsent : (∀ n ≤ l.index.toNat,
        (receiveChunks sent ⟨∅, 0, false⟩).chunks.lookup (UInt64.ofNat n) ≠ none) ↔
          ∀ n ≤ l.index.toNat, Sent sent n :=
      forall₂_congr fun n hn => (lookup_received sent (by omega)).1
    simp only [Option.some.injEq, forall_eq', buildUsersFromChunks_noUsers_iff, hsent,
      between_received]
    constructor
    · rintro (hmissing | ⟨hwrap, -, hnil⟩)
      · exact Or.inl hmissing
      · exact Or.inr ⟨hwrap, hnil⟩
    · rintro (hmissing | ⟨hwrap, hnil⟩)
      · exact Or.inl hmissing
      · by_cases hall : ∀ n ≤ l.index.toNat, Sent sent n
        · exact Or.inr ⟨hwrap, hall, hnil⟩
        · push Not at hall
          exact Or.inl hall

/-! ## gRPC -/

namespace Rpc

/-- The handler accepts what it was sent, and calls the backend. -/
def Calls (stream : Stream UsersChunk) (call : BackendUpdate) : Prop :=
  ∃ turns, syncUsersChunked turns stream = some (.ok call)

/-- The handler rejects what it was sent. -/
def Rejects (stream : Stream UsersChunk) : Prop :=
  ∃ turns err, syncUsersChunked turns stream = some (.error err)

theorem calls_iff {stream : Stream UsersChunk} :
    Calls stream call ↔ ∃ users, Accepted stream.received users ∧ call = updateBackend users := by
  have hsaw := (sawLast_receiveChunks stream.received .start rfl).1
  constructor
  · rintro ⟨turns, h⟩
    rw [syncUsersChunked] at h
    split_ifs at h
    · cases h
    · obtain ⟨users, hbuild, hcall⟩ := callBackend_eq_ok_iff.1 h
      exact ⟨users, ⟨turns, hbuild⟩, hcall⟩
  · rintro ⟨users, haccepted, hcall⟩
    obtain ⟨l, hfinal, -⟩ := (accepted_iff _ _).1 haccepted
    obtain ⟨turns, hbuild⟩ := haccepted
    refine ⟨turns, ?_⟩
    rw [syncUsersChunked, hsaw, hfinal]
    exact callBackend_eq_ok_iff.2 ⟨users, hbuild, hcall⟩

theorem rejects_iff (sent : List UsersChunk) : Rejects ⟨sent, true⟩ ↔ Refused sent := by
  refine exists_congr fun turns => ?_
  have hgoesOn : syncUsersChunked turns ⟨sent, true⟩ =
      callBackend .chunks turns (receiveChunks sent .start) := by
    simp only [syncUsersChunked, Bool.not_true, Bool.and_false, Bool.false_eq_true, if_false]
  rw [hgoesOn]
  exact callBackend_eq_error_iff

end Rpc

/-! ## REST -/

namespace Rest

variable {W : Wire} {payloads : List (List UInt8)} {tail : List UInt8}

/-- The handler accepts a body, and calls the backend. -/
def Calls (W : Wire) (body : Stream UInt8) (call : BackendUpdate) : Prop :=
  ∃ turns, syncUsersChunked W turns body = some (.ok call)

/-- The handler rejects a body. -/
def Rejects (W : Wire) (body : Stream UInt8) : Prop :=
  ∃ turns err, syncUsersChunked W turns body = some (.error err)

/-- The chunks of the frames there are: the empty frames are left out, and
what comes after one that cannot be decoded. -/
def decoded (W : Wire) : List (List UInt8) → List UsersChunk
  | [] => []
  | payload :: payloads =>
    if payload = [] then decoded W payloads
    else
      match W.unmarshal payload with
      | none => []
      | some chunk => chunk :: decoded W payloads

theorem length_le_flatMap_frame (payloads : List (List UInt8)) :
    payloads.length ≤ (payloads.flatMap frame).length := by
  induction payloads with
  | nil => exact Nat.zero_le _
  | cons payload payloads ih =>
    have hframe : 0 < (frame payload).length := by
      rw [frame, List.length_append]
      exact Nat.add_pos_left (List.length_pos_iff.2 (putUvarint_ne_nil _)) _
    rw [List.flatMap_cons, List.length_append, List.length_cons]
    omega

/-- **The loop over whole frames.** It ends with a last chunk, or fails, or
goes on with what comes after them. -/
theorem readChunks_frames (W : Wire) (stop : ReadErr) (hsize : ∀ p ∈ payloads, p.length ≤ maxAlloc)
    (tail : List UInt8) (turns : ℕ) (r : ChunksReceived) :
    ((final (decoded W payloads)).isSome = true ∧
        readChunks W stop (payloads.length + turns) (payloads.flatMap frame ++ tail) r =
          some (.ok (receiveChunks (decoded W payloads) r))) ∨
      (final (decoded W payloads) = none ∧
        (readChunks W stop (payloads.length + turns) (payloads.flatMap frame ++ tail) r =
            some (.error .decode) ∨
          readChunks W stop (payloads.length + turns) (payloads.flatMap frame ++ tail) r =
            readChunks W stop turns tail (receiveChunks (decoded W payloads) r))) := by
  induction payloads generalizing r with
  | nil =>
    rw [List.length_nil, Nat.zero_add]
    exact Or.inr ⟨rfl, Or.inr rfl⟩
  | cons payload payloads ih =>
    have hfits : payload.length ≤ maxAlloc := hsize payload List.mem_cons_self
    have hrest := ih fun p hp => hsize p (List.mem_cons_of_mem _ hp)
    have hread : readUvarint stop
        ((payload :: payloads).flatMap frame ++ tail) =
          .ok (payload.length, payload ++ (payloads.flatMap frame ++ tail)) := by
      rw [List.flatMap_cons, frame, List.append_assoc, List.append_assoc]
      exact readUvarint_putUvarint stop _ (lt_of_le_of_lt hfits (by decide))
    rw [List.length_cons, Nat.add_right_comm, readChunks, hread, decoded]
    by_cases hempty : payload = []
    · subst hempty
      simp only [List.length_nil, if_true, List.nil_append]
      exact hrest r
    · have hpos : payload.length ≠ 0 := fun h => hempty (List.length_eq_zero_iff.1 h)
      have hfull : readFull stop payload.length (payload ++ (payloads.flatMap frame ++ tail)) =
          .ok (payload, payloads.flatMap frame ++ tail) := by
        rw [readFull, if_pos (by rw [List.length_append]; omega), List.take_left, List.drop_left]
      simp only [if_neg hpos, if_neg (Nat.not_lt.2 hfits), hfull, if_neg hempty]
      cases hchunk : W.unmarshal payload with
      | none => exact Or.inr ⟨rfl, Or.inl rfl⟩
      | some chunk =>
        simp only [final, List.find?_cons, receiveChunks]
        cases hlast : chunk.last with
        | true => exact Or.inl ⟨rfl, rfl⟩
        | false => exact hrest (r.add chunk)

/-- What a body has after its whole frames: nothing, or a part of one. -/
def Remains (tail : List UInt8) : Prop :=
  tail = [] ∨ ∃ payload, payload.length ≤ maxAlloc ∧ tail <+: frame payload ∧
    tail ≠ frame payload ∧ tail ≠ []

theorem readChunks_remains (W : Wire) (htail : Remains tail) (turns : ℕ) (r : ChunksReceived) :
    readChunks W .eof (turns + 1) tail r = some (.ok r) ∨
      ∃ err, readChunks W .eof (turns + 1) tail r = some (.error err) := by
  rcases htail with rfl | ⟨payload, hfits, hcut, hshort, hne⟩
  · exact Or.inl rfl
  · right
    rcases read_cut .eof (lt_of_le_of_lt hfits (by decide)) hcut hshort hne with
      hlen | ⟨part, err, hlen, hpos, hfull⟩
    · exact ⟨.length .unexpectedEOF, by rw [readChunks, hlen]; rfl⟩
    · refine ⟨.payload err, ?_⟩
      rw [readChunks, hlen]
      simp only [if_neg (Nat.ne_of_gt hpos), if_neg (Nat.not_lt.2 hfits), hfull]

/-- **On a body of whole frames, and what remains of one, the handler
follows the chunk protocol** on the chunks decoded: it has read them, or
there is no last one among them and it fails. -/
theorem syncUsersChunked_frames (W : Wire) (hsize : ∀ p ∈ payloads, p.length ≤ maxAlloc)
    (htail : Remains tail) (turns : ℕ) :
    syncUsersChunked W turns ⟨payloads.flatMap frame ++ tail, true⟩ =
        callBackend .chunks turns (receiveChunks (decoded W payloads) .start) ∨
      (final (decoded W payloads) = none ∧ ∃ err, syncUsersChunked W turns
        ⟨payloads.flatMap frame ++ tail, true⟩ = some (.error err)) := by
  have hlength := length_le_flatMap_frame payloads
  -- a turn for every frame, and one at least for what remains
  obtain ⟨extra, hturns⟩ : ∃ extra, (payloads.flatMap frame ++ tail).length + 1 =
      payloads.length + (extra + 1) :=
    ⟨(payloads.flatMap frame ++ tail).length - payloads.length,
      by rw [List.length_append]; omega⟩
  simp only [syncUsersChunked, if_true, hturns]
  rcases readChunks_frames W .eof hsize tail (extra + 1) .start with
    ⟨-, hread⟩ | ⟨hnone, hread | hread⟩
  · exact Or.inl (by rw [hread])
  · exact Or.inr ⟨hnone, .decode, by rw [hread]⟩
  · rw [hread]
    rcases readChunks_remains W htail extra (receiveChunks (decoded W payloads) .start) with
      hends | ⟨err, hfails⟩
    · exact Or.inl (by rw [hends])
    · exact Or.inr ⟨hnone, err, by rw [hfails]⟩

theorem calls_frames_iff (hsize : ∀ p ∈ payloads, p.length ≤ maxAlloc) (htail : Remains tail)
    (call : BackendUpdate) :
    Calls W ⟨payloads.flatMap frame ++ tail, true⟩ call ↔
      ∃ users, Accepted (decoded W payloads) users ∧ call = updateBackend users := by
  constructor
  · rintro ⟨turns, h⟩
    rcases syncUsersChunked_frames W hsize htail turns with heq | ⟨-, err, heq⟩
    · rw [heq] at h
      obtain ⟨users, hbuild, hcall⟩ := callBackend_eq_ok_iff.1 h
      exact ⟨users, ⟨turns, hbuild⟩, hcall⟩
    · rw [heq] at h
      cases h
  · rintro ⟨users, haccepted, hcall⟩
    obtain ⟨l, hfinal, -⟩ := (accepted_iff _ _).1 haccepted
    obtain ⟨turns, hbuild⟩ := haccepted
    rcases syncUsersChunked_frames W hsize htail turns with heq | ⟨hnone, -⟩
    · exact ⟨turns, by rw [heq]; exact callBackend_eq_ok_iff.2 ⟨users, hbuild, hcall⟩⟩
    · rw [hfinal] at hnone
      cases hnone

theorem rejects_frames_iff (hsize : ∀ p ∈ payloads, p.length ≤ maxAlloc) (htail : Remains tail) :
    Rejects W ⟨payloads.flatMap frame ++ tail, true⟩ ↔ Refused (decoded W payloads) := by
  constructor
  · rintro ⟨turns, h⟩
    rcases syncUsersChunked_frames W hsize htail turns with heq | ⟨hnone, -⟩
    · rw [heq] at h
      exact ⟨turns, callBackend_eq_error_iff.1 h⟩
    · refine (refused_iff _).2 fun l hl => ?_
      rw [hnone] at hl
      cases hl
  · rintro ⟨turns, hbuild⟩
    rcases syncUsersChunked_frames W hsize htail turns with heq | ⟨-, err, heq⟩
    · refine ⟨turns, ?_⟩
      rw [heq]
      exact callBackend_eq_error_iff.2 hbuild
    · exact ⟨turns, err, heq⟩

end Rest

end NodeAgent
