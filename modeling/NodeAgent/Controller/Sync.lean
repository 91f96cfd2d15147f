import NodeAgent.Controller.Helpers.Sync
import NodeAgent.Controller.Wire
/-!
# Whom a chunked sync reaches, and over which transport

The chunks of a stream are put together by index, from zero to the index
of the chunk marked as the last one. A chunk of a greater index has been
read by then, and the users in it are left out without an error.

Over REST a chunk with nothing set is an empty frame, which the handler
passes over, while over gRPC it is a chunk of index zero like any other.
So a stream that opens with one may be accepted over gRPC only. And a
handler that has read a last chunk does not look at what follows, so a
body cut off after that is not noticed.
-/

namespace NodeAgent

open UsersChunk Varint

variable {sent : List UsersChunk} {call : BackendUpdate}

/-! ## Whom it reaches -/

/-- **All users of the chunks that were read**, by index, and within an
index as they came. -/
def UsersChunk.everyone (sent : List UsersChunk) : List User :=
  (Buckets.byKey (fun c => c.index.toNat) (upToLast sent) (2 ^ 64)).flatMap users

theorem everyone_eq (sent : List UsersChunk) :
    everyone sent = ((upToLast sent).insertionSort fun c d =>
      c.index.toNat ≤ d.index.toNat).flatMap users := by
  have hall : ∀ c ∈ (upToLast sent).insertionSort fun c d => c.index.toNat ≤ d.index.toNat,
      decide (c.index.toNat < 2 ^ 64) = true := fun c _ => decide_eq_true c.index.toNat_lt
  rw [everyone, Buckets.byKey_eq_filter, List.filter_eq_self.2 hall]

theorem byIndex_eq_everyone_iff (sent : List UsersChunk) (l : UsersChunk) :
    byIndex sent l = everyone sent ↔
      ∀ c ∈ upToLast sent, l.index < c.index → c.users = [] := by
  have habove : ∀ c : UsersChunk,
      decide (c.index.toNat < l.index.toNat + 1) = false ↔ l.index < c.index := by
    intro c
    rw [UInt64.lt_iff_toNat_lt, decide_eq_false_iff_not]
    omega
  rw [byIndex, Buckets.byKey_eq_filter, everyone_eq]
  constructor
  · intro h c hc hlt
    refine Buckets.nil_of_flatMap_filter users (Nat.le_of_eq (congrArg List.length h).symm) c ?_
      ((habove c).2 hlt)
    exact (List.mem_insertionSort _).2 hc
  · intro h
    refine Buckets.flatMap_filter_of_nil users fun c hc hno => ?_
    exact h c ((List.mem_insertionSort _).1 hc) ((habove c).1 hno)

/-- **An accepted sync reaches everyone exactly if no user is in a chunk of
a greater index than the last one.** -/
theorem accepted_reaches_everyone_iff {stream : Stream UsersChunk} (h : Rpc.Calls stream call) :
    call.users = everyone stream.received ↔
      ∀ l, final stream.received = some l →
        ∀ c ∈ upToLast stream.received, l.index < c.index → c.users = [] := by
  obtain ⟨users, haccepted, rfl⟩ := Rpc.calls_iff.1 h
  obtain ⟨l, hfinal, -, -, -, rfl⟩ := (accepted_iff _ _).1 haccepted
  rw [users_updateBackend, hfinal, byIndex_eq_everyone_iff]
  simp only [Option.some.injEq, forall_eq']

namespace SyncDemo

def alice : User :=
  ⟨"alice", none, ["in"]⟩

def bob : User :=
  ⟨"bob", none, ["in"]⟩

def swapped : Stream UsersChunk :=
  ⟨[⟨[bob], 1, false⟩, ⟨[alice], 0, false⟩, ⟨[], 1, true⟩], true⟩

def beyond : Stream UsersChunk :=
  ⟨[⟨[bob], 1, false⟩, ⟨[alice], 0, true⟩], true⟩

end SyncDemo

theorem accepted_reaches_everyone_swapped :
    everyone SyncDemo.swapped.received = [SyncDemo.alice, SyncDemo.bob] ∧
      ∃ call, Rpc.Calls SyncDemo.swapped call ∧ call.users = everyone SyncDemo.swapped.received := by
  have hcalls : Rpc.Calls SyncDemo.swapped (.updateUsers [SyncDemo.alice, SyncDemo.bob]) :=
    ⟨3, rfl⟩
  have hall : everyone SyncDemo.swapped.received = [SyncDemo.alice, SyncDemo.bob] := by
    rw [everyone_eq]
    decide
  refine ⟨hall, _, hcalls, (accepted_reaches_everyone_iff hcalls).2 ?_⟩
  decide

/-- **A user above the last chunk is dropped.** -/
theorem chunk_beyond_last_dropped :
    Rpc.Calls SyncDemo.beyond (.updateUsers [SyncDemo.alice]) ∧
      everyone SyncDemo.beyond.received = [SyncDemo.alice, SyncDemo.bob] ∧
      (BackendUpdate.updateUsers [SyncDemo.alice]).users ≠ everyone SyncDemo.beyond.received := by
  have hall : everyone SyncDemo.beyond.received = [SyncDemo.alice, SyncDemo.bob] := by
    rw [everyone_eq]
    decide
  refine ⟨⟨2, rfl⟩, hall, ?_⟩
  rw [hall]
  decide

/-! ## Over which transport -/

/-- The messages as the body of a request: each behind its length. -/
def Wire.body (W : Wire) (sent : List W.Message) : Stream UInt8 :=
  ⟨sent.flatMap fun c => frame (W.marshal c.chunk), true⟩

/-- **Both handlers reject a sequence of chunks, or both call the backend
with the same users.** -/
def TransportsAgree (W : Wire) (sent : List W.Message) : Prop :=
  (Rpc.Rejects ⟨sent.map Wire.Message.chunk, true⟩ ∧ Rest.Rejects W (W.body sent)) ∨
    ∃ call call', Rpc.Calls ⟨sent.map Wire.Message.chunk, true⟩ call ∧
      Rest.Calls W (W.body sent) call' ∧ call.users = call'.users

/-- **A part of a frame.** -/
structure CutOff (cut : List UInt8) : Prop where
  part : ∃ payload : List UInt8, payload.length ≤ maxAlloc ∧ cut <+: frame payload ∧
    cut ≠ frame payload
  some : cut ≠ []

/-- Where every index up to the last one was sent, the loop ends, and if
somebody comes, a chunk of index zero is not one with nothing set. -/
def Told (sent : List UsersChunk) : Prop :=
  ∀ l, final sent = some l → (∀ n ≤ l.index.toNat, Sent sent n) →
    l.index.toNat + 1 < 2 ^ 64 ∧
      ((∃ c ∈ upToLast sent, c.index ≤ l.index ∧ c.users ≠ []) →
        ∃ c ∈ upToLast sent, c.index = 0 ∧ c ≠ .default)

/-- There is no last chunk, or an index is missing, or nobody comes. -/
def Unfinished (sent : List UsersChunk) : Prop :=
  ∀ l, final sent = some l → (∃ n ≤ l.index.toNat, ¬ Sent sent n) ∨
    (l.index.toNat + 1 < 2 ^ 64 ∧ ∀ c ∈ upToLast sent, c.index ≤ l.index → c.users = [])

/-- The chunks with something set. -/
def UsersChunk.nonDefault (sent : List UsersChunk) : List UsersChunk :=
  sent.filter fun c => c ≠ .default

section NonDefault

variable {l : UsersChunk}

theorem last_of_default {c : UsersChunk} (h : c.last = true) : c ≠ .default := by
  rintro rfl
  cases h

theorem upToLast_nonDefault (sent : List UsersChunk) :
    upToLast (nonDefault sent) = nonDefault (upToLast sent) := by
  induction sent with
  | nil => rfl
  | cons c sent ih =>
    rw [nonDefault, List.filter_cons, upToLast]
    cases hlast : c.last with
    | true =>
      have hset : c ≠ .default := last_of_default hlast
      simp [nonDefault, upToLast, hset, hlast]
    | false =>
      by_cases hc : c = .default
      · simpa [nonDefault, hc] using ih
      · simpa [nonDefault, upToLast, hc, hlast] using ih

theorem final_nonDefault (sent : List UsersChunk) : final (nonDefault sent) = final sent := by
  rw [final, final, nonDefault, List.find?_filter]
  congr 1
  funext c
  cases hlast : c.last with
  | true => simpa using last_of_default hlast
  | false => simp

theorem byIndex_nonDefault (sent : List UsersChunk) (l : UsersChunk) :
    byIndex (nonDefault sent) l = byIndex sent l := by
  rw [byIndex, upToLast_nonDefault, nonDefault, ← Buckets.filter_byKey, byIndex]
  refine Buckets.flatMap_filter_of_nil users fun c _ hc => ?_
  obtain rfl : c = .default := by simpa using hc
  rfl

variable (sent) in
theorem sent_nonDefault_iff (bound : ℕ) :
    (∀ n ≤ bound, Sent (nonDefault sent) n) ↔
      (∀ n ≤ bound, Sent sent n) ∧ ∃ c ∈ upToLast sent, c.index = 0 ∧ c ≠ .default := by
  have hsent : ∀ n, Sent (nonDefault sent) n ↔
      ∃ c ∈ upToLast sent, c.index.toNat = n ∧ c ≠ .default := by
    intro n
    rw [Sent, upToLast_nonDefault, nonDefault]
    refine exists_congr fun c => ?_
    rw [List.mem_filter, decide_eq_true_eq, and_assoc, and_comm (a := c ≠ .default)]
  have hzero : ∀ c : UsersChunk, c.index.toNat = 0 ↔ c.index = 0 := fun c => by
    rw [← UInt64.toNat_inj]
    rfl
  simp only [hsent]
  constructor
  · intro h
    obtain ⟨c, hc, hindex, hset⟩ := h 0 (Nat.zero_le bound)
    refine ⟨fun n hn => ?_, c, hc, (hzero c).1 hindex, hset⟩
    obtain ⟨d, hd, hdn, -⟩ := h n hn
    exact ⟨d, hd, hdn⟩
  · rintro ⟨h, c, hc, hindex, hset⟩ n hn
    obtain ⟨d, hd, rfl⟩ := h n hn
    by_cases hdefault : d = .default
    · refine ⟨c, hc, ?_, hset⟩
      rw [hdefault, hindex]
      rfl
    · exact ⟨d, hd, rfl, hdefault⟩

end NonDefault

theorem Wire.marshal_eq_nil_iff (W : Wire) (c : W.Message) :
    W.marshal c.chunk = [] ↔ c.chunk = .default := by
  refine ⟨fun h => ?_, fun h => by rw [h, W.marshal_default]⟩
  have hc := W.unmarshal_marshal c.chunk c.fits
  have hdefault := W.unmarshal_marshal .default (by rw [W.marshal_default]; exact Nat.zero_le _)
  rw [h] at hc
  rw [W.marshal_default] at hdefault
  exact Option.some.inj (hc.symm.trans hdefault)

/-- **The REST handler reads the chunks with something set.** -/
theorem decoded_marshal (W : Wire) (sent : List W.Message) :
    Rest.decoded W (sent.map fun c => W.marshal c.chunk) =
      nonDefault (sent.map Wire.Message.chunk) := by
  induction sent with
  | nil => rfl
  | cons c sent ih =>
    rw [List.map_cons, List.map_cons, Rest.decoded, nonDefault, List.filter_cons]
    by_cases hc : c.chunk = .default
    · rw [if_pos ((W.marshal_eq_nil_iff c).2 hc), ih, if_neg (by simpa using hc)]
      rfl
    · rw [if_neg fun h => hc ((W.marshal_eq_nil_iff c).1 h), W.unmarshal_marshal c.chunk c.fits,
        if_pos (by simpa using hc)]
      simp only [ih]
      rfl

theorem length_marshal_le (W : Wire) (sent : List W.Message) :
    ∀ p ∈ sent.map fun c => W.marshal c.chunk, p.length ≤ maxAlloc := by
  intro p hp
  obtain ⟨c, -, rfl⟩ := List.mem_map.1 hp
  exact c.fits

theorem body_eq (W : Wire) (sent : List W.Message) :
    W.body sent = ⟨(sent.map fun c => W.marshal c.chunk).flatMap frame ++ [], true⟩ := by
  rw [Wire.body, List.append_nil, List.flatMap_map]

theorem transportsAgree_iff_protocol (W : Wire) (sent : List W.Message) :
    TransportsAgree W sent ↔
      (Refused (sent.map Wire.Message.chunk) ∧
          Refused (nonDefault (sent.map Wire.Message.chunk))) ∨
        ∃ users, Accepted (sent.map Wire.Message.chunk) users ∧
          Accepted (nonDefault (sent.map Wire.Message.chunk)) users := by
  have hsize := length_marshal_le W sent
  have hrejects := Rest.rejects_frames_iff (W := W) hsize (Or.inl rfl)
  have hcalls := Rest.calls_frames_iff (W := W) hsize (Or.inl rfl)
  rw [TransportsAgree, body_eq, hrejects, Rpc.rejects_iff]
  simp only [hcalls, Rpc.calls_iff, decoded_marshal]
  refine or_congr Iff.rfl ⟨?_, ?_⟩
  · rintro ⟨call, call', ⟨users, haccepted, rfl⟩, ⟨users', haccepted', rfl⟩, hsame⟩
    rw [users_updateBackend, users_updateBackend] at hsame
    exact ⟨users, haccepted, hsame ▸ haccepted'⟩
  · rintro ⟨users, haccepted, haccepted'⟩
    exact ⟨_, _, ⟨users, haccepted, rfl⟩, ⟨users, haccepted', rfl⟩, rfl⟩

/-- **When the two transports agree.** -/
theorem transportsAgree_iff_told (W : Wire) (sent : List W.Message) :
    TransportsAgree W sent ↔ Told (sent.map Wire.Message.chunk) := by
  rw [transportsAgree_iff_protocol]
  generalize sent.map Wire.Message.chunk = all
  simp only [refused_iff, accepted_iff, final_nonDefault, byIndex_nonDefault, Told]
  cases hfinal : final all with
  | none => simp
  | some l =>
    have hevery := sent_nonDefault_iff all l.index.toNat
    have hmissing : ∀ s : List UsersChunk, (∃ n ≤ l.index.toNat, ¬ Sent s n) ↔
        ¬ ∀ n ≤ l.index.toNat, Sent s n := by
      intro s
      push Not
      rfl
    have hsome : (∃ c ∈ upToLast all, c.index ≤ l.index ∧ c.users ≠ []) ↔
        byIndex all l ≠ [] := by
      rw [ne_eq, byIndex_eq_nil_iff]
      push Not
      rfl
    simp only [Option.some.injEq, forall_eq', exists_eq_left', hmissing, hevery, hsome]
    -- only what is said of the indices and of index zero matters from here on
    generalize (∀ n ≤ l.index.toNat, Sent all n) = every
    generalize (∃ c ∈ upToLast all, c.index = 0 ∧ c ≠ .default) = zero
    generalize (l.index.toNat + 1 < 2 ^ 64) = ends
    by_cases hevery : every
    · by_cases hnil : byIndex all l = []
      · simpa [hevery, hnil] using fun hends : ends => (Or.inr hends : ¬ zero ∨ ends)
      · simp [hevery, hnil]
    · simp [hevery]

/-- **When a body that is cut off is rejected.** -/
theorem rejects_cut_iff (W : Wire) {payloads : List (List UInt8)} {cut : List UInt8}
    (hsize : ∀ p ∈ payloads, p.length ≤ maxAlloc) (hcut : CutOff cut) :
    Rest.Rejects W ⟨payloads.flatMap frame ++ cut, true⟩ ↔
      Unfinished (Rest.decoded W payloads) := by
  obtain ⟨payload, hfits, hpart, hshort⟩ := hcut.part
  rw [Rest.rejects_frames_iff hsize (Or.inr ⟨payload, hfits, hpart, hshort, hcut.some⟩),
    refused_iff, Unfinished]
  simp only [byIndex_eq_nil_iff]

/-- **What REST and gRPC make of the same chunks.** They agree on the
sequences that are `Told`, and on no others; and a body that is cut off
inside a frame is rejected exactly if the frames before are `Unfinished`. -/
theorem chunked_transports (W : Wire) :
    (∀ sent : List W.Message,
      TransportsAgree W sent ↔ Told (sent.map Wire.Message.chunk)) ∧
      ∀ (payloads : List (List UInt8)) (cut : List UInt8),
        (∀ p ∈ payloads, p.length ≤ maxAlloc) → CutOff cut →
        (Rest.Rejects W ⟨payloads.flatMap frame ++ cut, true⟩ ↔
          Unfinished (Rest.decoded W payloads)) :=
  ⟨transportsAgree_iff_told W, fun _ _ hsize hcut => rejects_cut_iff W hsize hcut⟩

namespace SyncDemo

open Protobuf

theorem marshal_alice : Proto.user.marshal alice =
    [10, 5, 97, 108, 105, 99, 101, 26, 2, 105, 110] := by
  have halice : utf8 "alice" = [97, 108, 105, 99, 101] := by decide
  have hin : utf8 "in" = [105, 110] := by decide
  have hfields : Proto.user.marshal alice =
      encode (text 1 "alice" ++ message Proto.proxy 2 none ++ texts 3 ["in"]) := rfl
  simp [hfields, text, texts, message, encode, Field.encode, frame, putUvarint_of_lt, halice, hin]

theorem marshal_chunk (index : UInt64) (last : Bool) :
    protoWire.marshal ⟨[alice], index, last⟩ =
      [10, 11, 10, 5, 97, 108, 105, 99, 101, 26, 2, 105, 110] ++
        encode (uint 2 index) ++ encode (uint 3 (if last then 1 else 0)) := by
  have hfields : protoWire.marshal ⟨[alice], index, last⟩ = encode (messages Proto.user 1 [alice] ++
      uint 2 index ++ uint 3 (if last then 1 else 0)) := rfl
  simp [hfields, messages, encode, Field.encode, frame, marshal_alice, putUvarint_of_lt]

def first : protoWire.Message where
  chunk := ⟨[alice], 0, true⟩
  fits := by
    simp [marshal_chunk, uint, encode, Field.encode, putUvarint_of_lt, maxAlloc]

def second : protoWire.Message where
  chunk := ⟨[alice], 1, true⟩
  fits := by
    simp [marshal_chunk, uint, encode, Field.encode, putUvarint_of_lt, maxAlloc]

def nothing : protoWire.Message where
  chunk := .default
  fits := Nat.zero_le _

def cut : List UInt8 :=
  [2, 1]

theorem cutOff_cut : CutOff cut := by
  have hframe : frame [1, 1] = [2, 1, 1] := by simp [frame, putUvarint_of_lt]
  refine ⟨⟨[1, 1], by decide, ?_, ?_⟩, List.cons_ne_nil _ _⟩
  · rw [hframe]
    exact ⟨[1], rfl⟩
  · rw [hframe]
    decide

end SyncDemo

open SyncDemo in
/-- A chunk is told, and a body cut off before its last chunk is
rejected. -/
theorem chunked_transports_first :
    TransportsAgree protoWire [first] ∧ Rest.Rejects protoWire ⟨cut, true⟩ := by
  obtain ⟨hagree, hcut⟩ := chunked_transports protoWire
  refine ⟨(hagree [first]).2 ?_, ?_⟩
  · rintro l hl -
    obtain rfl : first.chunk = l := Option.some.inj hl
    exact ⟨by decide, fun _ => ⟨first.chunk, List.mem_cons_self, rfl, by decide⟩⟩
  · refine (hcut [] cut (fun p hp => absurd hp List.not_mem_nil) cutOff_cut).2 fun l hl => ?_
    cases hl

open SyncDemo in
/-- **An empty frame is passed over**: what is accepted over gRPC is
rejected over REST. **And what is cut off after the last chunk** is
accepted. -/
theorem transports_differ :
    (Rpc.Calls ⟨[nothing.chunk, second.chunk], true⟩ (.updateUsers [alice]) ∧
      Rest.Rejects protoWire (protoWire.body [nothing, second]) ∧
      ¬ TransportsAgree protoWire [nothing, second]) ∧
    CutOff cut ∧
      Rest.Calls protoWire ⟨[protoWire.marshal first.chunk].flatMap frame ++ cut, true⟩
        (.updateUsers [alice]) ∧
      ¬ Rest.Rejects protoWire ⟨[protoWire.marshal first.chunk].flatMap frame ++ cut, true⟩ := by
  have hsize : ∀ p ∈ [protoWire.marshal first.chunk], p.length ≤ maxAlloc :=
    length_marshal_le protoWire [first]
  have hfirst : Rest.decoded protoWire [protoWire.marshal first.chunk] = [first.chunk] :=
    decoded_marshal protoWire [first]
  refine ⟨⟨⟨3, rfl⟩, ?_, ?_⟩, cutOff_cut, ?_, ?_⟩
  · rw [body_eq, Rest.rejects_frames_iff (length_marshal_le _ _) (Or.inl rfl), decoded_marshal]
    exact ⟨1, .missingIndex 0, rfl⟩
  · rw [transportsAgree_iff_told]
    intro htold
    have hsent : ∀ n ≤ second.chunk.index.toNat, Sent [nothing.chunk, second.chunk] n := by
      intro n hn
      rcases Nat.le_one_iff_eq_zero_or_eq_one.1 hn with rfl | rfl
      · exact ⟨nothing.chunk, by decide, rfl⟩
      · exact ⟨second.chunk, by decide, rfl⟩
    obtain ⟨c, hc, hzero, hset⟩ :=
      (htold second.chunk rfl hsent).2 ⟨second.chunk, by decide, by decide, by decide⟩
    rcases List.mem_pair.1 hc with rfl | rfl
    · exact hset rfl
    · exact absurd hzero (by decide)
  · obtain ⟨payload, hfits, hpart, hshort⟩ := cutOff_cut.part
    rw [Rest.calls_frames_iff hsize (Or.inr ⟨payload, hfits, hpart, hshort,
      cutOff_cut.some⟩), hfirst]
    exact ⟨[alice], ⟨2, rfl⟩, rfl⟩
  · rw [rejects_cut_iff protoWire hsize cutOff_cut, hfirst]
    intro hunfinished
    rcases hunfinished first.chunk rfl with ⟨n, hn, hmissing⟩ | ⟨-, hnobody⟩
    · obtain rfl := Nat.le_zero.1 hn
      exact hmissing ⟨first.chunk, List.mem_singleton_self _, rfl⟩
    · exact List.cons_ne_nil _ _ (hnobody first.chunk (List.mem_singleton_self _) (UInt64.le_refl _))

end NodeAgent
