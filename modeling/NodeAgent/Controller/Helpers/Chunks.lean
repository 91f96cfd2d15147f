import Mathlib.Data.Nat.Find
import NodeAgent.Controller.Model.Chunks
import NodeAgent.Common.Buckets
/-!
# What the chunk protocol comes to

The protocol reads up to the first chunk marked as the last one, and gives
the users by index, and within an index as they came. It accepts where
every index from `0` to that of the last chunk was sent, and somebody came
with it. With a chunk of every index there is its loop would never end.
-/

namespace NodeAgent

variable {sent : List UsersChunk} {c l : UsersChunk}

namespace UsersChunk

/-- The chunks the protocol reads. -/
def upToLast : List UsersChunk → List UsersChunk
  | [] => []
  | c :: rest => if c.last then [c] else c :: upToLast rest

/-- The chunk it ends with. -/
def final (sent : List UsersChunk) : Option UsersChunk :=
  sent.find? UsersChunk.last

/-- The users of the chunks of an index, as they came. -/
def atIndex (sent : List UsersChunk) (n : ℕ) : List User :=
  ((upToLast sent).filter fun c => c.index.toNat = n).flatMap users

/-- **The users by index**, up to that of the final chunk. -/
def byIndex (sent : List UsersChunk) (l : UsersChunk) : List User :=
  (Buckets.byKey (fun c => c.index.toNat) (upToLast sent) (l.index.toNat + 1)).flatMap users

/-- A chunk of the index was read. -/
def Sent (sent : List UsersChunk) (n : ℕ) : Prop :=
  ∃ c ∈ upToLast sent, c.index.toNat = n

end UsersChunk

open UsersChunk

/-! ## What is received -/

theorem sawLast_receiveChunks (sent : List UsersChunk) (r : ChunksReceived)
    (hr : r.sawLast = false) :
    (receiveChunks sent r).sawLast = (final sent).isSome ∧
      (receiveChunks sent r).lastIndex = ((final sent).map index).getD r.lastIndex := by
  induction sent generalizing r with
  | nil => exact ⟨hr, rfl⟩
  | cons c rest ih =>
    rw [receiveChunks, ChunksReceived.add, final, List.find?_cons]
    cases hlast : c.last with
    | true => exact ⟨rfl, rfl⟩
    | false => exact ih _ hr

theorem lookup_receiveChunks (sent : List UsersChunk) (r : ChunksReceived) (i : UInt64) :
    (receiveChunks sent r).chunks.lookup i =
      if ∃ c ∈ upToLast sent, c.index = i then
        some ((r.chunks.lookup i).getD [] ++
          ((upToLast sent).filter fun c => c.index = i).flatMap users)
      else r.chunks.lookup i := by
  induction sent generalizing r with
  | nil => simp [receiveChunks, upToLast]
  | cons c rest ih =>
    rw [receiveChunks, ChunksReceived.add, upToLast]
    cases hlast : c.last with
    | true =>
      simp only [if_true]
      rw [GoMap.lookup_insert_eq]
      by_cases hi : i = c.index
      · subst hi
        simp
      · simp [hi, Ne.symm hi]
    | false =>
      simp only [Bool.false_eq_true, if_false]
      rw [ih, GoMap.lookup_insert_eq]
      by_cases hi : i = c.index
      · subst hi
        by_cases hrest : ∃ d ∈ upToLast rest, d.index = c.index
        · simp [hrest]
        · have hnone : (upToLast rest).filter (fun d => d.index = c.index) = [] := by
            refine List.filter_eq_nil_iff.2 fun d hd => ?_
            simpa using fun heq : d.index = c.index => hrest ⟨d, hd, heq⟩
          simp [hrest, hnone]
      · simp [hi, Ne.symm hi]

/-! ## The loop -/

section Loop

variable {chunks : GoMap UInt64 (List User)} {lastIndex i : UInt64}
variable {turns : ℕ} {users out : List User}

/-- The users of the chunks from one index up to another. -/
def between (chunks : GoMap UInt64 (List User)) (n count : ℕ) : List User :=
  (List.range' n count).flatMap fun k => (chunks.lookup (UInt64.ofNat k)).getD []

theorem between_succ (chunks : GoMap UInt64 (List User)) (n count : ℕ) :
    between chunks n (count + 1) =
      (chunks.lookup (UInt64.ofNat n)).getD [] ++ between chunks (n + 1) count := by
  rw [between, List.range'_succ, List.flatMap_cons]
  rfl

/-- **Where every index is there and the counter does not wrap, the loop
ends with all of them.** -/
theorem chunkLoop_ok {n count : ℕ} (hn : n + count = lastIndex.toNat + 1)
    (hwrap : lastIndex.toNat + 1 < 2 ^ 64)
    (hall : ∀ k, n ≤ k → k ≤ lastIndex.toNat → chunks.lookup (UInt64.ofNat k) ≠ none)
    (users : List User) :
    chunkLoop chunks lastIndex (count + 1) (UInt64.ofNat n) users =
      some (.ok (users ++ between chunks n count)) := by
  induction count generalizing n users with
  | zero =>
    have hpast : ¬ UInt64.ofNat n ≤ lastIndex := by
      rw [UInt64.le_iff_toNat_le, UInt64.toNat_ofNat']
      omega
    rw [chunkLoop, if_neg hpast]
    simp [between]
  | succ count ih =>
    have hle : UInt64.ofNat n ≤ lastIndex := by
      rw [UInt64.le_iff_toNat_le, UInt64.toNat_ofNat']
      omega
    obtain ⟨chunkUsers, hlookup⟩ := Option.ne_none_iff_exists'.1 (hall n le_rfl (by omega))
    have hnext : UInt64.ofNat n + 1 = UInt64.ofNat (n + 1) := by
      rw [UInt64.ofNat_add]
      rfl
    rw [chunkLoop, if_pos hle, hlookup]
    simp only
    rw [hnext, ih (by omega) fun k hk => hall k (by omega), between_succ, hlookup,
      List.append_assoc]
    rfl

/-- **Where an index is missing, it ends with the first such.** -/
theorem chunkLoop_missing {n count : ℕ} (hn : n + count ≤ lastIndex.toNat)
    (hall : ∀ k, n ≤ k → k < n + count → chunks.lookup (UInt64.ofNat k) ≠ none)
    (hmissing : chunks.lookup (UInt64.ofNat (n + count)) = none) (users : List User) :
    chunkLoop chunks lastIndex (count + 1) (UInt64.ofNat n) users =
      some (.error (.missingIndex (UInt64.ofNat (n + count)))) := by
  have hle : UInt64.ofNat n ≤ lastIndex := by
    have hsize := lastIndex.toNat_lt
    rw [UInt64.le_iff_toNat_le, UInt64.toNat_ofNat']
    omega
  induction count generalizing n users with
  | zero =>
    rw [Nat.add_zero] at hmissing
    rw [chunkLoop, if_pos hle, hmissing, Nat.add_zero]
  | succ count ih =>
    obtain ⟨chunkUsers, hlookup⟩ := Option.ne_none_iff_exists'.1 (hall n le_rfl (by omega))
    have hnext : UInt64.ofNat n + 1 = UInt64.ofNat (n + 1) := by
      rw [UInt64.ofNat_add]
      rfl
    have hsum : n + (count + 1) = n + 1 + count := by omega
    have hle' : UInt64.ofNat (n + 1) ≤ lastIndex := by
      have hsize := lastIndex.toNat_lt
      rw [UInt64.le_iff_toNat_le, UInt64.toNat_ofNat']
      omega
    rw [hsum] at hmissing ⊢
    rw [chunkLoop, if_pos hle, hlookup]
    simp only
    rw [hnext]
    exact ih (by omega) (fun k hk hk' => hall k (by omega) (by omega)) hmissing _ hle'

theorem chunkLoop_ends {res : Except ChunksErr (List User)}
    (h : chunkLoop chunks lastIndex turns i users = some res) :
    (∃ k ≤ lastIndex.toNat, chunks.lookup (UInt64.ofNat k) = none ∧
        res = .error (.missingIndex (UInt64.ofNat k))) ∨
      lastIndex.toNat + 1 < 2 ^ 64 ∧
        (∀ k, i.toNat ≤ k → k ≤ lastIndex.toNat → chunks.lookup (UInt64.ofNat k) ≠ none) ∧
        res = .ok (users ++ between chunks i.toNat (lastIndex.toNat + 1 - i.toNat)) := by
  induction turns generalizing i users with
  | zero => cases h
  | succ turns ih =>
    rw [chunkLoop] at h
    split_ifs at h with hle
    · rw [UInt64.le_iff_toNat_le] at hle
      cases hlookup : chunks.lookup i with
      | none =>
        rw [hlookup] at h
        refine Or.inl ⟨i.toNat, hle, ?_, ?_⟩
        · rwa [UInt64.ofNat_toNat]
        · rw [UInt64.ofNat_toNat]
          exact (Option.some.inj h).symm
      | some chunkUsers =>
        rw [hlookup] at h
        rcases ih h with hmissing | ⟨hwrap, hall, hout⟩
        · exact Or.inl hmissing
        · have hnext : (i + 1).toNat = i.toNat + 1 := by
            have hone : (1 : UInt64).toNat = 1 := rfl
            rw [UInt64.toNat_add]
            omega
          rw [hnext] at hall hout
          refine Or.inr ⟨hwrap, fun k hk hk' => ?_, ?_⟩
          · rcases Nat.eq_or_lt_of_le hk with heq | hlt
            · rw [← heq, UInt64.ofNat_toNat, hlookup]
              exact Option.some_ne_none _
            · exact hall k hlt hk'
          · have hcount : lastIndex.toNat + 1 - i.toNat =
                lastIndex.toNat + 1 - (i.toNat + 1) + 1 := by omega
            rw [hout, hcount, between_succ, UInt64.ofNat_toNat, hlookup, List.append_assoc]
            rfl
    · rw [UInt64.le_iff_toNat_le] at hle
      have hsize := i.toNat_lt
      have hcount : lastIndex.toNat + 1 - i.toNat = 0 := by omega
      refine Or.inr ⟨by omega, fun k hk hk' => absurd (hk.trans hk') hle, ?_⟩
      rw [hcount, between, List.range'_zero, List.flatMap_nil, List.append_nil]
      exact (Option.some.inj h).symm

theorem buildUsersFromChunks_ok_iff :
    (∃ turns, buildUsersFromChunks turns chunks lastIndex true = some (.ok out)) ↔
      lastIndex.toNat + 1 < 2 ^ 64 ∧
        (∀ k ≤ lastIndex.toNat, chunks.lookup (UInt64.ofNat k) ≠ none) ∧
        out ≠ [] ∧ out = between chunks 0 (lastIndex.toNat + 1) := by
  constructor
  · rintro ⟨turns, h⟩
    rw [buildUsersFromChunks, if_neg (by decide)] at h
    split at h
    · cases h
    · cases h
    · next users hloop =>
      split_ifs at h with hempty
      · cases h
      · rw [List.length_eq_zero_iff] at hempty
        obtain rfl : users = out := Except.ok.inj (Option.some.inj h)
        rcases chunkLoop_ends hloop with ⟨k, hk, hmissing, hres⟩ | ⟨hwrap, hall, hres⟩
        · cases hres
        · exact ⟨hwrap, fun k => hall k (Nat.zero_le k), hempty, Except.ok.inj hres⟩
  · rintro ⟨hwrap, hall, hne, hout⟩
    have hloop := chunkLoop_ok (Nat.zero_add (lastIndex.toNat + 1)) hwrap (fun k _ => hall k) []
    rw [List.nil_append, ← hout] at hloop
    refine ⟨lastIndex.toNat + 1 + 1, ?_⟩
    rw [buildUsersFromChunks, if_neg (by decide)]
    rw [show (0 : UInt64) = UInt64.ofNat 0 from rfl, hloop]
    exact if_neg fun h => hne (List.length_eq_zero_iff.1 h)

theorem buildUsersFromChunks_missing_iff :
    (∃ turns err, buildUsersFromChunks turns chunks lastIndex true = some (.error err) ∧
      err ≠ .noUsers) ↔ ∃ k ≤ lastIndex.toNat, chunks.lookup (UInt64.ofNat k) = none := by
  constructor
  · rintro ⟨turns, err, h, herr⟩
    rw [buildUsersFromChunks, if_neg (by decide)] at h
    split at h
    · cases h
    · next hloop =>
      rcases chunkLoop_ends hloop with ⟨k, hk, hmissing, hres⟩ | ⟨hwrap, hall, hres⟩
      · exact ⟨k, hk, hmissing⟩
      · cases hres
    · split_ifs at h
      · exact absurd (Except.error.inj (Option.some.inj h)).symm herr
      · cases h
  · intro hmissing
    -- the loop ends with the first index that is missing
    obtain ⟨k, ⟨hk, hnone⟩, hfirst⟩ := Nat.findX hmissing
    have hbelow : ∀ j, 0 ≤ j → j < 0 + k → chunks.lookup (UInt64.ofNat j) ≠ none := by
      intro j _ hj hj'
      rw [Nat.zero_add] at hj
      exact hfirst j hj ⟨by omega, hj'⟩
    have hloop := chunkLoop_missing (by rwa [Nat.zero_add]) hbelow (by rwa [Nat.zero_add]) []
    refine ⟨k + 1, .missingIndex (UInt64.ofNat (0 + k)), ?_, ChunksErr.noConfusion⟩
    rw [buildUsersFromChunks, if_neg (by decide)]
    rw [show (0 : UInt64) = UInt64.ofNat 0 from rfl, hloop]

theorem buildUsersFromChunks_noUsers_iff :
    (∃ turns, buildUsersFromChunks turns chunks lastIndex true = some (.error .noUsers)) ↔
      lastIndex.toNat + 1 < 2 ^ 64 ∧
        (∀ k ≤ lastIndex.toNat, chunks.lookup (UInt64.ofNat k) ≠ none) ∧
        between chunks 0 (lastIndex.toNat + 1) = [] := by
  constructor
  · rintro ⟨turns, h⟩
    rw [buildUsersFromChunks, if_neg (by decide)] at h
    split at h
    · cases h
    · next hloop =>
      rcases chunkLoop_ends hloop with ⟨k, hk, hmissing, hres⟩ | ⟨hwrap, hall, hres⟩
      · rw [Except.error.inj hres] at h
        cases h
      · cases hres
    · next users hloop =>
      split_ifs at h with hempty
      · rw [List.length_eq_zero_iff] at hempty
        rcases chunkLoop_ends hloop with ⟨k, hk, hmissing, hres⟩ | ⟨hwrap, hall, hres⟩
        · cases hres
        · refine ⟨hwrap, fun k => hall k (Nat.zero_le k), ?_⟩
          rw [hempty] at hres
          exact (Except.ok.inj hres).symm
      · cases h
  · rintro ⟨hwrap, hall, hnil⟩
    have hloop := chunkLoop_ok (Nat.zero_add (lastIndex.toNat + 1)) hwrap (fun k _ => hall k) []
    rw [List.nil_append, hnil] at hloop
    refine ⟨lastIndex.toNat + 1 + 1, ?_⟩
    rw [buildUsersFromChunks, if_neg (by decide)]
    rw [show (0 : UInt64) = UInt64.ofNat 0 from rfl, hloop]
    rfl

end Loop

/-! ## The protocol -/

/-- **The protocol accepts the chunks**, with these users. -/
def Accepted (sent : List UsersChunk) (users : List User) : Prop :=
  ∃ turns, chunkProtocol turns sent = some (.ok users)

/-- **The protocol rejects the chunks** for an index that is missing, or
because none is marked as the last one. -/
def Rejected (sent : List UsersChunk) : Prop :=
  ∃ turns err, chunkProtocol turns sent = some (.error err) ∧ err ≠ .noUsers

theorem lookup_received (sent : List UsersChunk) {n : ℕ} (hn : n < 2 ^ 64) :
    ((receiveChunks sent ⟨∅, 0, false⟩).chunks.lookup (UInt64.ofNat n) ≠ none ↔ Sent sent n) ∧
      ((receiveChunks sent ⟨∅, 0, false⟩).chunks.lookup (UInt64.ofNat n)).getD [] =
        atIndex sent n := by
  have hindex : ∀ c : UsersChunk, c.index = UInt64.ofNat n ↔ c.index.toNat = n := by
    intro c
    rw [← UInt64.toNat_inj, UInt64.toNat_ofNat', Nat.mod_eq_of_lt hn]
  have hfilter : (upToLast sent).filter (fun c => c.index = UInt64.ofNat n) =
      (upToLast sent).filter fun c => c.index.toNat = n :=
    List.filter_congr fun c _ => by simp only [hindex c]
  rw [lookup_receiveChunks, hfilter]
  simp only [hindex]
  split_ifs with hsent
  · exact ⟨iff_of_true (Option.some_ne_none _) hsent, rfl⟩
  · refine ⟨iff_of_false (fun h => h rfl) hsent, ?_⟩
    have hnone : (upToLast sent).filter (fun c => c.index.toNat = n) = [] := by
      refine List.filter_eq_nil_iff.2 fun c hc => ?_
      simpa using fun heq : c.index.toNat = n => hsent ⟨c, hc, heq⟩
    rw [atIndex, hnone]
    rfl

theorem chunkProtocol_eq (turns : ℕ) (sent : List UsersChunk) :
    chunkProtocol turns sent =
      match final sent with
      | none => some (.error .missingFinal)
      | some l => buildUsersFromChunks turns (receiveChunks sent ⟨∅, 0, false⟩).chunks l.index
          true := by
  obtain ⟨hsaw, hindex⟩ := sawLast_receiveChunks sent ⟨∅, 0, false⟩ rfl
  rw [chunkProtocol, hsaw, hindex]
  cases final sent with
  | none => rfl
  | some l => rfl

theorem between_received (sent : List UsersChunk) (l : UsersChunk) :
    between (receiveChunks sent ⟨∅, 0, false⟩).chunks 0 (l.index.toNat + 1) = byIndex sent l := by
  rw [between, byIndex, Buckets.byKey, List.flatMap_assoc, ← List.range_eq_range']
  refine List.flatMap_congr fun n hn => ?_
  have hsize := l.index.toNat_lt
  exact (lookup_received sent (by rw [List.mem_range] at hn; omega)).2

theorem accepted_iff (sent : List UsersChunk) (users : List User) :
    Accepted sent users ↔ ∃ l, final sent = some l ∧ l.index.toNat + 1 < 2 ^ 64 ∧
      (∀ n ≤ l.index.toNat, Sent sent n) ∧ users ≠ [] ∧ users = byIndex sent l := by
  simp only [Accepted, chunkProtocol_eq]
  cases hfinal : final sent with
  | none => simp
  | some l =>
    have hsize := l.index.toNat_lt
    have hsent : (∀ n ≤ l.index.toNat,
        (receiveChunks sent ⟨∅, 0, false⟩).chunks.lookup (UInt64.ofNat n) ≠ none) ↔
          ∀ n ≤ l.index.toNat, Sent sent n :=
      forall₂_congr fun n hn => (lookup_received sent (by omega)).1
    rw [buildUsersFromChunks_ok_iff, hsent, between_received]
    simp only [Option.some.injEq, exists_eq_left']

theorem rejected_iff (sent : List UsersChunk) :
    Rejected sent ↔ ∀ l, final sent = some l → ∃ n ≤ l.index.toNat, ¬ Sent sent n := by
  simp only [Rejected, chunkProtocol_eq]
  cases hfinal : final sent with
  | none =>
    refine iff_of_true ⟨0, .missingFinal, rfl, ChunksErr.noConfusion⟩ fun l h => ?_
    cases h
  | some l =>
    have hsize := l.index.toNat_lt
    rw [buildUsersFromChunks_missing_iff]
    simp only [Option.some.injEq, forall_eq']
    refine exists_congr fun n => and_congr_right fun hn => ?_
    rw [← (lookup_received sent (show n < 2 ^ 64 by omega)).1, not_ne_iff]

end NodeAgent
