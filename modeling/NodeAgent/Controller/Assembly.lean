import Mathlib.Data.List.Nodup
import NodeAgent.Controller.Helpers.Chunks
/-!
# Putting the chunks together ends

The loop of `BuildUsersFromChunks` runs to an index its sender chose, and
at the greatest index there is its guard always holds. It ends all the
same: every turn but the last finds a chunk of its own, so it takes at most
one more turn than there are chunks, and a map with fewer chunks than
indices never brings the counter round.
-/

namespace NodeAgent

variable {chunks : GoMap UInt64 (List User)} {lastIndex i : UInt64}
variable {turns k : ℕ} {users : List User} {res : Except ChunksErr (List User)}

/-- **Where the loop comes to**: at a test of its guard after `k` turns,
with the counter and what is collected. -/
inductive ChunkLoopAt (chunks : GoMap UInt64 (List User)) (lastIndex : UInt64) :
    ℕ → UInt64 → List User → Prop
  | start : ChunkLoopAt chunks lastIndex 0 0 []
  /-- A turn that finds its chunk. -/
  | next {k : ℕ} {i : UInt64} {users chunkUsers : List User} :
      ChunkLoopAt chunks lastIndex k i users → i ≤ lastIndex →
      chunks.lookup i = some chunkUsers →
      ChunkLoopAt chunks lastIndex (k + 1) (i + 1) (users ++ chunkUsers)

theorem ChunkLoopAt.chunkLoop_eq (h : ChunkLoopAt chunks lastIndex k i users) (turns : ℕ) :
    chunkLoop chunks lastIndex (turns + k) 0 [] = chunkLoop chunks lastIndex turns i users := by
  induction h generalizing turns with
  | start => rfl
  | @next k i users chunkUsers _ hle hlookup ih =>
    have hturns : turns + (k + 1) = turns + 1 + k := by omega
    rw [hturns, ih, chunkLoop, if_pos hle, hlookup]

/-- **The chunks of the first `n` indices are so many chunks.** -/
theorem le_length_keys {n : ℕ} (hn : n ≤ 2 ^ 64)
    (hall : ∀ j < n, chunks.lookup (UInt64.ofNat j) ≠ none) : n ≤ chunks.keys.length := by
  have hnodup : ((List.range n).map UInt64.ofNat).Nodup := by
    refine List.Nodup.map_on (fun a ha b hb hab => ?_) List.nodup_range
    rw [List.mem_range] at ha hb
    rw [← UInt64.toNat_inj, UInt64.toNat_ofNat', UInt64.toNat_ofNat'] at hab
    omega
  have hkeys : (List.range n).map UInt64.ofNat ⊆ chunks.keys := by
    intro key hkey
    obtain ⟨j, hj, rfl⟩ := List.mem_map.1 hkey
    rw [← AList.mem_keys, ← AList.lookup_isSome, Option.isSome_iff_ne_none]
    exact hall j (List.mem_range.1 hj)
  have hlen := (List.subperm_of_subset hnodup hkeys).length_le
  rwa [List.length_map, List.length_range] at hlen

/-- **The counter counts the turns**, and each turn had its chunk. -/
theorem ChunkLoopAt.counted (hsize : chunks.keys.length < 2 ^ 64)
    (h : ChunkLoopAt chunks lastIndex k i users) :
    i.toNat = k ∧ k ≤ chunks.keys.length ∧
      ∀ j < k, chunks.lookup (UInt64.ofNat j) ≠ none := by
  induction h with
  | start => exact ⟨rfl, Nat.zero_le _, fun j hj => absurd hj (Nat.not_lt_zero j)⟩
  | @next k i users chunkUsers _ hle hlookup ih =>
    obtain ⟨hcount, hk, hall⟩ := ih
    have hall' : ∀ j < k + 1, chunks.lookup (UInt64.ofNat j) ≠ none := by
      intro j hj
      rcases Nat.lt_succ_iff_lt_or_eq.1 hj with hlt | rfl
      · exact hall j hlt
      · rw [← hcount, UInt64.ofNat_toNat, hlookup]
        exact Option.some_ne_none _
    have hk' : k + 1 ≤ chunks.keys.length := le_length_keys (by omega) hall'
    refine ⟨?_, hk', hall'⟩
    have hone : (1 : UInt64).toNat = 1 := rfl
    rw [UInt64.toNat_add]
    omega

theorem chunkLoop_mono {more : ℕ} (h : chunkLoop chunks lastIndex turns i users = some res)
    (hmore : turns ≤ more) : chunkLoop chunks lastIndex more i users = some res := by
  induction turns generalizing more i users with
  | zero => cases h
  | succ turns ih =>
    obtain ⟨more, rfl⟩ : ∃ m, more = m + 1 := ⟨more - 1, by omega⟩
    rw [chunkLoop] at h ⊢
    split_ifs at h ⊢ with hle
    · cases hlookup : chunks.lookup i with
      | none => rwa [hlookup] at h
      | some chunkUsers =>
        rw [hlookup] at h
        exact ih h (by omega)
    · exact h

theorem buildUsersFromChunks_mono {sawLast : Bool} {more : ℕ}
    (h : buildUsersFromChunks turns chunks lastIndex sawLast = some res) (hmore : turns ≤ more) :
    buildUsersFromChunks more chunks lastIndex sawLast = some res := by
  rw [buildUsersFromChunks] at h ⊢
  split_ifs at h ⊢ with hsaw
  · exact h
  · cases hloop : chunkLoop chunks lastIndex turns 0 [] with
    | none =>
      rw [hloop] at h
      cases h
    | some looped =>
      rw [hloop] at h
      rw [chunkLoop_mono hloop hmore]
      exact h

/-- **The loop ends** within one more turn than there are chunks. -/
theorem chunkLoop_total (hsize : chunks.keys.length < 2 ^ 64) (lastIndex : UInt64) :
    ∃ res, ∀ turns, chunks.keys.length + 1 ≤ turns →
      chunkLoop chunks lastIndex turns 0 [] = some res := by
  have hindex := lastIndex.toNat_lt
  by_cases hmissing : ∃ k, k ≤ lastIndex.toNat ∧ chunks.lookup (UInt64.ofNat k) = none
  · -- the indices before the first one missing have a chunk each
    obtain ⟨k, ⟨hk, hnone⟩, hfirst⟩ := Nat.findX hmissing
    have hbelow : ∀ j < k, chunks.lookup (UInt64.ofNat j) ≠ none :=
      fun j hj hj' => hfirst j hj ⟨by omega, hj'⟩
    have hcount : k ≤ chunks.keys.length := le_length_keys (by omega) hbelow
    have hlast : 0 + k ≤ lastIndex.toNat := by omega
    have hnone' : chunks.lookup (UInt64.ofNat (0 + k)) = none := by rwa [Nat.zero_add]
    have hloop := chunkLoop_missing hlast (fun j _ hj => hbelow j (by omega)) hnone' []
    exact ⟨_, fun turns hturns => chunkLoop_mono hloop (by omega)⟩
  · have hall : ∀ k ≤ lastIndex.toNat, chunks.lookup (UInt64.ofNat k) ≠ none :=
      fun k hk hnone => hmissing ⟨k, hk, hnone⟩
    have hcount : lastIndex.toNat + 1 ≤ chunks.keys.length :=
      le_length_keys (by omega) fun j hj => hall j (by omega)
    have hloop := chunkLoop_ok (Nat.zero_add (lastIndex.toNat + 1)) (by omega)
      (fun k _ => hall k) []
    exact ⟨_, fun turns hturns => chunkLoop_mono hloop (by omega)⟩

theorem buildUsersFromChunks_total (hsize : chunks.keys.length < 2 ^ 64) (lastIndex : UInt64)
    (sawLast : Bool) :
    ∃ res, ∀ turns, chunks.keys.length + 1 ≤ turns →
      buildUsersFromChunks turns chunks lastIndex sawLast = some res := by
  obtain ⟨looped, hloop⟩ := chunkLoop_total hsize lastIndex
  cases sawLast with
  | false => exact ⟨.error .missingFinal, fun _ _ => rfl⟩
  | true =>
    cases looped with
    | error err =>
      refine ⟨.error err, fun turns hturns => ?_⟩
      rw [buildUsersFromChunks, hloop turns hturns]
      rfl
    | ok users =>
      refine ⟨if users.length = 0 then .error .noUsers else .ok users, fun turns hturns => ?_⟩
      rw [buildUsersFromChunks, hloop turns hturns]
      simp only [Bool.not_true, Bool.false_eq_true, if_false]
      split_ifs <;> rfl

/-- **Chunks are put together in a bounded number of turns**, the counter
never wraps, and it is the users by index that come of it, exactly where
the final chunk was seen, no index is missing and there is somebody. -/
theorem assembled (hsize : chunks.keys.length < 2 ^ 64) (lastIndex : UInt64) (sawLast : Bool) :
    ∃ res,
      (∀ turns, chunks.keys.length + 1 ≤ turns →
        buildUsersFromChunks turns chunks lastIndex sawLast = some res) ∧
      (∀ k i users, ChunkLoopAt chunks lastIndex k i users →
        i.toNat = k ∧ k ≤ chunks.keys.length) ∧
      ∀ out, res = .ok out ↔ sawLast = true ∧
        (∀ k ≤ lastIndex.toNat, chunks.lookup (UInt64.ofNat k) ≠ none) ∧
        out ≠ [] ∧ out = between chunks 0 (lastIndex.toNat + 1) := by
  obtain ⟨res, hres⟩ := buildUsersFromChunks_total hsize lastIndex sawLast
  refine ⟨res, hres, fun k i users h => ?_, fun out => ?_⟩
  · exact ⟨(h.counted hsize).1, (h.counted hsize).2.1⟩
  cases sawLast with
  | false =>
    have hmissing : res = .error .missingFinal := (Option.some.inj (hres _ le_rfl)).symm
    simp [hmissing]
  | true =>
    constructor
    · rintro rfl
      obtain ⟨-, hbuilt⟩ := buildUsersFromChunks_ok_iff.1 ⟨_, hres _ le_rfl⟩
      exact ⟨rfl, hbuilt⟩
    · rintro ⟨-, hall, hbuilt⟩
      have hcount : lastIndex.toNat + 1 ≤ chunks.keys.length :=
        le_length_keys lastIndex.toNat_lt fun j hj => hall j (by omega)
      obtain ⟨turns, hok⟩ := buildUsersFromChunks_ok_iff.2 ⟨by omega, hall, hbuilt⟩
      have hboth := buildUsersFromChunks_mono hok (Nat.le_max_left turns (chunks.keys.length + 1))
      rw [hres _ (Nat.le_max_right _ _)] at hboth
      exact Option.some.inj hboth

/-- Two chunks, the later one entered first. -/
def twoChunks : GoMap UInt64 (List User) :=
  let later : GoMap UInt64 (List User) := AList.insert 1 [⟨"b", none, []⟩] ∅
  later.insert 0 [⟨"a", none, []⟩]

/-- They are put together in order, and with the greatest index there is
the loop stops at the third one. -/
theorem assembled_twoChunks :
    (∃ res, (∀ turns, 3 ≤ turns → buildUsersFromChunks turns twoChunks 1 true = some res) ∧
      res = .ok [⟨"a", none, []⟩, ⟨"b", none, []⟩]) ∧
    ∀ turns, 3 ≤ turns →
      buildUsersFromChunks turns twoChunks 18446744073709551615 true =
        some (.error (.missingIndex 2)) := by
  have hsize : twoChunks.keys.length < 2 ^ 64 := by decide
  constructor
  · obtain ⟨res, hturns, -, hok⟩ := assembled hsize 1 true
    refine ⟨res, hturns, (hok _).2 ⟨rfl, ?_, List.cons_ne_nil _ _, rfl⟩⟩
    intro k hk
    have hcases : k = 0 ∨ k = 1 := by
      have hlast : (1 : UInt64).toNat = 1 := rfl
      omega
    rcases hcases with rfl | rfl <;> exact Option.some_ne_none _
  · intro turns hturns
    obtain ⟨res, hres, -⟩ := assembled hsize 18446744073709551615 true
    have hthree : buildUsersFromChunks 3 twoChunks 18446744073709551615 true =
        some (.error (.missingIndex 2)) := by decide
    rw [hres turns hturns, ← hres 3 le_rfl, hthree]

end NodeAgent
