import NodeAgent.Controller.Helpers.Chunks
import NodeAgent.Shared.Helpers.Place
/-!
# A customer's chunks and the chunk protocol

The node has one protocol for users that come in chunks, and the handler
of its customers does not look at any of it: it neither orders the chunks
by their index nor waits for the last one. So a list arrives as the
protocol would put it together only if the chunks that bring users come in
the order of their indices, none after the last and none above it; and a
stream that was cut short replaces the customer's set all the same, unless
the part that came is one `SetTenantUsers` refuses in every state.
-/

namespace NodeAgent

open History UsersChunk

variable {m : Manager} {T : String} {us : List User} {sent : List UsersChunk} {l : UsersChunk}

/-! ## What is asked of the handler -/

/-- **A tenant's users are left alone**: its set, the indexes, what was
read of their traffic, and who is live. -/
structure Manager.LeftAlone (T : String) (m m' : Manager) : Prop where
  users : ∀ x, (m'.usersOf T).lookup x = (m.usersOf T).lookup x
  emailTo : ∀ e, m'.emailTo.lookup e = m.emailTo.lookup e
  creds : ∀ c, m'.creds.lookup c = m.creds.lookup c
  lastSeen : ∀ e, m'.lastSeen.lookup e = m.lastSeen.lookup e
  live : ∀ tag e, m'.live.on tag e = m.live.on tag e

/-- **The handler follows the protocol** on the chunks of a stream: the
list it sets is the one the protocol accepts, and where the protocol
rejects them nothing happens, in any state and surroundings. -/
structure FollowsProtocol (sent : List UsersChunk) : Prop where
  accepted : ∀ users, Accepted sent users → GrpcServer.chunkedUsers sent = users
  rejected : Rejected sent → ∀ X arr (m : Manager) T,
    m.LeftAlone T (GrpcServer.receiveChunked X arr m (.tenant T) sent).1

/-! ## When it does -/

namespace UsersChunk

/-- A chunk is marked as the last one, and every index up to its own was
sent by then. -/
structure Complete (sent : List UsersChunk) (l : UsersChunk) : Prop where
  ends : final sent = some l
  every : ∀ n ≤ l.index.toNat, Sent sent n

/-- **The chunks that bring users come in sequence**: none after the last
one, none of a greater index, and none of them has to be moved for the
users to be in the order of the indices. -/
structure InSequence (sent : List UsersChunk) (l : UsersChunk) : Prop where
  after : ∀ c ∈ sent.drop (upToLast sent).length, c.users = []
  above : ∀ c ∈ upToLast sent, l.index < c.index → c.users = []
  unmoved : ((upToLast sent).insertionSort fun c d => c.index.toNat ≤ d.index.toNat).flatMap
    users = (upToLast sent).flatMap users

end UsersChunk

/-- The entry of a list that counts for its email. -/
def LastOf (us : List User) (u : User) : Prop :=
  latest (fun w => w.email = u.email) us = some u

/-- Two emails of a list have a credential in common. -/
def Clashing (us : List User) : Prop :=
  ∃ u v, LastOf us u ∧ LastOf us v ∧ u.email ≠ v.email ∧
    ∃ c ∈ userCredentials u, c ∈ userCredentials v

/-- **The streams the handler treats as the protocol does.** -/
structure Conforms (sent : List UsersChunk) : Prop where
  complete : ∀ l, Complete sent l → l.index.toNat + 1 < 2 ^ 64 →
    (∃ c ∈ upToLast sent, c.index ≤ l.index ∧ c.users ≠ []) → InSequence sent l
  broken : (∀ l, ¬ Complete sent l) → Clashing (sent.flatMap users)

/-! ## The list -/

theorem collect_eq_append (messages : List (List User)) (us : List User) :
    GrpcServer.collect id messages us = us ++ messages.flatten := by
  induction messages generalizing us with
  | nil => simp [GrpcServer.collect]
  | cons message rest ih =>
    rw [GrpcServer.collect, ih, List.flatten_cons, List.append_assoc]
    rfl

theorem chunkedUsers_eq (sent : List UsersChunk) :
    GrpcServer.chunkedUsers sent = sent.flatMap users := by
  rw [GrpcServer.chunkedUsers, collect_eq_append, List.nil_append, List.flatMap_def]

theorem upToLast_append (sent : List UsersChunk) :
    upToLast sent ++ sent.drop (upToLast sent).length = sent := by
  induction sent with
  | nil => rfl
  | cons c rest ih =>
    rw [upToLast]
    split_ifs
    · rfl
    · rw [List.length_cons, List.drop_succ_cons, List.cons_append, ih]

theorem byIndex_eq (sent : List UsersChunk) (l : UsersChunk) :
    byIndex sent l = (((upToLast sent).insertionSort fun c d =>
      c.index.toNat ≤ d.index.toNat).filter fun c => c.index.toNat < l.index.toNat + 1).flatMap
        users := by
  rw [byIndex, Buckets.byKey_eq_filter]

/-- **The chunks give the list of the protocol as they come exactly if they
come in sequence.** -/
theorem flatMap_eq_byIndex_iff (sent : List UsersChunk) (l : UsersChunk) :
    sent.flatMap users = byIndex sent l ↔ InSequence sent l := by
  have hsent : sent.flatMap users =
      (upToLast sent).flatMap users ++ (sent.drop (upToLast sent).length).flatMap users := by
    rw [← List.flatMap_append, upToLast_append]
  have hperm := List.perm_insertionSort
    (fun c d : UsersChunk => c.index.toNat ≤ d.index.toNat) (upToLast sent)
  have hlength := (hperm.flatMap_right users).length_eq
  have hlt : ∀ c : UsersChunk,
      decide (c.index.toNat < l.index.toNat + 1) = false ↔ l.index < c.index := by
    intro c
    rw [UInt64.lt_iff_toNat_lt, decide_eq_false_iff_not]
    omega
  rw [hsent, byIndex_eq]
  constructor
  · intro h
    -- the two lists have the same length, so no user is left out
    have hsame := congrArg List.length h
    rw [List.length_append] at hsame
    have hle := ((List.filter_sublist (p := fun c : UsersChunk =>
      decide (c.index.toNat < l.index.toNat + 1)) (l := (upToLast sent).insertionSort fun c d =>
        c.index.toNat ≤ d.index.toNat)).flatMap users).length_le
    have hafter : (sent.drop (upToLast sent).length).flatMap users = [] :=
      List.eq_nil_of_length_eq_zero (by omega)
    have habove := Buckets.nil_of_flatMap_filter users
      (p := fun c => decide (c.index.toNat < l.index.toNat + 1)) (hlength.trans_le (by omega))
    rw [hafter, List.append_nil, Buckets.flatMap_filter_of_nil users habove] at h
    refine ⟨List.flatMap_eq_nil_iff.1 hafter, fun c hc hl => ?_, h.symm⟩
    exact habove c (hperm.mem_iff.2 hc) ((hlt c).2 hl)
  · intro h
    rw [List.flatMap_eq_nil_iff.2 h.after, List.append_nil, ← h.unmoved]
    refine (Buckets.flatMap_filter_of_nil users fun c hc hno => ?_).symm
    exact h.above c (hperm.mem_iff.1 hc) ((hlt c).1 hno)

theorem byIndex_ne_nil_iff (sent : List UsersChunk) (l : UsersChunk) :
    byIndex sent l ≠ [] ↔ ∃ c ∈ upToLast sent, c.index ≤ l.index ∧ c.users ≠ [] := by
  rw [byIndex_eq, ne_eq, List.flatMap_eq_nil_iff]
  simp only [List.mem_filter, List.mem_insertionSort, decide_eq_true_eq, Nat.lt_succ_iff,
    UInt64.le_iff_toNat_le, not_forall, exists_prop, and_assoc]

/-! ## The set -/

namespace Manager

theorem namespacedEmail_inj {T e e' : String} :
    namespacedEmail T e = namespacedEmail T e' ↔ e = e' := by
  rw [namespacedEmail, namespacedEmail, ← String.toList_inj, String.toList_append,
    String.toList_append, List.append_cancel_left_eq, String.toList_inj]

theorem lookup_newSet_iff {x : String} {w : User} :
    (m.newSet T us).lookup x = some w ↔
      ∃ u, LastOf us u ∧ x = namespacedEmail T u.email ∧ w = m.buildUser T u := by
  have hincoming : (m.incoming T us).map Prod.snd = us.map (m.buildUser T) := by
    rw [incoming, List.map_map]
    rfl
  have hemail : ∀ u : User, (fun w => decide ((m.buildUser T w).email = namespacedEmail T u.email)) =
      fun w => decide (w.email = u.email) := by
    intro u
    funext w
    show decide (namespacedEmail T w.email = _) = _
    simp only [namespacedEmail_inj]
  rw [lookup_newSet_eq, hincoming, latest_map, Option.map_eq_some_iff]
  constructor
  · rintro ⟨u, hu, rfl⟩
    have hx : namespacedEmail T u.email = x := of_decide_eq_true (mem_of_latest hu).2
    subst hx
    refine ⟨u, ?_, rfl, rfl⟩
    rw [LastOf, ← hemail u]
    exact hu
  · rintro ⟨u, hu, rfl, rfl⟩
    refine ⟨u, ?_, rfl⟩
    rw [LastOf, ← hemail u] at hu
    exact hu

theorem admissible_newSet_iff :
    m.Admissible T (m.newSet T us) ↔ ¬ Clashing us ∧
      ∀ u, LastOf us u → ∀ c ∈ userCredentials u, ∀ owner,
        m.creds.lookup c = some owner → GoStrings.hasPrefix owner (tenantPrefix T) = true := by
  constructor
  · intro h
    refine ⟨?_, fun u hu => h.own _ (m.buildUser T u) (lookup_newSet_iff.2 ⟨u, hu, rfl, rfl⟩)⟩
    rintro ⟨u, v, hu, hv, hne, c, hc, hc'⟩
    have heq := h.distinct _ _ _ _ (lookup_newSet_iff.2 ⟨u, hu, rfl, rfl⟩)
      (lookup_newSet_iff.2 ⟨v, hv, rfl, rfl⟩) c hc hc'
    exact hne (namespacedEmail_inj.1 heq)
  · rintro ⟨hclash, hown⟩
    constructor
    · intro x w hw
      obtain ⟨u, hu, -, rfl⟩ := lookup_newSet_iff.1 hw
      exact hown u hu
    · intro x w y w' hw hw' c hc hc'
      obtain ⟨u, hu, rfl, rfl⟩ := lookup_newSet_iff.1 hw
      obtain ⟨v, hv, rfl, rfl⟩ := lookup_newSet_iff.1 hw'
      by_contra hne
      exact hclash ⟨u, v, hu, hv, fun h => hne (namespacedEmail_inj.2 h), c, hc, hc'⟩

theorem LeftAlone.refl (T : String) (m : Manager) : m.LeftAlone T m :=
  ⟨fun _ => rfl, fun _ => rfl, fun _ => rfl, fun _ => rfl, fun _ _ => rfl⟩

end Manager

theorem receiveChunked_fst (X : Externals) (arr : Arrival) (m : Manager) (T : String)
    (sent : List UsersChunk) :
    (GrpcServer.receiveChunked X arr m (.tenant T) sent).1 =
      (m.setTenantUsers X arr.env T (sent.flatMap users)).1 := by
  rw [GrpcServer.receiveChunked_tenant, chunkedUsers_eq]
  generalize m.setTenantUsers X arr.env T (sent.flatMap users) = r
  obtain ⟨m', err⟩ := r
  cases err with
  | none => rfl
  | some err => rfl

/-- **A list is refused in every state only if two of its emails have a
credential in common**: on a node with no other users a list that has some
is set, and the empty one empties the set there is. -/
theorem leftAlone_iff_clashing (us : List User) :
    (∀ X env (m : Manager) T, m.LeftAlone T (m.setTenantUsers X env T us).1) ↔ Clashing us := by
  constructor
  · intro h
    by_contra hclash
    cases us with
    | nil =>
      have hused := (h Demo.externals .calm
        (Demo.run [.setUsers "a" [Demo.user "x" "one"]] (Demo.node ["a"])) "a").users "ta.x"
      exact absurd hused (by decide)
    | cons u us =>
      have hfits : (Demo.node ["a"]).Admissible "a" ((Demo.node ["a"]).newSet "a" (u :: us)) :=
        Manager.admissible_newSet_iff.2
          ⟨hclash, fun _ _ c _ owner howner => nomatch howner⟩
      have hset := @Manager.setTenantUsers_eq Demo.externals .calm (Demo.node ["a"]) "a" (u :: us)
        (fun _ => rfl) (Demo.tenant "a") rfl hfits
      have hlast : latest (fun w : User => w.email = u.email) (u :: us) ≠ none := fun hnone =>
        latest_eq_none_iff.1 hnone u List.mem_cons_self (by simp)
      obtain ⟨w, hw⟩ := Option.ne_none_iff_exists'.1 hlast
      have hemail : w.email = u.email := of_decide_eq_true (mem_of_latest hw).2
      have hnew : ((Demo.node ["a"]).newSet "a" (u :: us)).lookup (namespacedEmail "a" w.email) =
          some ((Demo.node ["a"]).buildUser "a" w) :=
        Manager.lookup_newSet_iff.2 ⟨w, by rwa [LastOf, hemail], rfl, rfl⟩
      have hused := (h Demo.externals .calm (Demo.node ["a"]) "a").users
        (namespacedEmail "a" w.email)
      rw [hset, Manager.usersOf_replaced, Function.update_self, hnew] at hused
      cases hused
  · intro hclash X env m T
    have hno : ¬ m.Admissible T (m.newSet T us) := fun hs =>
      (Manager.admissible_newSet_iff.1 hs).1 hclash
    obtain ⟨err, heq⟩ := Manager.setTenantUsers_refused X env (Or.inr hno)
    rw [heq]
    exact Manager.LeftAlone.refl T m

/-! ## The handler and the protocol -/

/-- **The handler follows the protocol on the streams that conform, and on
no others.** -/
theorem followsProtocol_iff (sent : List UsersChunk) : FollowsProtocol sent ↔ Conforms sent := by
  have hrejected : Rejected sent ↔ ∀ l, ¬ Complete sent l := by
    rw [rejected_iff]
    refine forall_congr' fun l => ⟨fun h hc => ?_, fun h hends => ?_⟩
    · obtain ⟨n, hn, hno⟩ := h hc.ends
      exact hno (hc.every n hn)
    · by_contra hall
      push Not at hall
      exact h ⟨hends, hall⟩
  have haccepted : (∀ users, Accepted sent users → GrpcServer.chunkedUsers sent = users) ↔
      ∀ l, Complete sent l → l.index.toNat + 1 < 2 ^ 64 →
        (∃ c ∈ upToLast sent, c.index ≤ l.index ∧ c.users ≠ []) → InSequence sent l := by
    simp only [accepted_iff, chunkedUsers_eq, ← byIndex_ne_nil_iff, ← flatMap_eq_byIndex_iff]
    constructor
    · intro h l hc hwrap hsome
      exact h _ ⟨l, hc.ends, hwrap, hc.every, hsome, rfl⟩
    · rintro h _ ⟨l, hends, hwrap, hevery, hsome, rfl⟩
      exact h l ⟨hends, hevery⟩ hwrap hsome
  have hunchanged : (∀ X arr (m : Manager) T,
      m.LeftAlone T (GrpcServer.receiveChunked X arr m (.tenant T) sent).1) ↔
        Clashing (sent.flatMap users) := by
    rw [← leftAlone_iff_clashing]
    simp only [receiveChunked_fst]
    exact ⟨fun h X env m T => h X ⟨0, env, true, ""⟩ m T, fun h X arr m T => h X arr.env m T⟩
  constructor
  · rintro ⟨hacc, hrej⟩
    exact ⟨haccepted.1 hacc, fun hno => hunchanged.1 (hrej (hrejected.2 hno))⟩
  · rintro ⟨hcomplete, hbroken⟩
    exact ⟨haccepted.2 hcomplete, fun hrej => hunchanged.2 (hbroken (hrejected.1 hrej))⟩

/-- Two chunks sent the other way round, and a stream cut off before its
last chunk: the first list is set in another order than the protocol has
it, and the second takes a user out of the set. -/
theorem chunks_swapped_and_cut :
    let x := Demo.user "x" "one"
    let y := Demo.user "y" "two"
    let swapped : List UsersChunk := [⟨[y], 1, false⟩, ⟨[x], 0, false⟩, ⟨[], 1, true⟩]
    let cut : List UsersChunk := [⟨[x], 0, false⟩]
    let m := Demo.run [.setUsers "a" [x, y]] (Demo.node ["a"])
    let m' := (GrpcServer.receiveChunked Demo.externals ⟨0, .calm, true, ""⟩ m (.tenant "a") cut).1
    (Accepted swapped [x, y] ∧ GrpcServer.chunkedUsers swapped = [y, x] ∧
        ¬ FollowsProtocol swapped) ∧
      Rejected cut ∧ ((m.usersOf "a").lookup "ta.y" ≠ none ∧ (m'.usersOf "a").lookup "ta.y" = none) ∧
        ¬ FollowsProtocol cut := by
  intro x y swapped cut m m'
  have haccepted : Accepted swapped [x, y] := ⟨3, rfl⟩
  have hrejected : Rejected cut := ⟨0, .missingFinal, rfl, ChunksErr.noConfusion⟩
  have hbefore : (m.usersOf "a").lookup "ta.y" ≠ none := by decide
  have hafter : (m'.usersOf "a").lookup "ta.y" = none := by decide
  refine ⟨⟨haccepted, rfl, fun h => ?_⟩, hrejected, ⟨hbefore, hafter⟩, fun h => ?_⟩
  · have hlist := congrArg (List.map User.email) (h.accepted _ haccepted)
    exact absurd hlist (by decide)
  · have hused := (h.rejected hrejected Demo.externals ⟨0, .calm, true, ""⟩ m "a").users "ta.y"
    exact hbefore (hused.symm.trans hafter)

end NodeAgent
