import NodeAgent.Wireguard.Model.Peers
/-!
# The two maps of a peer store

`Indexed` is half of the one-to-one mapping: every peer is the one its
email leads to. It holds of every store the backend can come to.
`OneToOne` is all of it, and where it holds the operations are what they
look like: removing keys removes those peers, and an upsert takes the
place of whoever has its email or its key.
-/

namespace NodeAgent

namespace Wireguard

namespace PeerStore

variable {ps : PeerStore} {p q : PeerInfo} {k email : String}

theorem parseKey_of_lookup (ps : PeerStore) (hp : ps.peers.lookup k = some p) :
    parseKey k = some p.publicKey := by
  rw [← ps.keyed k p hp]
  exact parseKey_string p.publicKey

/-- **Every peer is the one its email leads to.** -/
def Indexed (ps : PeerStore) : Prop :=
  ∀ k p, ps.peers.lookup k = some p → ps.emailToKey.lookup p.email = some k

/-- **The two maps are inverse to each other.** -/
structure OneToOne (ps : PeerStore) : Prop where
  indexed : ps.Indexed
  backed : ∀ email k, ps.emailToKey.lookup email = some k →
    ∃ p, ps.peers.lookup k = some p ∧ p.email = email

theorem oneToOne_new : new.OneToOne where
  indexed := fun _ _ h => by cases h
  backed := fun _ _ h => by cases h

theorem Indexed.key_unique (h : ps.Indexed) {k' : String} (hp : ps.peers.lookup k = some p)
    (hq : ps.peers.lookup k' = some q) (hemail : p.email = q.email) : k = k' := by
  have hk := h k p hp
  rw [hemail, h k' q hq] at hk
  exact (Option.some.inj hk).symm

theorem Indexed.peer_unique (h : ps.Indexed) {k' : String} (hp : ps.peers.lookup k = some p)
    (hq : ps.peers.lookup k' = some q) (hemail : p.email = q.email) : p = q := by
  rw [← h.key_unique hp hq hemail, hp] at hq
  exact Option.some.inj hq

theorem Indexed.getByEmail (h : ps.Indexed) (hp : ps.peers.lookup k = some p) :
    ps.getByEmail p.email = some p := by
  rw [PeerStore.getByEmail, h k p hp]
  exact hp

theorem OneToOne.getByEmail_iff (h : ps.OneToOne) :
    ps.getByEmail email = some p ↔ ps.peers.lookup p.key = some p ∧ p.email = email := by
  constructor
  · intro hget
    obtain ⟨k, hk, hp⟩ := Option.bind_eq_some_iff.1 hget
    obtain ⟨q, hq, hemail⟩ := h.backed email k hk
    obtain rfl : q = p := Option.some.inj (hq.symm.trans hp)
    rw [ps.keyed k q hp]
    exact ⟨hp, hemail⟩
  · rintro ⟨hp, rfl⟩
    exact h.indexed.getByEmail hp

/-! ## Putting, and taking out -/

theorem lookup_put (ps : PeerStore) (p : PeerInfo) (k : String) :
    (ps.put p).peers.lookup k = if k = p.key then some p else ps.peers.lookup k :=
  GoMap.lookup_insert_eq ..

theorem emailToKey_put (ps : PeerStore) (p : PeerInfo) (email : String) :
    (ps.put p).emailToKey.lookup email =
      if email = p.email then some p.key else ps.emailToKey.lookup email :=
  GoMap.lookup_insert_eq ..

/-! ## Removals -/

theorem removeOne_eq (ps : PeerStore) (removed : List String) (key : String) :
    (∀ k, (removeOne (ps, removed) key).1.peers.lookup k =
        if k = key then none else ps.peers.lookup k) ∧
      (∀ email, (removeOne (ps, removed) key).1.emailToKey.lookup email =
        if (ps.peers.lookup key).map PeerInfo.email = some email then none
        else ps.emailToKey.lookup email) ∧
      (removeOne (ps, removed) key).2 =
        removed ++ if (ps.peers.lookup key).isSome then [key] else [] := by
  unfold removeOne
  cases hpeer : ps.peers.lookup key with
  | none =>
    refine ⟨fun k => ?_, fun email => by simp, by simp⟩
    split_ifs with hk
    · rw [hk, hpeer]
    · rfl
  | some peer =>
    refine ⟨fun k => ?_, fun email => ?_, by simp⟩
    · simp [delete, GoMap.lookup_eraseKeys]
    · simp [delete, GoMap.lookup_eraseKeys, eq_comm]

theorem Indexed.removeOne (h : ps.Indexed) (removed : List String) (key : String) :
    (PeerStore.removeOne (ps, removed) key).1.Indexed := by
  obtain ⟨hpeers, hemails, -⟩ := removeOne_eq ps removed key
  intro k p hp
  rw [hpeers] at hp
  split_ifs at hp with hk
  rw [hemails, if_neg, h k p hp]
  -- the email of the peer taken out was another's
  rintro hemail
  obtain ⟨q, hq, hqp⟩ := Option.map_eq_some_iff.1 hemail
  exact hk (h.key_unique hp hq hqp.symm)

theorem OneToOne.removeOne (h : ps.OneToOne) (removed : List String) (key : String) :
    (PeerStore.removeOne (ps, removed) key).1.OneToOne where
  indexed := h.indexed.removeOne removed key
  backed := by
    obtain ⟨hpeers, hemails, -⟩ := removeOne_eq ps removed key
    intro email k hk
    rw [hemails] at hk
    split_ifs at hk with hemail
    obtain ⟨p, hp, hpe⟩ := h.backed email k hk
    refine ⟨p, ?_, hpe⟩
    rw [hpeers, if_neg, hp]
    rintro rfl
    rw [hp, Option.map_some, hpe] at hemail
    exact hemail rfl

theorem lookup_foldl_removeOne (ks : List String) (ps : PeerStore) (removed : List String)
    (k : String) :
    (ks.foldl removeOne (ps, removed)).1.peers.lookup k =
      if k ∈ ks then none else ps.peers.lookup k := by
  induction ks generalizing ps removed with
  | nil => simp
  | cons key ks ih =>
    obtain ⟨hpeers, -, -⟩ := removeOne_eq ps removed key
    rw [List.foldl_cons, ih, hpeers]
    by_cases hks : k ∈ ks
    · simp [hks]
    · by_cases hk : k = key
      · simp [hk]
      · simp [hks, hk]

theorem removed_foldl_removeOne {ks : List String} (hks : ks.Nodup) (ps : PeerStore)
    (removed : List String) :
    (ks.foldl removeOne (ps, removed)).2 =
      removed ++ ks.filter fun k => (ps.peers.lookup k).isSome := by
  induction ks generalizing ps removed with
  | nil => simp
  | cons key ks ih =>
    obtain ⟨hnot, hks⟩ := List.nodup_cons.1 hks
    obtain ⟨hpeers, -, hremoved⟩ := removeOne_eq ps removed key
    have hsame : ∀ k ∈ ks, ((removeOne (ps, removed) key).1.peers.lookup k).isSome =
        (ps.peers.lookup k).isSome := by
      intro k hk
      have hne : k ≠ key := fun heq => hnot (heq ▸ hk)
      rw [hpeers, if_neg hne]
    rw [List.foldl_cons, ih hks, hremoved, List.filter_congr hsame, List.filter_cons,
      List.append_assoc]
    split_ifs <;> rfl

theorem Indexed.foldl_removeOne (ks : List String) (h : ps.Indexed) (removed : List String) :
    (ks.foldl PeerStore.removeOne (ps, removed)).1.Indexed :=
  List.foldlRecOn (motive := fun acc : PeerStore × List String => acc.1.Indexed) ks
    PeerStore.removeOne h fun acc hacc key _ => hacc.removeOne acc.2 key

theorem OneToOne.foldl_removeOne (ks : List String) (h : ps.OneToOne) (removed : List String) :
    (ks.foldl PeerStore.removeOne (ps, removed)).1.OneToOne :=
  List.foldlRecOn (motive := fun acc : PeerStore × List String => acc.1.OneToOne) ks
    PeerStore.removeOne h fun acc hacc key _ => hacc.removeOne acc.2 key

/-! ## Upserts -/

theorem lookup_upsertOne (ps : PeerStore) (p : PeerInfo) (k : String) :
    (ps.upsertOne p).peers.lookup k =
      if k = p.key then some p
      else if ps.emailToKey.lookup p.email = some k then none
      else ps.peers.lookup k := by
  rw [upsertOne, lookup_put]
  split_ifs with hk hold
  · rfl
  · simp [delete, GoMap.lookup_eraseKeys, hold, hk, Option.filter]
  · simp only [delete, GoMap.lookup_eraseKeys, Option.toList_none, List.not_mem_nil, if_false,
      Option.mem_toList, Option.filter_eq_some_iff, ite_eq_right_iff]
    exact fun h => absurd h.1 hold

theorem emailToKey_upsertOne (ps : PeerStore) (p : PeerInfo) (email : String) :
    (ps.upsertOne p).emailToKey.lookup email =
      if email = p.email then some p.key
      else if (ps.peers.lookup p.key).map PeerInfo.email = some email then none
      else ps.emailToKey.lookup email := by
  -- the peer under the new key is not under the old one
  have hsame : (ps.delete ((ps.emailToKey.lookup p.email).filter (· ≠ p.key)) none).peers.lookup
      p.key = ps.peers.lookup p.key := by
    simp only [delete, GoMap.lookup_eraseKeys, Option.mem_toList, Option.filter_eq_some_iff,
    ite_eq_right_iff]
    rintro ⟨-, h⟩
    simp at h
  rw [upsertOne, emailToKey_put, hsame]
  split_ifs with hemail howner
  · rfl
  · simp [delete, GoMap.lookup_eraseKeys, howner, hemail, Option.filter]
  · simp only [delete, GoMap.lookup_eraseKeys, Option.toList_none, List.not_mem_nil, if_false,
      Option.mem_toList, Option.filter_eq_some_iff, ite_eq_right_iff]
    exact fun h => absurd h.1 howner

theorem Indexed.upsertOne (h : ps.Indexed) (p : PeerInfo) : (ps.upsertOne p).Indexed := by
  intro k q hq
  rw [lookup_upsertOne] at hq
  rw [emailToKey_upsertOne]
  split_ifs at hq with hk hold
  · obtain rfl : p = q := Option.some.inj hq
    rw [if_pos rfl, hk]
  · have hqk := h k q hq
    rw [if_neg, if_neg, hqk]
    · rintro howner
      obtain ⟨r, hr, hrq⟩ := Option.map_eq_some_iff.1 howner
      exact hk (h.key_unique hq hr hrq.symm)
    · rintro hemail
      rw [hemail] at hqk
      exact hold hqk

theorem OneToOne.upsertOne (h : ps.OneToOne) (p : PeerInfo) : (ps.upsertOne p).OneToOne where
  indexed := h.indexed.upsertOne p
  backed := by
    intro email k hk
    rw [emailToKey_upsertOne] at hk
    split_ifs at hk with hemail howner
    · refine ⟨p, ?_, hemail.symm⟩
      rw [lookup_upsertOne, if_pos (Option.some.inj hk).symm]
    · obtain ⟨q, hq, hqe⟩ := h.backed email k hk
      refine ⟨q, ?_, hqe⟩
      rw [lookup_upsertOne, if_neg, if_neg, hq]
      · intro hold
        obtain ⟨r, hr, hre⟩ := h.backed _ k hold
        rw [hq] at hr
        rw [Option.some.inj hr, hre] at hqe
        exact hemail hqe.symm
      · rintro rfl
        rw [hq, Option.map_some, hqe] at howner
        exact howner rfl

/-- **In a one-to-one store an upsert replaces whoever has its key or its
email.** -/
theorem OneToOne.lookup_upsertOne (h : ps.OneToOne) (p : PeerInfo) (k : String) :
    (ps.upsertOne p).peers.lookup k =
      if k = p.key then some p else (ps.peers.lookup k).filter (·.email ≠ p.email) := by
  rw [PeerStore.lookup_upsertOne]
  split_ifs with hk hold
  · rfl
  · obtain ⟨q, hq, hqe⟩ := h.backed _ k hold
    simp [hq, hqe, Option.filter_some]
  · cases hq : ps.peers.lookup k with
    | none => rfl
    | some q =>
      have hne : q.email ≠ p.email := by
        intro hqe
        have hidx := h.indexed k q hq
        rw [hqe] at hidx
        exact hold hidx
      simp [hne, Option.filter_some]

theorem Indexed.foldl_upsertOne (h : ps.Indexed) (ups : List PeerInfo) :
    (ups.foldl PeerStore.upsertOne ps).Indexed :=
  List.foldlRecOn (motive := fun ps : PeerStore => ps.Indexed) ups PeerStore.upsertOne h
    fun _ hps p _ => hps.upsertOne p

theorem OneToOne.foldl_upsertOne (h : ps.OneToOne) (ups : List PeerInfo) :
    (ups.foldl PeerStore.upsertOne ps).OneToOne :=
  List.foldlRecOn (motive := fun ps : PeerStore => ps.OneToOne) ups PeerStore.upsertOne h
    fun _ hps p _ => hps.upsertOne p

theorem mem_foldl_upsertOne (ups : List PeerInfo) (ps : PeerStore)
    (h : (ups.foldl upsertOne ps).peers.lookup k = some q) :
    q ∈ ups ∨ k ∉ ups.map PeerInfo.key ∧ ps.peers.lookup k = some q := by
  induction ups using List.reverseRecOn with
  | nil => exact Or.inr ⟨by simp, h⟩
  | append_singleton ups p ih =>
    rw [List.foldl_append, List.foldl_cons, List.foldl_nil, lookup_upsertOne] at h
    split_ifs at h with hk hold
    · obtain rfl : p = q := Option.some.inj h
      simp
    · rcases ih h with hmem | ⟨hnot, hq⟩
      · exact Or.inl (by simp [hmem])
      · exact Or.inr ⟨by simpa [hk] using hnot, hq⟩

/-- **Upserts of different emails and keys**: each is in under its key,
and of the others those remain whose email is not among theirs. -/
theorem OneToOne.lookup_foldl_upsertOne (h : ps.OneToOne) {ups : List PeerInfo}
    (hkeys : (ups.map PeerInfo.key).Nodup) (hemails : (ups.map PeerInfo.email).Nodup) :
    (∀ p ∈ ups, (ups.foldl PeerStore.upsertOne ps).peers.lookup p.key = some p) ∧
      ∀ k, k ∉ ups.map PeerInfo.key →
        (ups.foldl PeerStore.upsertOne ps).peers.lookup k =
          (ps.peers.lookup k).filter fun q => q.email ∉ ups.map PeerInfo.email := by
  induction ups using List.reverseRecOn with
  | nil =>
    refine ⟨by simp, fun k _ => ?_⟩
    cases hk : ps.peers.lookup k <;> simp [Option.filter_some, hk]
  | append_singleton ups p ih =>
    rw [List.map_append, List.nodup_append] at hkeys hemails
    obtain ⟨hin, hout⟩ := ih hkeys.1 hemails.1
    have hone := h.foldl_upsertOne ups
    rw [List.foldl_append, List.foldl_cons, List.foldl_nil]
    refine ⟨fun q hq => ?_, fun k hk => ?_⟩
    · rw [hone.lookup_upsertOne]
      rcases List.mem_append.1 hq with hq | hq
      · have hkey : q.key ≠ p.key := hkeys.2.2 _ (List.mem_map_of_mem hq) _ (by simp)
        have hemail : q.email ≠ p.email := hemails.2.2 _ (List.mem_map_of_mem hq) _ (by simp)
        rw [if_neg hkey, hin q hq]
        simp [hemail, Option.filter_some]
      · rw [List.mem_singleton.1 hq, if_pos rfl]
    · rw [List.map_append, List.mem_append, not_or] at hk
      have hkp : k ≠ p.key := by simpa using hk.2
      rw [hone.lookup_upsertOne, if_neg hkp, hout k hk.1, Option.filter_filter]
      refine congrArg (fun f => (ps.peers.lookup k).filter f) (funext fun q => ?_)
      simp only [List.map_append, List.mem_append, List.map_cons, List.map_nil,
        List.mem_singleton, not_or, Bool.decide_and]

/-! ## A new store -/

theorem lookup_init_of_notMem (peers : List PeerInfo) (ps : PeerStore)
    (hk : k ∉ peers.map PeerInfo.key) : (ps.init peers).peers.lookup k = ps.peers.lookup k := by
  induction peers using List.reverseRecOn with
  | nil => rfl
  | append_singleton peers p ih =>
    rw [List.map_append, List.mem_append, not_or] at hk
    have hkp : k ≠ p.key := by simpa using hk.2
    rw [init, List.foldl_append, List.foldl_cons, List.foldl_nil, lookup_put, if_neg hkp]
    exact ih hk.1

variable {peers : List PeerInfo}

theorem mem_init (h : (new.init peers).peers.lookup k = some q) :
    q ∈ peers := by
  induction peers using List.reverseRecOn with
  | nil => cases h
  | append_singleton peers p ih =>
    rw [init, List.foldl_append, List.foldl_cons, List.foldl_nil, lookup_put] at h
    split_ifs at h with hk
    · simp [Option.some.inj h]
    · exact List.mem_append_left _ (ih h)

theorem indexed_init (hemails : (peers.map PeerInfo.email).Nodup) :
    (new.init peers).Indexed := by
  induction peers using List.reverseRecOn with
  | nil => exact oneToOne_new.indexed
  | append_singleton peers p ih =>
    rw [List.map_append, List.nodup_append] at hemails
    intro k q hq
    rw [init, List.foldl_append, List.foldl_cons, List.foldl_nil] at hq ⊢
    rw [lookup_put] at hq
    rw [emailToKey_put]
    split_ifs at hq with hk
    · rw [← Option.some.inj hq, if_pos rfl, hk]
    · have hmem : q ∈ peers := mem_init hq
      have hne : q.email ≠ p.email := hemails.2.2 _ (List.mem_map_of_mem hmem) _ (by simp)
      rw [if_neg hne]
      exact ih hemails.1 k q hq

/-- **With one peer an email and a key, all of them are in**, one to
one. -/
theorem lookup_init (hkeys : (peers.map PeerInfo.key).Nodup)
    (hp : p ∈ peers) : (new.init peers).peers.lookup p.key = some p := by
  induction peers using List.reverseRecOn with
  | nil => simp at hp
  | append_singleton peers p' ih =>
    rw [List.map_append, List.nodup_append] at hkeys
    rw [init, List.foldl_append, List.foldl_cons, List.foldl_nil, lookup_put]
    rcases List.mem_append.1 hp with hp | hp
    · have hne : p.key ≠ p'.key := hkeys.2.2 _ (List.mem_map_of_mem hp) _ (by simp)
      rw [if_neg hne]
      exact ih hkeys.1 hp
    · rw [List.mem_singleton.1 hp, if_pos rfl]

theorem oneToOne_init (hkeys : (peers.map PeerInfo.key).Nodup)
    (hemails : (peers.map PeerInfo.email).Nodup) : (new.init peers).OneToOne where
  indexed := indexed_init hemails
  backed := by
    intro email k hk
    have hlead : ∃ p ∈ peers, p.email = email ∧ p.key = k := by
      clear hkeys hemails
      induction peers using List.reverseRecOn with
      | nil => cases hk
      | append_singleton peers p ih =>
        rw [init, List.foldl_append, List.foldl_cons, List.foldl_nil, emailToKey_put] at hk
        split_ifs at hk with hemail
        · exact ⟨p, by simp, hemail.symm, Option.some.inj hk⟩
        · obtain ⟨q, hq, hqe, hqk⟩ := ih hk
          exact ⟨q, List.mem_append_left _ hq, hqe, hqk⟩
    obtain ⟨p, hp, hpe, rfl⟩ := hlead
    exact ⟨p, lookup_init hkeys hp, hpe⟩

end PeerStore

end Wireguard

end NodeAgent
