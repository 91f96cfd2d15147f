import NodeAgent.Wireguard.Reconcile
/-!
# What `ApplyChanges` makes of a store

For any keys and any peers, with repeats, exchanged keys and upserts that
contradict each other. The content of a store is told as a function of
the key, on which an upsert is three steps: the peer of its email goes,
the peer under its key goes, and it comes in.
-/

namespace NodeAgent

namespace Wireguard

/-! ## Contents -/

/-- **What a store holds**, as a function of the key. -/
def Contents : Type :=
  String → Option PeerInfo

namespace Contents

/-- The peer of an email goes. -/
def dropEmail (c : Contents) (email : String) : Contents :=
  fun k => (c k).filter (·.email ≠ email)

/-- The peer under a key goes. -/
def dropKey (c : Contents) (key : String) : Contents :=
  fun k => if k = key then none else c k

/-- A peer comes in under its key. -/
def enter (c : Contents) (p : PeerInfo) : Contents :=
  fun k => if k = p.key then some p else c k

/-- **An upsert** first drops the peer of its email and the peer under its
key; without a peer there is nothing to do. -/
def upsert (c : Contents) : Option PeerInfo → Contents
  | none => c
  | some p => ((c.dropEmail p.email).dropKey p.key).enter p

/-- **The keys out, and then the upserts one by one.** -/
def changed (c : Contents) (removeKeys : List String) (upsertPeers : List (Option PeerInfo)) :
    Contents :=
  upsertPeers.foldl upsert (removeKeys.foldl dropKey c)

theorem foldl_dropKey (c : Contents) (keys : List String) (k : String) :
    keys.foldl dropKey c k = if k ∈ keys then none else c k := by
  induction keys generalizing c with
  | nil => simp
  | cons key keys ih =>
    rw [List.foldl_cons, ih, dropKey]
    by_cases hkeys : k ∈ keys
    · simp [hkeys]
    · by_cases hk : k = key
      · simp [hk]
      · simp [hkeys, hk]

end Contents

/-! ## Stores -/

namespace PeerStore

variable {ps : PeerStore} {k : String}

def contents (ps : PeerStore) : Contents :=
  fun k => ps.peers.lookup k

theorem contents_foldl_removeOne (ks : List String) (ps : PeerStore) :
    (ks.foldl removeOne (ps, [])).1.contents = ks.foldl Contents.dropKey ps.contents := by
  funext k
  rw [Contents.foldl_dropKey]
  exact lookup_foldl_removeOne ks ps [] k

/-- **The keys reported** are those that were there, each once however
often it is given: at the second time its peer is gone. -/
theorem removed_foldl_removeOne_iff (ks : List String) (ps : PeerStore) :
    (ks.foldl removeOne (ps, [])).2.Nodup ∧
      ∀ k, k ∈ (ks.foldl removeOne (ps, [])).2 ↔ k ∈ ks ∧ (ps.peers.lookup k).isSome := by
  induction ks using List.reverseRecOn with
  | nil => simp
  | append_singleton ks key ih =>
    obtain ⟨hnodup, hmem⟩ := ih
    have hpeer : (ks.foldl removeOne (ps, [])).1.peers.lookup key =
        if key ∈ ks then none else ps.peers.lookup key :=
      lookup_foldl_removeOne ks ps [] key
    obtain ⟨-, -, hremoved⟩ :=
      removeOne_eq (ks.foldl removeOne (ps, [])).1 (ks.foldl removeOne (ps, [])).2 key
    rw [List.foldl_append, List.foldl_cons, List.foldl_nil, hremoved, hpeer]
    by_cases hnew : key ∉ ks ∧ (ps.peers.lookup key).isSome
    · obtain ⟨hks, hkey⟩ := hnew
      rw [if_neg hks, if_pos hkey]
      refine ⟨?_, fun k => ?_⟩
      · rw [List.nodup_append]
        refine ⟨hnodup, List.nodup_singleton key, fun k hk k' hk' heq => hks ?_⟩
        rw [← List.mem_singleton.1 hk', ← heq]
        exact ((hmem k).1 hk).1
      · rw [List.mem_append, List.mem_append, hmem, List.mem_singleton, or_and_right]
        exact or_congr_right ⟨fun hk => ⟨hk, hk ▸ hkey⟩, And.left⟩
    · -- it has been dealt with before, or there was nothing under it
      have hknown : (ps.peers.lookup key).isSome → key ∈ ks :=
        fun hkey => by_contra fun hks => hnew ⟨hks, hkey⟩
      rw [if_neg, List.append_nil]
      · refine ⟨hnodup, fun k => ?_⟩
        rw [hmem, List.mem_append, List.mem_singleton]
        constructor
        · exact fun h => ⟨Or.inl h.1, h.2⟩
        · rintro ⟨hk | rfl, hsome⟩
          · exact ⟨hk, hsome⟩
          · exact ⟨hknown hsome, hsome⟩
      · split_ifs with hks
        · simp
        · exact fun hkey => hks (hknown hkey)

/-- **One upsert of a store is one of its contents.** -/
theorem OneToOne.upsertPointer (h : ps.OneToOne) (up : Option PeerInfo) :
    (ps.upsertPointer up).OneToOne ∧
      (ps.upsertPointer up).contents = ps.contents.upsert up := by
  cases up with
  | none => exact ⟨h, rfl⟩
  | some p =>
    refine ⟨h.upsertOne p, funext fun k => ?_⟩
    refine (h.lookup_upsertOne p k).trans ?_
    simp only [Contents.upsert, Contents.enter, Contents.dropKey, Contents.dropEmail, contents]
    split_ifs with hk
    · rfl
    · rfl

theorem OneToOne.foldl_upsertPointer (h : ps.OneToOne) (ups : List (Option PeerInfo)) :
    (ups.foldl PeerStore.upsertPointer ps).OneToOne ∧
      (ups.foldl PeerStore.upsertPointer ps).contents = ups.foldl Contents.upsert ps.contents := by
  induction ups generalizing ps with
  | nil => exact ⟨h, rfl⟩
  | cons up ups ih =>
    obtain ⟨hone, hcontents⟩ := h.upsertPointer up
    rw [List.foldl_cons, List.foldl_cons, ← hcontents]
    exact ih hone

end PeerStore

/-- **`ApplyChanges` keeps the mapping one to one**, makes the changes to
what the store holds, and reports the keys that were there, each once. -/
theorem applyPointers_spec (ps : PeerStore) (hone : ps.OneToOne) (removeKeys : List String)
    (upsertPeers : List (Option PeerInfo)) :
    (ps.applyPointers removeKeys upsertPeers).1.OneToOne ∧
      (ps.applyPointers removeKeys upsertPeers).1.contents =
        ps.contents.changed removeKeys upsertPeers ∧
      (ps.applyPointers removeKeys upsertPeers).2.Nodup ∧
      ∀ k, k ∈ (ps.applyPointers removeKeys upsertPeers).2 ↔
        k ∈ removeKeys ∧ ps.contents k ≠ none := by
  obtain ⟨hone', hcontents⟩ :=
    (hone.foldl_removeOne removeKeys []).foldl_upsertPointer upsertPeers
  obtain ⟨hnodup, hmem⟩ := PeerStore.removed_foldl_removeOne_iff removeKeys ps
  refine ⟨hone', ?_, hnodup, fun k => ?_⟩
  · rw [PeerStore.contents_foldl_removeOne] at hcontents
    exact hcontents
  · rw [← Option.isSome_iff_ne_none]
    exact hmem k

/-- The two users of a store exchange their keys, one of them is also
removed twice, and a nil pointer comes between them. -/
theorem applyPointers_spec_exchange :
    Demo.backend.peerStore.OneToOne ∧
      (Demo.backend.peerStore.applyPointers [(Demo.key 1).string, (Demo.key 1).string]
        [some ⟨"a", Demo.key 2, []⟩, none, some ⟨"b", Demo.key 1, []⟩]).1.OneToOne ∧
      (Demo.backend.peerStore.contents.changed [(Demo.key 1).string, (Demo.key 1).string]
        [some ⟨"a", Demo.key 2, []⟩, none, some ⟨"b", Demo.key 1, []⟩]) (Demo.key 1).string =
          some ⟨"b", Demo.key 1, []⟩ :=
  ⟨Demo.oneToOne_backend,
    (applyPointers_spec Demo.backend.peerStore Demo.oneToOne_backend
      [(Demo.key 1).string, (Demo.key 1).string]
      [some ⟨"a", Demo.key 2, []⟩, none, some ⟨"b", Demo.key 1, []⟩]).1,
    by simp [Contents.changed, Contents.upsert, Contents.enter, PeerInfo.key]⟩

end Wireguard

end NodeAgent
