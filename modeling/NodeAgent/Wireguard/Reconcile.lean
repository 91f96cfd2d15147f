import NodeAgent.Common.NetworkText
import NodeAgent.Wireguard.Helpers.Reconcile
/-!
# A sync makes the store what the list asks for

Of the users a list names the store holds afterwards what the list asks
for, and nothing where it asks for nothing; a full sync drops everybody
else, a partial one leaves them alone. The tracker is told of the keys
that have left the store, and only of those. A sync that returns an error
has done nothing at all.
-/

namespace NodeAgent

namespace Wireguard

variable {N : GoNet.Lib} {env : Env} {wg : WireGuard} {users : List (Option User)}

/-- **`RemoveStats` was called once for every key that has left the
store**, and for no other. -/
def Outcome.StatsExact (out : Outcome) (wg : WireGuard) : Prop :=
  out.statsRemoved.Nodup ∧ ∀ k, k ∈ out.statsRemoved ↔
    wg.peerStore.peers.lookup k ≠ none ∧ out.wg.peerStore.peers.lookup k = none

/-- **The store is exactly the desired peers `D`**, and its two maps are
inverse to each other. -/
structure Outcome.Replaces (N : GoNet.Lib) (out : Outcome) (wg : WireGuard)
    (D : GoMap String DesiredPeer) : Prop where
  oneToOne : out.wg.peerStore.OneToOne
  exact : ∀ k, (out.wg.peerStore.peers.lookup k).map (PeerInfo.view N) =
    (D.lookup k).map fun d => d.peerInfo.view N
  stats : out.StatsExact wg

/-- **The store holds the desired peers `D` for the emails of `E` that it
contains, nothing for the others of `E`, and its old peer for every other
email**, and its two maps are inverse to each other. -/
structure Outcome.Merges (N : GoNet.Lib) (out : Outcome) (wg : WireGuard) (E : List String)
    (D : GoMap String DesiredPeer) : Prop where
  oneToOne : out.wg.peerStore.OneToOne
  desired : ∀ k d, D.lookup k = some d →
    d.email ∈ E ∧ (out.wg.peerStore.getByEmail d.email).map (PeerInfo.view N) =
      some (d.peerInfo.view N)
  dropped : ∀ email ∈ E, (∀ k d, D.lookup k = some d → d.email ≠ email) →
    out.wg.peerStore.getByEmail email = none
  kept : ∀ email, email ∉ E →
    out.wg.peerStore.getByEmail email = wg.peerStore.getByEmail email
  stats : out.StatsExact wg

theorem WireGuard.syncUsersFull_statsExact (hok : (wg.syncUsersFull N env users).err = none) :
    (wg.syncUsersFull N env users).StatsExact wg := by
  rcases wg.full_cases N env users with
    hrefuses | ⟨D, T, diff, -, -, -, -, ⟨-, hout⟩ | hcommits⟩
  · exact absurd hok hrefuses.err
  · rw [hout]
    refine ⟨by simp [Outcome.statsRemoved], fun k => ?_⟩
    simp only [Outcome.statsRemoved, List.filterMap_nil, List.not_mem_nil, false_iff]
    exact fun h => h.1 h.2
  · refine ⟨?_, fun k => ?_⟩
    · rw [hcommits.stats]
      exact (GoMap.range_nodup (env.order .old) wg.peerStore.peers).filter _
    · rw [hcommits.stats, hcommits.state]
      show k ∈ ((GoMap.range (env.order .old) wg.peerStore.peers).map Prod.fst).filter _ ↔ _
      rw [List.mem_filter, GoMap.range_keys, Order.mem_run, GoMap.mem_keys_iff,
        ← Option.isSome_iff_exists, Option.isSome_iff_ne_none, Option.isNone_iff_eq_none]
      rfl

theorem WireGuard.syncUsersFull_replaces (hone : wg.peerStore.OneToOne) (hc : Canonical users)
    (hok : (wg.syncUsersFull N env users).err = none) :
    ∃ D, collectDesiredPeers N wg.config (normalizeUsers (env.order .lastByEmail) users) = .ok D ∧
      (wg.syncUsersFull N env users).Replaces N wg D := by
  have hstats := WireGuard.syncUsersFull_statsExact hok
  rcases wg.full_cases N env users with hrefuses | ⟨D, T, diff, hD, hlookup, hT, hdiff, hcases⟩
  · exact absurd hok hrefuses.err
  · refine ⟨D, hD, ?_⟩
    have hview : ∀ k, (T.lookup k).map (PeerInfo.view N) =
        (D.lookup k).map fun d => d.peerInfo.view N := by
      intro k
      rw [hlookup, Option.map_map]
      rfl
    rcases hcases with ⟨hsame, hout⟩ | hcommits
    · refine ⟨?_, fun k => ?_, hstats⟩
      · rw [hout]
        exact hone
      · rw [hout, ← hview]
        exact hdiff.view_of_unchanged (hT.placed hc) WireGuard.lookup_snapshot hsame k
    · obtain ⟨hone', hpeers⟩ := init_targets (hT.placed hc) (env.order .valid)
      refine ⟨?_, fun k => ?_, hstats⟩
      · rw [hcommits.state]
        exact hone'
      · rw [hcommits.state, ← hview]
        exact congrArg _ (hpeers k)

theorem WireGuard.syncUsersPartialReconcile_merges (hone : wg.peerStore.OneToOne)
    (hc : Canonical users) (hok : (wg.syncUsersPartialReconcile N env users).err = none) :
    ∃ D, collectDesiredPeers N wg.config (normalizeUsers (env.order .lastByEmail) users) = .ok D ∧
      (wg.syncUsersPartialReconcile N env users).Merges N wg
        ((normalizeUsers (env.order .lastByEmail) users).map User.email) D := by
  rcases wg.partial_cases N env users with
    hrefuses | ⟨D, T, diff, hD, hlookup, hT, howned, hdiff, hcommits⟩
  · exact absurd hok hrefuses.err
  · refine ⟨D, hD, ?_⟩
    have hE : ∀ k p, (wg.touchedPeers env users).lookup k = some p ↔
        wg.peerStore.peers.lookup k = some p ∧ Touched users p.email :=
      fun k p => WireGuard.lookup_touchedPeers_of_oneToOne hone
    have htarget : ∀ k d, D.lookup k = some d → T.lookup k = some d.peerInfo := by
      intro k d hd
      rw [hlookup, hd, Option.map_some]
    have hmerged : Merged N users T wg.peerStore
        (wg.syncUsersPartialReconcile N env users).wg.peerStore := by
      rw [hcommits.state]
      exact merged_applyChanges hone hE (hT.placed hc) hdiff
    have hremoved : (wg.syncUsersPartialReconcile N env users).statsRemoved =
        diff.removeKeys.filter fun k => (wg.peerStore.peers.lookup k).isSome :=
      hcommits.stats.trans
        (PeerStore.removed_foldl_removeOne hdiff.removeKeys_nodup wg.peerStore [])
    refine ⟨hmerged.oneToOne, fun k d hd => ⟨?_, ?_⟩, fun email hemail hno => ?_,
      fun email hemail => ?_, ?_, fun k => ?_⟩
    · exact mem_touched.2 (hT.touched (htarget k d hd))
    · exact hmerged.getByEmail_target (htarget k d hd)
    · refine hmerged.getByEmail_dropped (mem_touched.1 hemail) fun k t ht => ?_
      rw [hlookup] at ht
      obtain ⟨d, hd, rfl⟩ := Option.map_eq_some_iff.1 ht
      exact hno k d hd
    · exact hmerged.getByEmail_kept hone hT howned fun h => hemail (mem_touched.2 h)
    · rw [hremoved]
      exact hdiff.removeKeys_nodup.filter _
    · rw [hremoved, hmerged.left_iff, List.mem_filter]
      constructor
      · rintro ⟨hmem, -⟩
        obtain ⟨⟨p, hp⟩, hnone, -⟩ := (hdiff.mem_removeKeys k).1 hmem
        exact ⟨⟨p, (hE k p).1 hp⟩, hnone⟩
      · rintro ⟨⟨p, hp, htouched⟩, hnone⟩
        refine ⟨(hdiff.mem_removeKeys k).2 ⟨⟨p, (hE k p).2 ⟨hp, htouched⟩⟩, hnone, ?_⟩, by simp [hp]⟩
        rw [wg.peerStore.parseKey_of_lookup hp]
        simp

/-- **Reconcile semantics.** From a store in one-to-one state and with
canonical keys, a full sync that goes through leaves exactly the desired
peers, and a partial one merges them in, in both cases with the stats of
the keys that have left removed. -/
theorem syncs_reconcile (N : GoNet.Lib) (env : Env) (wg : WireGuard)
    (hone : wg.peerStore.OneToOne) :
    (∀ users, Canonical users → (wg.syncUsers N env users).err = none →
      ∃ D, collectDesiredPeers N wg.config (normalizeUsers (env.order .lastByEmail) users) = .ok D ∧
        (wg.syncUsers N env users).Replaces N wg D) ∧
    (∀ users, Canonical users → (wg.updateUsers N env users).err = none →
      ∃ D, collectDesiredPeers N wg.config (normalizeUsers (env.order .lastByEmail) users) = .ok D ∧
        (wg.updateUsers N env users).Merges N wg
          ((normalizeUsers (env.order .lastByEmail) users).map User.email) D) ∧
    ∀ user, Canonical [user] → (wg.syncUser N env user).err = none →
      ∃ D, collectDesiredPeers N wg.config (normalizeUsers (env.order .lastByEmail) [user]) = .ok D ∧
        (wg.syncUser N env user).Merges N wg
          ((normalizeUsers (env.order .lastByEmail) [user]).map User.email) D := by
  refine ⟨fun users => WireGuard.syncUsersFull_replaces hone,
    fun users => WireGuard.syncUsersPartialReconcile_merges hone, fun user hc hok => ?_⟩
  cases user with
  | none => cases hok
  | some u => exact WireGuard.syncUsersPartialReconcile_merges hone hc hok

namespace Demo

def key (n : UInt8) : Key :=
  ⟨List.replicate 32 n, List.length_replicate⟩

def user (email publicKey : String) (peerIps : List String) : Option User :=
  some ⟨email, some ⟨publicKey, peerIps⟩, ["wg0"]⟩

def config : Config where
  interfaceName := "wg0"
  privateKey := (key 9).string
  preSharedKey := ""
  listenPort := 51820
  address := ["10.0.0.1/24"]

def backend : WireGuard where
  config := config
  state := .running
  manager := some ⟨true⟩
  peerStore := PeerStore.new.init
    [⟨"a", key 1, [⟨[10, 0, 0, 2], [255, 255, 255, 255]⟩]⟩,
      ⟨"b", key 2, [⟨[10, 0, 0, 3], [255, 255, 255, 255]⟩]⟩]
  statsTracker := ∅
  device := Device.fresh

theorem oneToOne_backend : backend.peerStore.OneToOne :=
  PeerStore.oneToOne_init (by decide +kernel) (by decide +kernel)

def swapped : List (Option User) :=
  [user "a" (key 2).string ["10.0.0.2/32"], user "b" (key 1).string ["10.0.0.3/32"]]

theorem canonical_user {email : String} {k : Key} {peerIps : List String} {u : User}
    (h : user email k.string peerIps = some u) {key : Key}
    (hkey : parseKey u.getPublicKey = some key) : u.getPublicKey = key.string := by
  obtain rfl := Option.some.inj h
  have hk : parseKey k.string = some key := hkey
  rw [parseKey_string] at hk
  rw [← Option.some.inj hk]
  rfl

theorem canonical_swapped : Canonical swapped := by
  intro u hu key hkey
  rcases List.mem_cons.1 hu with hu | hu
  · exact canonical_user hu.symm hkey
  · exact canonical_user (List.mem_singleton.1 hu).symm hkey

end Demo

/-- Two users exchange their keys, and the store follows. -/
theorem syncs_reconcile_swapped :
    ∃ D, collectDesiredPeers GoNet.std Demo.config (normalizeUsers .given Demo.swapped) = .ok D ∧
      (Demo.backend.updateUsers GoNet.std Env.calm Demo.swapped).Merges GoNet.std Demo.backend
        ((normalizeUsers .given Demo.swapped).map User.email) D :=
  (syncs_reconcile GoNet.std Env.calm Demo.backend Demo.oneToOne_backend).2.1 Demo.swapped
    Demo.canonical_swapped (by decide +kernel)

/-- **A sync that returns an error has changed nothing**: neither the
store, nor the tracker, nor the device. -/
theorem syncs_atomic (N : GoNet.Lib) (env : Env) (wg : WireGuard) :
    (∀ user, (wg.syncUser N env user).err ≠ none → (wg.syncUser N env user).wg = wg) ∧
    (∀ users, (wg.syncUsers N env users).err ≠ none → (wg.syncUsers N env users).wg = wg) ∧
    ∀ users, (wg.updateUsers N env users).err ≠ none → (wg.updateUsers N env users).wg = wg := by
  have hmerge : ∀ users, (wg.syncUsersPartialReconcile N env users).err ≠ none →
      (wg.syncUsersPartialReconcile N env users).wg = wg := by
    intro users herr
    rcases wg.syncUsersPartialReconcile_cases N env users with hrefuses | ⟨D, hD, howned, hcommits⟩
    · exact hrefuses.state
    · exact absurd hcommits.err herr
  refine ⟨fun user herr => ?_, fun users herr => ?_, hmerge⟩
  · cases user with
    | none => rfl
    | some u => exact hmerge [some u] herr
  · rcases wg.syncUsersFull_cases N env users with
      hrefuses | ⟨D, hD, ⟨hsame, hout⟩ | ⟨hchanged, hcommits⟩⟩
    · exact hrefuses.state
    · exact congrArg Outcome.wg hout
    · exact absurd hcommits.err herr

/-- Two users with one address are refused, and nothing has changed. -/
theorem syncs_atomic_duplicate :
    (Demo.backend.updateUsers GoNet.std Env.calm
        [Demo.user "a" (Demo.key 1).string ["10.0.0.4/32"],
          Demo.user "b" (Demo.key 2).string ["10.0.0.4/32"]]).err ≠ none ∧
      (Demo.backend.updateUsers GoNet.std Env.calm
        [Demo.user "a" (Demo.key 1).string ["10.0.0.4/32"],
          Demo.user "b" (Demo.key 2).string ["10.0.0.4/32"]]).wg = Demo.backend := by
  have herr : (Demo.backend.updateUsers GoNet.std Env.calm
      [Demo.user "a" (Demo.key 1).string ["10.0.0.4/32"],
        Demo.user "b" (Demo.key 2).string ["10.0.0.4/32"]]).err ≠ none := by decide +kernel
  exact ⟨herr, (syncs_atomic GoNet.std Env.calm Demo.backend).2.2 _ herr⟩

end Wireguard

end NodeAgent
