import NodeAgent.Wireguard.Helpers.Run
import NodeAgent.Wireguard.Reconcile
/-!
# One user a network

Within one list no network is given to two users: such a list is rejected.
A partial sync does not look at the users it does not name, and takes a
network from one of them without noticing: the store then has it twice.
Where no list that is merged asks for a network of a user it does not name
(`Spares`), no network ever has two users.
-/

namespace NodeAgent

namespace Wireguard

variable {N : GoNet.Lib} {env : Env} {wg : WireGuard} {users : List (Option User)}

/-- **No two users in the store hold the same network.** -/
def PeerStore.Exclusive (N : GoNet.Lib) (ps : PeerStore) : Prop :=
  ∀ k k' p p', ps.peers.lookup k = some p → ps.peers.lookup k' = some p' → p.email ≠ p'.email →
    ∀ x ∈ p.networks N, x ∉ p'.networks N

/-- **The list asks for no network of a user it does not name.** -/
def Spares (N : GoNet.Lib) (wg : WireGuard) (users : List (Option User)) : Prop :=
  ∀ d, Asks N wg.config users d → ∀ k p, wg.peerStore.peers.lookup k = some p →
    ¬ Touched users p.email → ∀ x ∈ d.peerInfo.networks N, x ∉ p.networks N

/-- **Two users of the list ask for the same network.** -/
def Clashes (N : GoNet.Lib) (cfg : Config) (users : List (Option User)) : Prop :=
  ∃ d d', Asks N cfg users d ∧ Asks N cfg users d' ∧ d.email ≠ d'.email ∧
    ∃ x ∈ d.peerInfo.networks N, x ∈ d'.peerInfo.networks N

/-! ## Within a list -/

theorem Targets.not_clashes {cfg : Config} {T : GoMap String PeerInfo}
    (hT : Targets N cfg users T) : ¬ Clashes N cfg users := by
  rintro ⟨d, d', hd, hd', hne, x, hx, hx'⟩
  exact hT.apart d d' hd hd' hne x hx hx'

theorem refuses_of_clashes (env : Env) (h : Clashes N wg.config users) :
    (wg.syncUsersPartialReconcile N env users).Refuses wg ∧
      (wg.syncUsersFull N env users).Refuses wg := by
  constructor
  · rcases wg.partial_cases N env users with hrefuses | ⟨D, T, diff, hD, hlookup, hT, hrest⟩
    · exact hrefuses
    · exact absurd h hT.not_clashes
  · rcases wg.full_cases N env users with hrefuses | ⟨D, T, diff, hD, hlookup, hT, hrest⟩
    · exact hrefuses
    · exact absurd h hT.not_clashes

theorem new_ne_ok_of_clashes {cfg : Config} (h : Clashes N cfg users) :
    WireGuard.new N env (some cfg) users ≠ .ok wg := by
  intro hok
  obtain ⟨hcfg, T, diff, hT, -⟩ := WireGuard.new_ok hok
  rw [← Option.some.inj hcfg] at hT
  exact hT.not_clashes h

/-! ## The store afterwards -/

section
variable {ps : PeerStore} {cfg : Config} {T E : GoMap String PeerInfo} {psk : Option Key}
  {o : DiffOrders} {diff : SyncDiff} {k : String} {q : PeerInfo}

/-- A peer that reads as a target does. -/
def ReadsAsTarget (N : GoNet.Lib) (T : GoMap String PeerInfo) (q : PeerInfo) : Prop :=
  ∃ k t, T.lookup k = some t ∧ q.email = t.email ∧ q.networks N = t.networks N

theorem IsDiff.readsAsTarget (h : IsDiff N psk o E T diff) (hq : q ∈ diff.upsertPeers) :
    ReadsAsTarget N T q := by
  obtain ⟨k, hk, -⟩ := (h.mem_upsertPeers q).1 hq
  exact ⟨k, q, hk, rfl, rfl⟩

/-- **What is in the store after a partial sync** reads as a target, or was
there and its user is not named. -/
theorem mem_applyChanges
    (hE : ∀ k p, ps.peers.lookup k = some p → Touched users p.email → E.lookup k = some p)
    (hT : Targets N cfg users T) (hdiff : IsDiff N psk o E T diff)
    (hq : (ps.applyChanges diff.removeKeys diff.upsertPeers).1.peers.lookup k = some q) :
    ReadsAsTarget N T q ∨ ps.peers.lookup k = some q ∧ ¬ Touched users q.email := by
  rw [PeerStore.applyChanges_eq] at hq
  rcases PeerStore.mem_foldl_upsertOne diff.upsertPeers _ hq with hup | ⟨hnot, hold⟩
  · exact Or.inl (hdiff.readsAsTarget hup)
  · rw [PeerStore.lookup_foldl_removeOne] at hold
    split_ifs at hold with hremoved
    by_cases htouched : Touched users q.email
    · refine Or.inl ?_
      -- it was compared with the targets, and is none of the keys removed
      have he := hE k q hold htouched
      have hparse := ps.parseKey_of_lookup hold
      cases ht : T.lookup k with
      | none =>
        exact absurd ((hdiff.mem_removeKeys k).2 ⟨⟨q, he⟩, ht, by simp [hparse]⟩) hremoved
      | some t =>
        have hkey : t.key = k := by
          have htkey := hT.parseKey ht
          rw [hparse] at htkey
          rw [PeerInfo.key, ← Option.some.inj htkey]
          exact ps.keyed k q hold
        have hup : t ∉ diff.upsertPeers := fun hup =>
          hnot (List.mem_map.2 ⟨t, hup, hkey⟩)
        obtain ⟨e, he', hsame⟩ := hdiff.same_of_not_upserted ht hup
        obtain rfl : q = e := Option.some.inj (he.symm.trans he')
        rw [PeerInfo.Differs, not_or, not_not, not_not] at hsame
        exact ⟨k, t, ht, hsame⟩
    · exact Or.inr ⟨hold, htouched⟩

theorem Targets.disjoint_of_reads (hT : Targets N cfg users T) {q' : PeerInfo}
    (hq : ReadsAsTarget N T q) (hq' : ReadsAsTarget N T q') (hne : q.email ≠ q'.email) :
    ∀ x ∈ q.networks N, x ∉ q'.networks N := by
  obtain ⟨k, t, ht, hemail, hnets⟩ := hq
  obtain ⟨k', t', ht', hemail', hnets'⟩ := hq'
  rw [hnets, hnets']
  rw [hemail, hemail'] at hne
  exact hT.disjoint ht ht' hne

end

/-! ## Along a run -/

/-- What a run keeps: emails lead to their peers, and no network has two
users. -/
structure Sound (N : GoNet.Lib) (wg : WireGuard) : Prop where
  indexed : wg.peerStore.Indexed
  exclusive : wg.peerStore.Exclusive N

theorem sound_new {config : Option Config} (h : WireGuard.new N env config users = .ok wg) :
    Sound N wg := by
  obtain ⟨-, T, diff, hT, hdiff, hstore, -⟩ := WireGuard.new_ok h
  have hsub : (filterUpsertsByAppliedKeys diff.upsertPeers (sortStrings T.keys)).Sublist
      diff.upsertPeers := by
    unfold filterUpsertsByAppliedKeys
    split_ifs
    · exact List.Sublist.refl _
    · exact List.filter_sublist
  have hreads : ∀ k p, wg.peerStore.peers.lookup k = some p → ReadsAsTarget N T p := by
    intro k p hp
    rw [hstore] at hp
    exact hdiff.readsAsTarget (hsub.subset (PeerStore.mem_init hp))
  refine ⟨?_, fun k k' p p' hp hp' hne => ?_⟩
  · rw [hstore]
    exact PeerStore.indexed_init ((hdiff.upserts_emails hT).sublist (hsub.map _))
  · exact hT.disjoint_of_reads (hreads k p hp) (hreads k' p' hp') hne

theorem Sound.full (h : Sound N wg) (env : Env) (users : List (Option User)) :
    Sound N (wg.syncUsersFull N env users).wg := by
  rcases wg.full_cases N env users with
    hrefuses | ⟨D, T, diff, hD, hlookup, hT, hdiff, ⟨hsame, hout⟩ | hcommits⟩
  · rw [hrefuses.state]
    exact h
  · rw [hout]
    exact h
  · have hreads : ∀ k p, (wg.syncUsersFull N env users).wg.peerStore.peers.lookup k = some p →
        ReadsAsTarget N T p := by
      intro k p hp
      rw [hcommits.state] at hp
      obtain ⟨⟨k', t⟩, ht, rfl⟩ := List.mem_map.1 (PeerStore.mem_init hp)
      exact ⟨k', t, GoMap.mem_range.1 ht, rfl, rfl⟩
    refine ⟨?_, fun k k' p p' hp hp' hne => ?_⟩
    · rw [hcommits.state]
      exact PeerStore.indexed_init (hT.emails_nodup _)
    · exact hT.disjoint_of_reads (hreads k p hp) (hreads k' p' hp') hne

theorem Sound.merge (h : Sound N wg) (env : Env) (hspares : Spares N wg users) :
    Sound N (wg.syncUsersPartialReconcile N env users).wg := by
  rcases wg.partial_cases N env users with
    hrefuses | ⟨D, T, diff, hD, hlookup, hT, howned, hdiff, hcommits⟩
  · rw [hrefuses.state]
    exact h
  · have hin : ∀ k q,
        (wg.syncUsersPartialReconcile N env users).wg.peerStore.peers.lookup k = some q →
          ReadsAsTarget N T q ∨ wg.peerStore.peers.lookup k = some q ∧ ¬ Touched users q.email := by
      intro k q hq
      rw [hcommits.state] at hq
      exact mem_applyChanges
        (fun k p hp ht => WireGuard.lookup_touchedPeers_of_indexed h.indexed hp ht) hT hdiff hq
    have hspared : ∀ q k p, ReadsAsTarget N T q → wg.peerStore.peers.lookup k = some p →
        ¬ Touched users p.email → ∀ x ∈ q.networks N, x ∉ p.networks N := by
      rintro q k p ⟨k', t, ht, -, hnets⟩ hp huntouched
      obtain ⟨d, hd, -, rfl⟩ := (hT.lookup_iff k' t).1 ht
      rw [hnets]
      exact hspares d hd k p hp huntouched
    refine ⟨?_, fun k k' p p' hp hp' hne => ?_⟩
    · rw [hcommits.state]
      show (PeerStore.applyChanges ..).1.Indexed
      rw [PeerStore.applyChanges_eq]
      exact (h.indexed.foldl_removeOne _ _).foldl_upsertOne _
    · rcases hin k p hp with hp | ⟨hp, huntouched⟩
      · rcases hin k' p' hp' with hp' | ⟨hp', huntouched'⟩
        · exact hT.disjoint_of_reads hp hp' hne
        · exact hspared p k' p' hp hp' huntouched'
      · rcases hin k' p' hp' with hp' | ⟨hp', huntouched'⟩
        · exact fun x hx hx' => hspared p' k p hp' hp huntouched x hx' hx
        · exact h.exclusive k k' p p' hp hp' hne

theorem Sound.restart (h : Sound N wg) (env : Env) : Sound N (wg.restartLocked N env).wg := by
  rcases wg.restartLocked_cases N env with hrefuses | ⟨configs, -, hout⟩
  · rw [hrefuses.state]
    exact h
  · rw [hout]
    exact ⟨h.indexed, h.exclusive⟩

/-- **After a merge of canonical keys no network has two users exactly if
the list spares those it does not name.** -/
theorem exclusive_merge_iff (h : Sound N wg) (hone : wg.peerStore.OneToOne) (hc : Canonical users)
    (hok : (wg.syncUsersPartialReconcile N env users).err = none) :
    (wg.syncUsersPartialReconcile N env users).wg.peerStore.Exclusive N ↔ Spares N wg users := by
  refine ⟨fun hexcl d hd k p hp huntouched x hx hx' => ?_,
    fun hspares => (h.merge env hspares).exclusive⟩
  rcases wg.partial_cases N env users with
    hrefuses | ⟨D, T, diff, hD, hlookup, hT, howned, hdiff, hcommits⟩
  · exact hrefuses.err hok
  · rw [hcommits.state] at hexcl
    have hmerged := merged_applyChanges hone
      (fun k p => WireGuard.lookup_touchedPeers_of_oneToOne hone) (hT.placed hc) hdiff
    have ht : T.lookup d.publicKey = some d.peerInfo := (hT.lookup_iff _ _).2 ⟨d, hd, rfl, rfl⟩
    obtain ⟨q, hq, hview⟩ := hmerged.target _ _ ht
    -- the user that is not named is still there
    have hnone : T.lookup k = none := by
      refine Option.eq_none_iff_forall_ne_some.2 fun t ht => ?_
      exact huntouched (howned k t p ht hp)
    have hkept := (hmerged.other k p hnone).2 ⟨hp, huntouched⟩
    have hnets : q.networks N = d.peerInfo.networks N := congrArg (fun v => v.2.2) hview
    have hne : q.email ≠ p.email := by
      intro heq
      rw [← heq, Merged.email_eq_of_view hview] at huntouched
      exact huntouched hd.touched
    exact hexcl _ _ q p hq hkept hne x (hnets ▸ hx) hx'

/-- **Allowed IPs are exclusive.** In every run whose merged lists spare
the users they do not name, no network has two users. A list in which two
users ask for one network is always refused and changes nothing. And with
canonical keys a merge that goes through keeps networks exclusive only if
its list spares the others. -/
theorem networks_exclusive (N : GoNet.Lib) :
    (∀ wg, Runs.Path (WireGuard.step N) (Allowed (fun _ _ => True) (Spares N)) none (some wg) →
      wg.peerStore.Exclusive N) ∧
    (∀ env users,
      (∀ wg : WireGuard, Clashes N wg.config users →
        (wg.syncUsers N env users).Refuses wg ∧ (wg.updateUsers N env users).Refuses wg ∧
          (wg.updateUsersAndRestart N env users).Refuses wg) ∧
      ∀ cfg wg, Clashes N cfg users → WireGuard.new N env (some cfg) users ≠ .ok wg) ∧
    ∀ env wg users, wg.peerStore.OneToOne → wg.peerStore.Exclusive N → Canonical users →
      (wg.updateUsers N env users).err = none →
      ((wg.updateUsers N env users).wg.peerStore.Exclusive N ↔ Spares N wg users) := by
  refine ⟨fun wg hrun => ?_, fun env users => ⟨fun wg hclash => ?_, fun cfg wg hclash =>
    new_ne_ok_of_clashes hclash⟩, fun env wg users hone hexcl hc hok =>
    exclusive_merge_iff ⟨hone.indexed, hexcl⟩ hone hc hok⟩
  · have hsound : Sound N wg :=
      WireGuard.run_keeps (fun env wg users _ hnew => sound_new hnew)
        (fun env wg users h _ => h.full env users) (fun env wg users h hspares => h.merge env hspares)
        (fun env wg h => h.restart env) hrun
    exact hsound.exclusive
  · obtain ⟨hmerge, hfull⟩ := refuses_of_clashes env hclash
    refine ⟨hfull, hmerge, ?_⟩
    -- the update is refused, so there is no restart
    unfold WireGuard.updateUsersAndRestart
    dsimp only
    cases herr : (wg.syncUsersPartialReconcile N env users).err with
    | none => exact absurd herr hmerge.err
    | some err => exact hmerge

namespace Demo

def run (ops : List Op) : Option WireGuard :=
  (ops.map fun op => (Env.calm, op)).foldl (WireGuard.step GoNet.std) none

theorem path_concat {ok : Option WireGuard → Env × Op → Prop} (ops : List Op) (op : Op)
    (h : Runs.Path (WireGuard.step GoNet.std) ok none (run ops)) (hop : ok (run ops) (Env.calm, op)) :
    Runs.Path (WireGuard.step GoNet.std) ok none (run (ops ++ [op])) := by
  rw [run, List.map_append, List.foldl_append]
  exact h.snoc _ hop

def pair : List (Option User) :=
  [user "a" (key 1).string ["10.0.0.2/32"], user "b" (key 2).string ["10.0.0.3/32"]]

theorem new_pair : ∃ wg, WireGuard.new GoNet.std .calm (some config) pair = .ok wg := by
  have hsome : (WireGuard.new GoNet.std .calm (some config) pair).toOption.isSome = true := by
    decide +kernel
  cases hnew : WireGuard.new GoNet.std .calm (some config) pair with
  | error err =>
    rw [hnew] at hsome
    cases hsome
  | ok wg => exact ⟨wg, rfl⟩

theorem holds_of_pair (P : WireGuard → Prop) [DecidablePred P] {wg : WireGuard}
    (hnew : WireGuard.new GoNet.std .calm (some config) pair = .ok wg)
    (h : (WireGuard.new GoNet.std .calm (some config) pair).toOption.all fun wg =>
      decide (P wg)) : P wg := by
  rw [hnew] at h
  exact of_decide_eq_true h

end Demo

theorem spares_one {wg : WireGuard} {u : User} {asked : List String} {held : List (List String)}
    (hasked : (desiredOf N wg.config u).map (fun d => d.peerInfo.networks N) = some asked)
    (hheld : (GoMap.range .given wg.peerStore.peers).map (fun e => e.2.networks N) = held)
    (hfree : ∀ nets ∈ held, ∀ x ∈ asked, x ∉ nets) : Spares N wg [some u] := by
  rintro d ⟨u', hu', hd⟩ k p hp - x hx
  obtain rfl : u' = u := Option.some.inj (List.mem_singleton.1 (mem_of_lastByEmail hu'))
  rw [hd, Option.map_some, Option.some.injEq] at hasked
  refine hfree _ ?_ x (hasked ▸ hx)
  rw [← hheld]
  exact List.mem_map.2 ⟨(k, p), GoMap.mem_range.2 hp, rfl⟩

/-- One user is given the address of another that the list does not name:
the update is accepted, and both hold it. -/
theorem network_held_twice :
    ∃ wg, Runs.Path (WireGuard.step GoNet.std) (fun _ _ => True) none (some wg) ∧
      Demo.run [.new (some Demo.config) Demo.pair,
        .updateUsers [Demo.user "a" (Demo.key 1).string ["10.0.0.3/32"]]] = some wg ∧
      ¬ wg.peerStore.Exclusive GoNet.std := by
  have hheld : (Demo.run [.new (some Demo.config) Demo.pair,
      .updateUsers [Demo.user "a" (Demo.key 1).string ["10.0.0.3/32"]]]).map (fun wg =>
        ((wg.peerStore.peers.lookup (Demo.key 1).string).map fun p => (p.email, p.networks GoNet.std),
          (wg.peerStore.peers.lookup (Demo.key 2).string).map fun p =>
            (p.email, p.networks GoNet.std))) =
      some (some ("a", ["10.0.0.3/32"]), some ("b", ["10.0.0.3/32"])) := by decide +kernel
  obtain ⟨wg, hwg, hpeers⟩ := Option.map_eq_some_iff.1 hheld
  obtain ⟨ha, hb⟩ := Prod.mk.inj hpeers
  obtain ⟨p, hp, hpv⟩ := Option.map_eq_some_iff.1 ha
  obtain ⟨q, hq, hqv⟩ := Option.map_eq_some_iff.1 hb
  obtain ⟨hpe, hpn⟩ := Prod.mk.inj hpv
  obtain ⟨hqe, hqn⟩ := Prod.mk.inj hqv
  refine ⟨wg, ?_, hwg, fun hexcl => ?_⟩
  · rw [← hwg]
    exact Demo.path_concat [_] _ (Demo.path_concat [] _ .refl trivial) trivial
  · exact hexcl _ _ p q hp hq (by rw [hpe, hqe]; decide) "10.0.0.3/32" (by simp [hpn])
      (by simp [hqn])

namespace Demo

def third : User :=
  ⟨"c", some ⟨(key 3).string, ["10.0.0.4/32"]⟩, ["wg0"]⟩

theorem spares_third {wg : WireGuard} (h : run [.new (some config) pair] = some wg) :
    Spares GoNet.std wg [some third] := by
  have hstate : (run [.new (some config) pair]).map (fun wg =>
      ((desiredOf GoNet.std wg.config third).map fun d => d.peerInfo.networks GoNet.std,
        (GoMap.range .given wg.peerStore.peers).map fun e => e.2.networks GoNet.std)) =
      some (some ["10.0.0.4/32"], [["10.0.0.3/32"], ["10.0.0.2/32"]]) := by decide +kernel
  rw [h, Option.map_some, Option.some.injEq, Prod.mk.injEq] at hstate
  exact spares_one hstate.1 hstate.2 (by decide)

end Demo

/-- A third user with an address of its own is merged in. -/
theorem networks_exclusive_third :
    ∃ wg, Demo.run [.new (some Demo.config) Demo.pair, .updateUsers [some Demo.third]] = some wg ∧
      wg.peerStore.Exclusive GoNet.std := by
  have hsome : (Demo.run [.new (some Demo.config) Demo.pair,
      .updateUsers [some Demo.third]]).isSome = true := by decide +kernel
  obtain ⟨wg, hwg⟩ := Option.isSome_iff_exists.1 hsome
  refine ⟨wg, hwg, (networks_exclusive GoNet.std).1 wg ?_⟩
  rw [← hwg]
  refine Demo.path_concat [_] _ (Demo.path_concat [] _ .refl fun _ _ => trivial) fun b hb => ?_
  exact Demo.spares_third hb

end Wireguard

end NodeAgent
