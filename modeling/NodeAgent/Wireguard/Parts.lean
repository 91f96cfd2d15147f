import NodeAgent.Wireguard.Kernel
/-!
# A sync, part by part

A sync reconfigures the kernel, then the store, and then drops the stats
of the keys that went, one after the other; it holds its own lock all the
while, but samples and pulls do not take that, and may come in between.
The parts one after the other are the operation as it was modelled, and
they are in an order one may rely on: a key that leaves the store will
have its stats dropped, and has left the kernel by then.
-/

namespace NodeAgent

namespace Wireguard

/-! ## The parts of an operation -/

/-- One part of a sync; others may come between two of them. -/
inductive Action
  /-- The kernel has this device now; `replaced` if all peers are new. -/
  | kernel (device : Device) (replaced : Bool)
  /-- The store is this one now. -/
  | store (peerStore : PeerStore)
  /-- `RemoveStats`. -/
  | removeStats (publicKey : String)

/-- Whether a call replaces all peers of the kernel. -/
def Effect.replaces : Effect → Bool
  | .configureDevice replacePeers _ => replacePeers
  | .removeStats _ => false

/-- The parts of an operation that goes through. Without a call to the
kernel the device is the one it was. -/
def Outcome.actions (out : Outcome) : List Action :=
  match out.err with
  | some _ => []
  | none =>
    .kernel out.wg.device (out.effects.any Effect.replaces) :: .store out.wg.peerStore ::
      out.statsRemoved.map .removeStats

/-- The parts of an operation. -/
def WireGuard.actions (N : GoNet.Lib) (env : Env) (wg : WireGuard) : Op → List Action
  | .updateUsersAndRestart users =>
    let updated := wg.syncUsersPartialReconcile N env users
    match updated.err with
    | some _ => []
    | none => updated.actions ++ (updated.wg.restartLocked N env).actions
  | op => (wg.exec N env op).actions

/-- One part. -/
def WireGuard.perform (wg : WireGuard) : Action → WireGuard
  | .kernel device _ => { wg with device := device }
  | .store peerStore => { wg with peerStore := peerStore }
  | .removeStats publicKey => { wg with statsTracker := wg.statsTracker.removeStats publicKey }

/-- The device has no peer of a key. -/
def Device.lacks (device : Device) (key : String) : Bool :=
  ((parseKey key).bind device).isNone

namespace WireGuard

variable {N : GoNet.Lib} {env : Env} {wg : WireGuard} {users : List (Option User)}

/-- **An operation is refused, or commits something.** -/
def Decides (wg : WireGuard) (out : Outcome) : Prop :=
  out.Refuses wg ∨ ∃ store device, out.Commits wg store device

theorem decides_unchanged (wg : WireGuard) : wg.Decides ⟨wg, none, []⟩ :=
  Or.inr ⟨(wg.peerStore, []), wg.device, rfl, rfl, rfl⟩

theorem decides_syncUsersPartialReconcile (N : GoNet.Lib) (env : Env) (wg : WireGuard)
    (users : List (Option User)) :
    wg.Decides (wg.syncUsersPartialReconcile N env users) := by
  rcases wg.syncUsersPartialReconcile_cases N env users with hrefuses | ⟨D, -, -, hcommits⟩
  · exact Or.inl hrefuses
  · exact Or.inr ⟨_, _, hcommits⟩

theorem decides_full (N : GoNet.Lib) (env : Env) (wg : WireGuard) (users : List (Option User)) :
    wg.Decides (wg.syncUsersFull N env users) := by
  rcases wg.syncUsersFull_cases N env users with hrefuses | ⟨D, -, ⟨-, hsame⟩ | ⟨-, hcommits⟩⟩
  · exact Or.inl hrefuses
  · rw [hsame]
    exact decides_unchanged wg
  · exact Or.inr ⟨_, _, hcommits⟩

theorem restartLocked_commits (N : GoNet.Lib) (env : Env) (wg : WireGuard) :
    (wg.restartLocked N env).Refuses wg ∨
      ∃ device, (wg.restartLocked N env).Commits wg (wg.peerStore, []) device := by
  unfold restartLocked
  cases wg.config.getPrivateKey with
  | none => exact Or.inl (refuses_fail wg _)
  | some key =>
    dsimp only
    cases buildPeerConfigsForRestart wg.config.getPreSharedKey
        (wg.peerStore.getAll (env.order .all)) with
    | error err => exact Or.inl (refuses_fail wg err)
    | ok configs =>
      dsimp only
      cases wg.ensureRunningWithManager with
      | error err => exact Or.inl (refuses_fail wg err)
      | ok manager =>
        dsimp only
        cases wg.configureDevice N manager env.reconfigured true configs with
        | error err => exact Or.inl ⟨by simp, rfl, rfl⟩
        | ok device => exact Or.inr ⟨device, rfl, rfl, rfl⟩

theorem decides_restart (N : GoNet.Lib) (env : Env) (wg : WireGuard) :
    wg.Decides (wg.restartLocked N env) := by
  rcases wg.restartLocked_commits N env with hrefuses | ⟨device, hcommits⟩
  · exact Or.inl hrefuses
  · exact Or.inr ⟨_, _, hcommits⟩

theorem perform_removeStats (keys : List String) (wg : WireGuard) :
    (keys.map Action.removeStats).foldl perform wg =
      { wg with statsTracker := keys.foldl Tracker.removeStats wg.statsTracker } := by
  induction keys generalizing wg with
  | nil => rfl
  | cons key keys ih => exact ih _

theorem Decides.perform_actions {out : Outcome} (h : wg.Decides out) :
    out.actions.foldl perform wg = out.wg := by
  unfold Outcome.actions
  rcases h with hrefuses | ⟨store, device, hcommits⟩
  · cases herr : out.err with
    | none => exact absurd herr hrefuses.err
    | some err => exact hrefuses.state.symm
  · rw [hcommits.err]
    show List.foldl perform (({ wg with device := out.wg.device } : WireGuard).perform _) _ = _
    rw [perform_removeStats, hcommits.stats, hcommits.state]
    rfl

/-- **The parts of an operation one after the other are the operation.** -/
theorem perform_actions (N : GoNet.Lib) (env : Env) (wg : WireGuard) (op : Op) :
    (wg.actions N env op).foldl perform wg = (wg.exec N env op).wg := by
  cases op with
  | new config users => exact (decides_unchanged wg).perform_actions
  | syncUser user =>
    cases user with
    | none => exact Decides.perform_actions (Or.inl (refuses_fail wg _))
    | some u => exact (decides_syncUsersPartialReconcile N env wg [some u]).perform_actions
  | syncUsers users => exact (decides_full N env wg users).perform_actions
  | updateUsers users => exact (decides_syncUsersPartialReconcile N env wg users).perform_actions
  | updateUsersAndRestart users =>
    have hupdated := (decides_syncUsersPartialReconcile N env wg users).perform_actions
    simp only [actions, exec, updateUsersAndRestart]
    cases herr : (wg.syncUsersPartialReconcile N env users).err with
    | some err =>
      rcases decides_syncUsersPartialReconcile N env wg users with hrefuses | ⟨store, device, hcommits⟩
      · exact hrefuses.state.symm
      · rw [hcommits.err] at herr
        cases herr
    | none =>
      dsimp only
      rw [List.foldl_append, hupdated]
      exact (decides_restart N env _).perform_actions
  | restart => exact (decides_restart N env wg).perform_actions

end WireGuard

/-! ## What a sync may be relied on for -/

/-- The device after a part. -/
def Action.device (device : Device) : Action → Device
  | .kernel device' _ => device'
  | .store _ | .removeStats _ => device

/-- The store after a part. -/
def Action.peerStore (ps : PeerStore) : Action → PeerStore
  | .store ps' => ps'
  | .kernel _ _ | .removeStats _ => ps

/-- What a part may rely on, and what is still to come after it: a key that
leaves the store will have its stats dropped, and no key has them dropped
that is still in the kernel. -/
def Action.Due (device : Device) (ps : PeerStore) (rest : List Action) : Action → Prop
  | .kernel _ _ => True
  | .store ps' => ps'.OneToOne ∧ ∀ k, ps.peers.lookup k ≠ none → ps'.peers.lookup k = none →
      .removeStats k ∈ rest
  | .removeStats k => device.lacks k = true

/-- **The parts of a sync come in order.** -/
def Orderly (device : Device) (ps : PeerStore) : List Action → Prop
  | [] => True
  | a :: rest => a.Due device ps rest ∧ Orderly (a.device device) (a.peerStore ps) rest

section
variable {N : GoNet.Lib} {env : Env} {wg : WireGuard} {users : List (Option User)}
  {device : Device} {ps : PeerStore}

theorem Action.Due.append {rest more : List Action} {a : Action} (h : a.Due device ps rest) :
    a.Due device ps (rest ++ more) := by
  cases a with
  | kernel device' replaced => trivial
  | store ps' => exact ⟨h.1, fun k hk hk' => List.mem_append_left _ (h.2 k hk hk')⟩
  | removeStats k => exact h

theorem Orderly.append {as bs : List Action} (h : Orderly device ps as)
    (hbs : Orderly (as.foldl Action.device device) (as.foldl Action.peerStore ps) bs) :
    Orderly device ps (as ++ bs) := by
  induction as generalizing device ps with
  | nil => exact hbs
  | cons a as ih => exact ⟨h.1.append, ih h.2 hbs⟩

theorem orderly_removeStats {keys : List String} (h : ∀ k ∈ keys, device.lacks k = true) :
    Orderly device ps (keys.map .removeStats) := by
  induction keys with
  | nil => trivial
  | cons key keys ih =>
    exact ⟨h key (List.mem_cons_self ..), ih fun k hk => h k (List.mem_cons_of_mem _ hk)⟩

/-- **A commit is orderly** if it drops the stats of just the keys that
leave the store, and they are gone from the kernel. -/
theorem Outcome.orderly_actions {out : Outcome} {wg : WireGuard} (hone : out.wg.peerStore.OneToOne)
    (hstats : out.err = none → out.StatsExact wg)
    (hgone : ∀ k, wg.peerStore.peers.lookup k ≠ none → out.wg.peerStore.peers.lookup k = none →
      out.wg.device.lacks k = true) :
    Orderly wg.device wg.peerStore out.actions := by
  unfold Outcome.actions
  cases herr : out.err with
  | some err => trivial
  | none =>
    obtain ⟨-, hmem⟩ := hstats herr
    refine ⟨trivial, ⟨hone, fun k hk hk' => ?_⟩, orderly_removeStats fun k hk => ?_⟩
    · exact List.mem_map.2 ⟨k, (hmem k).2 ⟨hk, hk'⟩, rfl⟩
    · obtain ⟨hold, hnew⟩ := (hmem k).1 hk
      exact hgone k hold hnew

theorem lacks_of_lookup {p : PeerInfo} {k : String} (hp : wg.peerStore.peers.lookup k = some p)
    (hnone : device p.publicKey = none) : device.lacks k = true := by
  unfold Device.lacks
  rw [wg.peerStore.parseKey_of_lookup hp]
  exact Option.isNone_iff_eq_none.2 hnone

theorem lacks_of_merge (hone : wg.peerStore.OneToOne) (hc : Canonical users) {k : String}
    (hold : wg.peerStore.peers.lookup k ≠ none)
    (hnew : (wg.syncUsersPartialReconcile N env users).wg.peerStore.peers.lookup k = none) :
    (wg.syncUsersPartialReconcile N env users).wg.device.lacks k = true := by
  obtain ⟨p, hp⟩ := Option.ne_none_iff_exists'.1 hold
  rcases wg.partial_cases N env users with
    hrefuses | ⟨D, T, diff, hD, hlookup, hT, howned, hdiff, hcommits⟩
  · rw [hrefuses.state, hp] at hnew
    cases hnew
  · have hE : ∀ k p, (wg.touchedPeers env users).lookup k = some p ↔
        wg.peerStore.peers.lookup k = some p ∧ Touched users p.email :=
      fun k p => WireGuard.lookup_touchedPeers_of_oneToOne hone
    rw [hcommits.state] at hnew ⊢
    have hmerged := merged_applyChanges hone hE (hT.placed hc) hdiff
    obtain ⟨⟨q, hq, htouched⟩, hnone⟩ := hmerged.left_iff.1 ⟨hold, hnew⟩
    rw [hp] at hq
    obtain rfl := Option.some.inj hq
    have hstring : p.publicKey.string = k := wg.peerStore.keyed k p hp
    have hchange : changeFor N (wg.touchedPeers env users) T p.publicKey =
        some (.remove p.publicKey) := by
      rw [changeFor, hstring, (hE k p).2 ⟨hp, htouched⟩, hnone]
    have hmem := hdiff.mem_changes (hT.placed hc) fun k e he =>
      wg.peerStore.keyed k e ((hE k e).1 he).1
    refine lacks_of_lookup hp (Holdings.foldl_apply_removed ((hmem _).2 hchange) ?_ _)
    intro c hchanges hholder
    have hother := (hmem c).1 hchanges
    rw [hholder, hchange] at hother
    exact (Option.some.inj hother).symm

/-- **A list that replaces everything names no key twice**, in whatever
spelling; in canonical spelling such a list is refused. -/
def Distinct (N : GoNet.Lib) (cfg : Config) (users : List (Option User)) : Prop :=
  Canonical users ∨ KeysApart N cfg users

theorem Distinct.keysApart {cfg : Config} {T : GoMap String PeerInfo} (h : Distinct N cfg users)
    (hT : Targets N cfg users T) : KeysApart N cfg users := by
  rcases h with hc | hkeys
  · intro d d' hd hd' hkey
    have hspelled : d.publicKey = d'.publicKey := by
      rw [hc.asks hd, hc.asks hd']
      exact congrArg Key.string hkey
    have ht := (hT.lookup_iff _ _).2 ⟨d, hd, rfl, rfl⟩
    rw [hspelled, (hT.lookup_iff _ _).2 ⟨d', hd', rfl, rfl⟩] at ht
    exact (congrArg PeerInfo.email (Option.some.inj ht)).symm
  · exact hkeys

theorem lacks_of_full (hdistinct : Distinct N wg.config users) {k : String}
    (hold : wg.peerStore.peers.lookup k ≠ none)
    (hnew : (wg.syncUsersFull N env users).wg.peerStore.peers.lookup k = none) :
    (wg.syncUsersFull N env users).wg.device.lacks k = true := by
  obtain ⟨p, hp⟩ := Option.ne_none_iff_exists'.1 hold
  rcases wg.full_cases N env users with
    hrefuses | ⟨D, T, diff, hD, hlookup, hT, hdiff, ⟨hsame, hout⟩ | hcommits⟩
  · rw [hrefuses.state, hp] at hnew
    cases hnew
  · rw [hout, hp] at hnew
    cases hnew
  · have hagrees : (wg.syncUsersFull N env users).wg.Agrees N := by
      rw [hcommits.state]
      exact (hT.snapshot_agrees_iff (mem_range_targets _) (hT.emails_nodup _) wg.device).2
        (hdistinct.keysApart hT)
    refine lacks_of_lookup hp ((hagrees p.publicKey).trans ?_)
    have hstring : p.publicKey.string = k := wg.peerStore.keyed k p hp
    rw [hstring, hnew]
    rfl

theorem oneToOne_merge (hone : wg.peerStore.OneToOne) (hc : Canonical users) :
    (wg.syncUsersPartialReconcile N env users).wg.peerStore.OneToOne := by
  cases herr : (wg.syncUsersPartialReconcile N env users).err with
  | none =>
    obtain ⟨D, -, hmerges⟩ := WireGuard.syncUsersPartialReconcile_merges hone hc herr
    exact hmerges.oneToOne
  | some err =>
    rcases WireGuard.decides_syncUsersPartialReconcile N env wg users with
      hrefuses | ⟨store, device, hcommits⟩
    · rw [hrefuses.state]
      exact hone
    · rw [hcommits.err] at herr
      cases herr

theorem oneToOne_full (hone : wg.peerStore.OneToOne) (hdistinct : Distinct N wg.config users) :
    (wg.syncUsersFull N env users).wg.peerStore.OneToOne := by
  rcases wg.full_cases N env users with
    hrefuses | ⟨D, T, diff, hD, hlookup, hT, hdiff, ⟨hsame, hout⟩ | hcommits⟩
  · rw [hrefuses.state]
    exact hone
  · rw [hout]
    exact hone
  · rw [hcommits.state]
    exact oneToOne_targets hT (hdistinct.keysApart hT) (mem_range_targets _) (hT.emails_nodup _)

theorem oneToOne_new {config : Option Config} (h : WireGuard.new N env config users = .ok wg)
    (hdistinct : Distinct N wg.config users) : wg.peerStore.OneToOne := by
  obtain ⟨-, T, diff, hT, hdiff, -, -⟩ := WireGuard.new_ok h
  exact (mirrored_new h (hdistinct.keysApart hT)).oneToOne

/-- **The keys of a list are spelled so that they can be told apart.** -/
def Op.Spelled (N : GoNet.Lib) (cfg : Config) : Op → Prop
  | .new _ _ | .restart => True
  | .syncUser user => Canonical [user]
  | .syncUsers users => Distinct N cfg users
  | .updateUsers users | .updateUsersAndRestart users => Canonical users

theorem orderly_merge (hone : wg.peerStore.OneToOne) (hc : Canonical users) :
    Orderly wg.device wg.peerStore (wg.syncUsersPartialReconcile N env users).actions := by
  refine Outcome.orderly_actions (oneToOne_merge hone hc) (fun herr => ?_)
    fun k => lacks_of_merge hone hc
  obtain ⟨D, -, hmerges⟩ := WireGuard.syncUsersPartialReconcile_merges hone hc herr
  exact hmerges.stats

theorem orderly_restart (N : GoNet.Lib) (env : Env) (wg : WireGuard)
    (hone : wg.peerStore.OneToOne) :
    Orderly wg.device wg.peerStore (wg.restartLocked N env).actions := by
  rcases wg.restartLocked_commits N env with hrefuses | ⟨device, hcommits⟩
  · refine Outcome.orderly_actions ?_ (fun herr => absurd herr hrefuses.err) fun k hold hnew => ?_
    · rw [hrefuses.state]
      exact hone
    · rw [hrefuses.state] at hnew
      exact absurd hnew hold
  · refine Outcome.orderly_actions ?_ (fun _ => ⟨?_, fun k => ?_⟩) fun k hold hnew => ?_
    · rw [hcommits.state]
      exact hone
    · rw [hcommits.stats]
      exact List.nodup_nil
    · rw [hcommits.stats, hcommits.state]
      simp only [List.not_mem_nil, false_iff]
      exact fun hand => hand.1 hand.2
    · rw [hcommits.state] at hnew
      exact absurd hnew hold

theorem Outcome.after_actions {out : Outcome} (herr : out.err = none) (device : Device)
    (ps : PeerStore) :
    out.actions.foldl Action.device device = out.wg.device ∧
      out.actions.foldl Action.peerStore ps = out.wg.peerStore := by
  unfold Outcome.actions
  rw [herr]
  have hfix : ∀ (keys : List String) (device : Device) (ps : PeerStore),
      (keys.map Action.removeStats).foldl Action.device device = device ∧
        (keys.map Action.removeStats).foldl Action.peerStore ps = ps := by
    intro keys device ps
    induction keys with
    | nil => exact ⟨rfl, rfl⟩
    | cons key keys ih => exact ih
  exact hfix out.statsRemoved out.wg.device out.wg.peerStore

/-- **The parts of every operation come in order.** -/
theorem orderly_actions {op : Op} (hone : wg.peerStore.OneToOne) (hop : op.Spelled N wg.config) :
    Orderly wg.device wg.peerStore (wg.actions N env op) := by
  cases op with
  | new config users =>
    exact ⟨trivial, ⟨hone, fun k hk hk' => absurd hk' hk⟩, trivial⟩
  | syncUser user =>
    cases user with
    | none => trivial
    | some u => exact orderly_merge hone hop
  | syncUsers users =>
    exact Outcome.orderly_actions (oneToOne_full hone hop)
      WireGuard.syncUsersFull_statsExact fun k => lacks_of_full hop
  | updateUsers users => exact orderly_merge hone hop
  | updateUsersAndRestart users =>
    have hmerge : Orderly wg.device wg.peerStore
        (wg.syncUsersPartialReconcile N env users).actions := orderly_merge hone hop
    simp only [WireGuard.actions]
    cases herr : (wg.syncUsersPartialReconcile N env users).err with
    | some err => trivial
    | none =>
      obtain ⟨hdevice, hstore⟩ := Outcome.after_actions herr wg.device wg.peerStore
      refine hmerge.append ?_
      rw [hdevice, hstore]
      exact orderly_restart N env _ (oneToOne_merge hone hop)
  | restart => exact orderly_restart N env wg hone

end

end Wireguard

end NodeAgent
