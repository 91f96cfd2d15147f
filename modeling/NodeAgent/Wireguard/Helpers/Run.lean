import NodeAgent.Wireguard.Helpers.Reconcile
/-!
# Runs of a backend

Every operation is a `New`, a full sync, a partial sync, a restart, or a
partial sync and then a restart. What holds of a new backend and is kept
by each of these holds in every state of a run, under conditions on the
lists that come in: one for those that replace everything, and one, which
may look at the backend, for those that are merged into it.
-/

namespace NodeAgent

namespace Wireguard

variable {N : GoNet.Lib} {env : Env} {users : List (Option User)}

/-! ## New -/

/-- **A new backend by its targets**: they are all upserted, into an empty
store and a kernel without peers. -/
theorem WireGuard.new_ok {config : Option Config} {wg : WireGuard}
    (h : WireGuard.new N env config users = .ok wg) :
    config = some wg.config ∧ ∃ T diff, Targets N wg.config users T ∧
      IsDiff N wg.config.getPreSharedKey env.diffOrders ∅ T diff ∧
      wg.peerStore = PeerStore.new.init (filterUpsertsByAppliedKeys diff.upsertPeers
        (sortStrings T.keys)) ∧
      wg.device = Device.configure N Device.fresh true
        (buildTargetPeerConfigs wg.config.getPreSharedKey T).1 := by
  unfold WireGuard.new WireGuard.startup at h
  cases config with
  | none => cases h
  | some cfg =>
    dsimp only at h
    cases hkey : cfg.getPrivateKey with
    | none =>
      rw [hkey] at h
      cases h
    | some key =>
      rw [hkey] at h
      dsimp only at h
      cases hD : collectDesiredPeers N cfg (normalizeUsers (env.order .lastByEmail) users) with
      | error err =>
        rw [hD] at h
        cases h
      | ok D =>
        rw [hD] at h
        dsimp only at h
        split_ifs at h
        obtain rfl := Except.ok.inj h
        obtain ⟨T, hT, -, htargets, hdiff⟩ := exists_targets hD cfg.getPreSharedKey
          env.diffOrders ∅
        refine ⟨rfl, T, _, hT, hdiff, ?_, ?_⟩
        · dsimp only
          rw [htargets, buildTargetPeerConfigs_eq hT.routed]
        · dsimp only
          rw [htargets]
          -- without configurations there is nothing to replace
          cases buildTargetPeerConfigs cfg.getPreSharedKey T with
          | mk configs keys => cases configs <;> rfl

theorem WireGuard.new_statsTracker {config : Option Config} {wg : WireGuard}
    (h : WireGuard.new N env config users = .ok wg) : wg.statsTracker = ∅ := by
  unfold WireGuard.new at h
  cases config with
  | none => cases h
  | some cfg =>
    dsimp only at h
    split at h
    · cases h
    · split at h
      · cases h
      · split_ifs at h
        rw [← Except.ok.inj h]

/-! ## Runs -/

/-- **A condition on the lists of a run**: `Q` on a list that replaces
everything, under the configuration it does so, and `P` on one that is
merged into a backend. -/
def Allowed (Q : Config → List (Option User) → Prop) (P : WireGuard → List (Option User) → Prop)
    (wg : Option WireGuard) (l : Env × Op) : Prop :=
  match l.2 with
  | .new config users => ∀ cfg, config = some cfg → Q cfg users
  | .syncUser user => ∀ b, wg = some b → P b [user]
  | .syncUsers users => ∀ b, wg = some b → Q b.config users
  | .updateUsers users => ∀ b, wg = some b → P b users
  | .updateUsersAndRestart users => ∀ b, wg = some b → P b users
  | .restart => True

theorem WireGuard.updateUsersAndRestart_cases (N : GoNet.Lib) (env : Env) (wg : WireGuard)
    (users : List (Option User)) :
    (wg.updateUsersAndRestart N env users).wg = (wg.syncUsersPartialReconcile N env users).wg ∨
      (wg.updateUsersAndRestart N env users).wg =
        ((wg.syncUsersPartialReconcile N env users).wg.restartLocked N env).wg := by
  unfold updateUsersAndRestart
  dsimp only
  cases (wg.syncUsersPartialReconcile N env users).err with
  | some err => exact Or.inl rfl
  | none => exact Or.inr rfl

section
variable {Q : Config → List (Option User) → Prop} {P : WireGuard → List (Option User) → Prop}
  {I : WireGuard → Prop}
  (hnew : ∀ env wg users, Q wg.config users →
    WireGuard.new N env (some wg.config) users = .ok wg → I wg)
  (hfull : ∀ env wg users, I wg → Q wg.config users → I (wg.syncUsersFull N env users).wg)
  (hmerge : ∀ env wg users, I wg → P wg users → I (wg.syncUsersPartialReconcile N env users).wg)
  (hrestart : ∀ env wg, I wg → I (wg.restartLocked N env).wg)
include hnew hfull hmerge hrestart

theorem WireGuard.step_keeps {s : Option WireGuard} {l : Env × Op} (hs : ∀ wg, s = some wg → I wg)
    (hl : Allowed Q P s l) (wg' : WireGuard) (h : WireGuard.step N s l = some wg') : I wg' := by
  obtain ⟨env, op⟩ := l
  cases op with
  | new config users =>
    change (WireGuard.new N env config users).toOption = some wg' at h
    cases hmade : WireGuard.new N env config users with
    | error err =>
      rw [hmade] at h
      cases h
    | ok wg =>
      rw [hmade] at h
      obtain rfl : wg = wg' := Option.some.inj h
      obtain ⟨rfl, -⟩ := WireGuard.new_ok hmade
      exact hnew env wg users (hl _ rfl) hmade
  | syncUser user =>
    obtain ⟨wg, rfl, rfl⟩ := Option.map_eq_some_iff.1 h
    cases user with
    | none => exact hs wg rfl
    | some u => exact hmerge env wg [some u] (hs wg rfl) (hl wg rfl)
  | syncUsers users =>
    obtain ⟨wg, rfl, rfl⟩ := Option.map_eq_some_iff.1 h
    exact hfull env wg users (hs wg rfl) (hl wg rfl)
  | updateUsers users =>
    obtain ⟨wg, rfl, rfl⟩ := Option.map_eq_some_iff.1 h
    exact hmerge env wg users (hs wg rfl) (hl wg rfl)
  | updateUsersAndRestart users =>
    obtain ⟨wg, rfl, rfl⟩ := Option.map_eq_some_iff.1 h
    have hupdated := hmerge env wg users (hs wg rfl) (hl wg rfl)
    rcases wg.updateUsersAndRestart_cases N env users with heq | heq
    · exact (congrArg I heq).mpr hupdated
    · exact (congrArg I heq).mpr (hrestart env _ hupdated)
  | restart =>
    obtain ⟨wg, rfl, rfl⟩ := Option.map_eq_some_iff.1 h
    exact hrestart env wg (hs wg rfl)

/-- **What every operation keeps holds in every state reached.** -/
theorem WireGuard.run_keeps {wg : WireGuard}
    (h : Runs.Path (WireGuard.step N) (Allowed Q P) none (some wg)) : I wg := by
  have hall : ∀ b, some wg = some b → I b := by
    refine h.invariant (I := fun s => ∀ b, s = some b → I b) (fun s l hs hl => ?_) (by simp)
    exact step_keeps hnew hfull hmerge hrestart hs hl
  exact hall wg rfl

end

end Wireguard

end NodeAgent
