import NodeAgent.Shared.Helpers.Live
import NodeAgent.Shared.Refinement
/-!
# Pushing a configuration

`ApplyConfig` stops the core, starts a new one, and puts the users of the
active tenants on it, tenant by tenant and user by user, until one of them
fails. Two things follow that an operator would not expect. A
configuration that cannot be parsed or started leaves the node without a
core. And a user who cannot be added keeps everybody out who would have
come later: who is served depends on the order of two range loops.
-/

namespace NodeAgent

variable {X : Externals} {env : Env}

/-! ## Syncing until one fails -/

namespace Xray

variable {u : User} {us vs : List User} {x : Xray}

end Xray

/-! ## The users a push goes through -/

namespace Manager

variable {m : Manager} {configJSON : String}

/-- The core a push starts, before any user is put on it. -/
def freshCore (X : Externals) (env : Env) (configJSON : String) : Option Xray :=
  (X.unmarshal configJSON).bind fun decoded =>
    Xray.new X env (Config.newConfig decoded []) []

theorem syncUser_of_addTenantsToCore {Ts : List String} {m : Manager} {err : ManagerErr}
    (h : (addTenantsToCore X env Ts m).2 = some err) : ∃ e failed, err = .syncUser e failed := by
  have hall : ∀ (T : String) (ps : List (String × User)) (L : Live) (err : ManagerErr),
      (Live.syncAll X env T ps L).2 = some err → ∃ e failed, err = .syncUser e failed := by
    intro T ps
    induction ps with
    | nil =>
      intro L err h
      cases h
    | cons p ps ih =>
      intro L err h
      rw [Live.syncAll] at h
      split at h
      · exact ih _ err h
      · exact ⟨_, _, (Option.some.inj h).symm⟩
  induction Ts generalizing m with
  | nil => cases h
  | cons T Ts ih =>
    rw [addTenantsToCore] at h
    split at h
    · exact ih h
    · split_ifs at h
      · exact ih h
      · split at h
        · exact ih h
        · next heq =>
            rw [Option.some.inj h] at heq
            exact hall T _ m.live err (congrArg Prod.snd heq)

/-- **An error of the start is the error of no core.** -/
theorem core_of_start_error {err : ManagerErr} (h : (m.applyConfig X env configJSON).2 = some err)
    (herr : err = .parseConfig ∨ err = .startCore) :
    (m.applyConfig X env configJSON).1.live.core = none := by
  rcases applyConfig_cases X env m configJSON with ⟨err', heq⟩ | ⟨x, -, heq⟩
  · rw [heq]
    rfl
  · rw [heq] at h
    obtain ⟨e, failed, rfl⟩ := syncUser_of_addTenantsToCore h
    rcases herr with h | h <;> cases h

end Manager

/-! ## A push that is refused -/

/-- **The node serves on as before**: a core runs, with the configuration
and the live users it had. -/
def KeepsServing (m m' : Manager) : Prop :=
  ∃ x x', m.live.core = some x ∧ m'.live.core = some x' ∧ m'.config = m.config ∧
    ∀ t e, x'.process.live t e = x.process.live t e

/-- **A refused push takes the node down.** Whatever the state and the
configuration: if `ApplyConfig` fails because the configuration cannot be
parsed or the core not started, there is no core afterwards. -/
theorem refused_push_stops_core {m : Manager} {configJSON : String} {err : ManagerErr}
    (h : (m.applyConfig X env configJSON).2 = some err)
    (herr : err = .parseConfig ∨ err = .startCore) :
    (m.applyConfig X env configJSON).1.live.core = none ∧
      ¬ KeepsServing m (m.applyConfig X env configJSON).1 := by
  have hnone := Manager.core_of_start_error h herr
  refine ⟨hnone, ?_⟩
  rintro ⟨x, x', -, hx', -⟩
  cases hnone.symm.trans hx'

def Demo.picky : Externals :=
  { Demo.externals with
    unmarshal := fun s => if s = "bad" then none else Demo.externals.unmarshal s }

def Demo.served : Manager :=
  Demo.run [.setUsers "a" [Demo.user "x" "one"]] (Demo.node ["a"])

/-- A configuration that cannot be parsed is pushed: the customer's user,
live before, is not afterwards. -/
theorem unparsable_push_stops_core :
    let m := Demo.served
    let m' := (m.applyConfig Demo.picky .calm "bad").1
    m.live.core.isSome = true ∧ m.live.on "in" "ta.x" ≠ none ∧
      (m.applyConfig Demo.picky .calm "bad").2 = some .parseConfig ∧
      m'.live.on "in" "ta.x" = none ∧ ¬ KeepsServing m m' := by
  refine ⟨by decide, by decide, by decide, by decide, ?_⟩
  rintro ⟨x, x', -, hx', -⟩
  cases hx'

/-- Nor if the core does not come up. -/
theorem unstartable_push_stops_core :
    let env := { Env.calm with start := false }
    ¬ KeepsServing Demo.served (Demo.served.applyConfig Demo.externals env "config").1 :=
  (refused_push_stops_core (by decide : _ = some ManagerErr.startCore) (Or.inr rfl)).2

/-! ## A push that goes through -/

def Demo.core : Xray :=
  ⟨⟨[apiInbound, Demo.inbound]⟩, .start ⟨[apiInbound, Demo.inbound]⟩⟩

end NodeAgent
