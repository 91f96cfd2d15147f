import NodeAgent.Shared.Model.Run
/-!
# Requests that run at the same time

The manager's methods hold its lock while they run, so a request is a few
sections that are atomic, and other requests can have the lock in between.
`ApplyConfig` is one section. `RestartCore` is two: it reads the
configuration, lets go of the lock, and calls `ApplyConfig` with what it
has read. (`coreStart`, `coreRestart` and `setXrayVersion` of the agent
call `RestartCore`.)

A state is the manager, where each request is, and the history of what has
happened.
-/

namespace NodeAgent

/-- A request that changes the core's configuration. -/
inductive CoreRequest
  | applyConfig (configJSON : String)
  | restartCore
  deriving DecidableEq

/-- Where a request is. -/
inductive Phase
  /-- It has been made and waits for the lock. -/
  | waiting (r : CoreRequest)
  /-- A `RestartCore` between its two sections, with what it has read. -/
  | read (configJSON : String)
  /-- It is through its sections. -/
  | finished
  | returned
  deriving DecidableEq

/-- What happened, by the number of the request. -/
inductive Entry
  | called (i : ℕ) (r : CoreRequest)
  /-- The section of an `ApplyConfig`. -/
  | applied (i : ℕ) (configJSON : String)
  /-- The first section of a `RestartCore`. -/
  | hasRead (i : ℕ) (configJSON : String)
  /-- The second section of a `RestartCore`. -/
  | reapplied (i : ℕ) (configJSON : String)
  | returned (i : ℕ)
  deriving DecidableEq

/-- **The node with its requests under way.** -/
structure Requests where
  mgr : Manager
  /-- `none` is a request that has not been made. -/
  phase : ℕ → Option Phase
  log : List Entry

namespace Requests

/-- What the scheduler does next. -/
inductive Turn
  | call (i : ℕ) (r : CoreRequest)
  /-- The request gets the lock, for one section. -/
  | lock (i : ℕ) (env : Env)
  | ret (i : ℕ)

/-- A node no request has been made to. -/
def start (m : Manager) : Requests where
  mgr := m
  phase := fun _ => none
  log := []

/-- A request moves on. -/
def move (s : Requests) (i : ℕ) (p : Phase) (entry : Entry) : Requests :=
  { s with phase := Function.update s.phase i (some p), log := s.log ++ [entry] }

variable (X : Externals)

/-- One turn. What is not a request's turn changes nothing. -/
def step (s : Requests) : Turn → Requests
  | .call i r =>
    match s.phase i with
    | none => s.move i (.waiting r) (.called i r)
    | some _ => s
  | .lock i env =>
    match s.phase i with
    | some (.waiting (.applyConfig c)) =>
      { s.move i .finished (.applied i c) with mgr := (s.mgr.applyConfig X env c).1 }
    | some (.waiting .restartCore) =>
      -- without a configuration it returns an error
      if s.mgr.config = "" then s.move i .finished (.hasRead i "")
      else s.move i (.read s.mgr.config) (.hasRead i s.mgr.config)
    | some (.read c) =>
      { s.move i .finished (.reapplied i c) with mgr := (s.mgr.applyConfig X env c).1 }
    | _ => s
  | .ret i =>
    match s.phase i with
    | some .finished => s.move i .returned (.returned i)
    | _ => s

/-- Every request made has returned. -/
def Quiet (s : Requests) : Prop :=
  ∀ i p, s.phase i = some p → p = .returned

/-- The last `ApplyConfig` to have had the lock, by its number, and what
it pushed. -/
def lastPush (log : List Entry) : Option (ℕ × String) :=
  log.foldl (fun last entry => match entry with
    | .applied i c => some (i, c)
    | _ => last) none

/-- **Two sections in a row are the atomic `RestartCore`.** -/
theorem mgr_of_two_sections {s : Requests} {i : ℕ} (h : s.phase i = some (.waiting .restartCore))
    (env : Env) :
    (((s.step X (.lock i env)).step X (.lock i env)).mgr) = (s.mgr.restartCore X env).1 := by
  by_cases hc : s.mgr.config = ""
  · simp [step, h, hc, move, Manager.restartCore]
  · simp [step, h, hc, move, Manager.restartCore]

end Requests

end NodeAgent
