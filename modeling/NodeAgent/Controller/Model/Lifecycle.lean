import NodeAgent.Common.Threads
/-!
# Starting and stopping backends

`Start` and `Stop` of `controller/rpc/base.go` and `controller/rest/base.go`
on one `Controller`, and the keep-alive trackers, as threads. What a lock
section of `controller.go` does is one step; between two sections any other
thread may run, in particular while a backend is being shut down.

A backend is a number; the ones below `next` have been started.
-/

namespace NodeAgent.Lifecycle

/-- The controller, as far as it decides which backend runs, and which
backends have been started and shut down. -/
structure Shared where
  /-- `c.backend`. -/
  backend : Option ℕ
  next : ℕ
  /-- The backends whose `Shutdown` has returned. -/
  shut : List ℕ
  /-- The context `c.cancelFunc` cancels. -/
  cancelFunc : ℕ
  /-- The number of contexts made. -/
  contexts : ℕ
  cancelled : List ℕ
  deriving DecidableEq

/-- What calls `Disconnect`. -/
inductive Caller
  | start (keepAlive : Bool)
  | stop
  | tracker (ctx : ℕ)
  deriving DecidableEq

/-- Where a thread is, by what it does next. -/
inductive Thread
  /-- `Start`: look for a backend. -/
  | check (keepAlive : Bool)
  /-- `Disconnect`: cancel the context, without the lock. -/
  | cancel (caller : Caller)
  /-- `Disconnect`: read `c.backend`. -/
  | read (caller : Caller)
  /-- `Disconnect`: wait for `Shutdown` of the backend read. -/
  | shutdown (backend : ℕ) (caller : Caller)
  /-- `Disconnect`: clear `c.backend`. -/
  | clear (backend : Option ℕ) (caller : Caller)
  | startBackend (keepAlive : Bool)
  | connect (keepAlive : Bool)
  /-- `keepAliveTracker`, at its `select`. -/
  | tracker (ctx : ℕ)
  | returned
  deriving DecidableEq

/-- The requests. -/
inductive Request
  | start (keepAlive : Bool)
  | stop

/-- What the surroundings decide about a step. -/
structure Outcome where
  /-- The backend starts. -/
  starts : Bool
  /-- The last request is too long ago. -/
  timeout : Bool

/-- Where `Disconnect` returns to. -/
def Caller.resume : Caller → Thread
  | start keepAlive => .startBackend keepAlive
  | stop => .returned
  | tracker ctx => .tracker ctx

/-- A step of a thread. -/
def step (g : Shared) (l : Thread) (o : Outcome) : Shared × Thread × List Thread :=
  match l with
  | .check keepAlive =>
    if g.backend ≠ none then (g, .cancel (.start keepAlive), [])
    else (g, .startBackend keepAlive, [])
  | .cancel caller => ({ g with cancelled := g.cancelFunc :: g.cancelled }, .read caller, [])
  | .read caller =>
    match g.backend with
    | some backend => (g, .shutdown backend caller, [])
    | none => (g, .clear none caller, [])
  | .shutdown backend caller =>
    ({ g with shut := backend :: g.shut }, .clear (some backend) caller, [])
  | .clear _ caller => ({ g with backend := none }, caller.resume, [])
  | .startBackend keepAlive =>
    if o.starts then
      ({ g with backend := some g.next, next := g.next + 1 }, .connect keepAlive, [])
    else (g, .returned, [])
  | .connect keepAlive =>
    ({ g with cancelFunc := g.contexts, contexts := g.contexts + 1 }, .returned,
      if keepAlive then [.tracker g.contexts] else [])
  | .tracker ctx =>
    -- of a tick and a context that is done, `select` takes either
    if o.timeout then (g, .cancel (.tracker ctx), [])
    else if ctx ∈ g.cancelled then (g, .returned, [])
    else (g, .tracker ctx, [])
  | .returned => (g, .returned, [])

/-- The controller's threads. -/
def program : Threads Shared Thread Request Outcome where
  init
    | .start keepAlive => .check keepAlive
    | .stop => .cancel .stop
  step := fun _ => step

/-- A new controller. -/
def initial : Threads.State Shared Thread where
  shared := ⟨none, 0, [], 0, 1, []⟩
  threads := []

end NodeAgent.Lifecycle
