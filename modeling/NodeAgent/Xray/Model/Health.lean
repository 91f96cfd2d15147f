import NodeAgent.Common.Threads
/-!
# The health check and `Shutdown`

The goroutine `New` starts, `checkXrayHealth` of `backend/xray/jobs.go`,
and any number of calls of `Shutdown`, as threads. Both take `x.mu`, but
the health check only for its restart: it reads the context, the handler
and the core without it, so its other steps fall between those of a
`Shutdown`.
-/

namespace NodeAgent.Health

/-! ## Errors -/

/-- The code of a failed call. -/
inductive Code
  | canceled
  | unknown
  | deadlineExceeded
  | unavailable
  | other (name : String)
  deriving DecidableEq

def Code.string : Code → String
  | canceled => "Canceled"
  | unknown => "Unknown"
  | deadlineExceeded => "DeadlineExceeded"
  | unavailable => "Unavailable"
  | other name => name

/-- The errors a query can end with: those of a context, and those of
gRPC. -/
inductive GoError
  /-- `context.Canceled`. -/
  | canceled
  /-- `context.DeadlineExceeded`. -/
  | deadlineExceeded
  /-- A status. -/
  | status (code : Code) (message : String)
  deriving DecidableEq

/-- `err.Error()`. -/
def GoError.error : GoError → String
  | canceled => "context canceled"
  | deadlineExceeded => "context deadline exceeded"
  | status code message => "rpc error: code = " ++ code.string ++ " desc = " ++ message

/-- `errors.Is`: none of these errors wraps another. -/
def errorsIs (err target : GoError) : Bool :=
  err = target

/-- The code `status.FromError` finds. -/
def statusCode : GoError → Code
  | .status code _ => code
  | _ => .unknown

/-- `XrayHandler.GetSysStats`, by how its query ends: the error becomes the
text of a new status. -/
def getSysStats (answer : Option GoError) : Option GoError :=
  answer.map fun err => .status (statusCode err) ("failed to get sys stats: " ++ err.error)

/-! ## The threads -/

/-- What the threads share. -/
structure Shared where
  /-- The context of the backend is done. -/
  cancelled : Bool
  /-- The handler is closed: its clients are nil. -/
  closed : Bool
  /-- `core.Started()`. -/
  started : Bool
  /-- Who has `x.mu`. -/
  mu : Option ℕ
  /-- A `Shutdown` has returned. -/
  returned : Bool
  /-- The core has been started since. -/
  revived : Bool
  /-- The node is down after a panic. -/
  crashed : Bool
  deriving DecidableEq

/-- Where `checkXrayHealth` is, by what it does next. -/
inductive LoopPc
  /-- `select` on the context. -/
  | select
  /-- `core.Restarting()`. -/
  | restarting
  /-- Call `GetSysStats`. -/
  | query
  /-- Wait for the answer. -/
  | inFlight
  /-- Look whether the core runs. -/
  | decide
  /-- Take `x.mu` in `Restart`. -/
  | lock
  /-- `core.Stop`. -/
  | stop
  /-- `core.Start`. -/
  | start
  | sleep
  | returned
  | panicked
  deriving DecidableEq

/-- Where a `Shutdown` is. -/
inductive ShutdownPc
  | lock
  | cancel
  | stop
  | close
  | unlock
  | returned
  deriving DecidableEq

inductive Thread
  | health (pc : LoopPc) (consecutiveFailures : ℕ)
  | shutdown (pc : ShutdownPc)
  deriving DecidableEq

/-- What the surroundings decide about a step. -/
structure Outcome where
  /-- Some other caller is restarting the core. -/
  busy : Bool
  /-- The error a query ends with, if any. -/
  answer : Option GoError
  /-- The core's process has died by itself. -/
  died : Bool
  /-- The core can be started. -/
  starts : Bool

def maxFailures : ℕ := 10

/-- A step of `checkXrayHealth`. -/
def healthStep (k : ℕ) (g : Shared) (pc : LoopPc) (consecutiveFailures : ℕ) (o : Outcome) :
    Shared × LoopPc × ℕ :=
  match pc with
  | .select =>
    if g.cancelled then (g, .returned, consecutiveFailures)
    else (g, .restarting, consecutiveFailures)
  | .restarting => if o.busy then (g, .sleep, 0) else (g, .query, consecutiveFailures)
  | .query =>
    -- a nil client is read through
    if g.closed then ({ g with crashed := true }, .panicked, consecutiveFailures)
    else (g, .inFlight, consecutiveFailures)
  | .inFlight =>
    match getSysStats o.answer with
    | none => (g, .sleep, 0)
    | some err =>
      if errorsIs err .canceled then (g, .returned, consecutiveFailures)
      else (g, .decide, consecutiveFailures + 1)
  | .decide =>
    let g := if o.died then { g with started := false } else g
    if !g.started then (g, .lock, consecutiveFailures)
    else if maxFailures ≤ consecutiveFailures then (g, .lock, consecutiveFailures)
    else (g, .sleep, consecutiveFailures)
  | .lock =>
    if g.mu = none then ({ g with mu := some k }, .stop, consecutiveFailures)
    else (g, .lock, consecutiveFailures)
  | .stop => ({ g with started := false }, .start, consecutiveFailures)
  | .start =>
    if o.starts then
      ({ g with mu := none, started := true, revived := g.revived || g.returned }, .sleep, 0)
    else ({ g with mu := none }, .sleep, consecutiveFailures)
  | .sleep => (g, .select, consecutiveFailures)
  | .returned => (g, .returned, consecutiveFailures)
  | .panicked => (g, .panicked, consecutiveFailures)

/-- A step of `Shutdown`. -/
def shutdownStep (k : ℕ) (g : Shared) : ShutdownPc → Shared × ShutdownPc
  | .lock => if g.mu = none then ({ g with mu := some k }, .cancel) else (g, .lock)
  | .cancel => ({ g with cancelled := true }, .stop)
  | .stop => ({ g with started := false }, .close)
  | .close => ({ g with closed := true }, .unlock)
  | .unlock => ({ g with mu := none, returned := true }, .returned)
  | .returned => (g, .returned)

/-- The backend's threads; a request is a call of `Shutdown`. A panic takes
the whole node down. -/
def program : Threads Shared Thread Unit Outcome where
  init := fun _ => .shutdown .lock
  step := fun k g l o =>
    if g.crashed then (g, l, [])
    else
      match l with
      | .health pc consecutiveFailures =>
        let r := healthStep k g pc consecutiveFailures o
        (r.1, .health r.2.1 r.2.2, [])
      | .shutdown pc =>
        let r := shutdownStep k g pc
        (r.1, .shutdown r.2, [])

/-- A backend `New` has just returned. -/
def initial : Threads.State Shared Thread where
  shared := ⟨false, false, true, none, false, false, false⟩
  threads := [.health .select 0]

end NodeAgent.Health
