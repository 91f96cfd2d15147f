import NodeAgent.Controller.Model.Lifecycle
import NodeAgent.Controller.Model.Sync
/-!
# Requests that use the backend

`SyncUser`, `SyncUsers` and `SyncUsersChunked` of `controller/rpc/user.go`
and `controller/rest/user.go`, and the middleware in front of them, as
threads beside those that start and stop backends. The middleware looks
for a backend and asks it whether it has started; the handler behind it
asks the controller again, before every call it makes.
-/

namespace NodeAgent.Serving

open Lifecycle (Shared)

inductive Transport
  | rpc
  | rest

/-- The requests behind the check for a backend. A unary gRPC call has its
message when it gets there; of REST the body is read later. -/
inductive Method
  | stop
  | syncUser (t : Transport)
  | rpcSyncUsers (users : List User)
  | restSyncUsers
  | syncUsersChunked

/-- What a turn of a loop that receives chunks gets. -/
inductive Turn
  | chunk (c : UsersChunk)
  /-- A length of zero, which REST skips; gRPC has none. -/
  | empty
  | eof
  | error

/-- What the surroundings decide about a step. -/
structure Input where
  outcome : Lifecycle.Outcome
  /-- What `Started` of the backend found answers. -/
  started : Bool
  /-- The next user of a stream, or the one in a body; none if there is no
  more, or if it cannot be decoded. -/
  user : Option User
  /-- The users in a body. -/
  users : Option (List User)
  turn : Turn
  /-- The turns `BuildUsersFromChunks` takes at once. -/
  turns : ℕ
  /-- The backend returns no error. -/
  accepts : Bool

/-- A call `s.Backend().…`. -/
inductive Call
  | syncUser (t : Transport) (user : User)
  | syncUsers (users : List User)
  | update (u : BackendUpdate)

/-- Where a handler is, by what it does next. -/
inductive Handler
  /-- `SyncUser`: wait for a user. -/
  | syncUser (t : Transport)
  /-- `SyncUsers` of REST: read the body. -/
  | syncUsers
  /-- `SyncUsersChunked`: wait for a chunk. -/
  | receiving (r : ChunksReceived)
  /-- `SyncUsersChunked`: put the chunks together. -/
  | assembling (r : ChunksReceived)
  | call (c : Call)
  /-- A method has been called on a nil backend. -/
  | nilCall
  | returned

/-- What comes after a call that returned no error: over gRPC the next
user, and an answer otherwise. -/
def Call.next : Call → Handler
  | syncUser .rpc _ => .syncUser .rpc
  | syncUser .rest _ => .returned
  | syncUsers _ => .returned
  | update _ => .returned

/-- A step of a handler. -/
def Handler.step (g : Shared) (i : Input) : Handler → Handler
  | .syncUser t =>
    match i.user with
    | none => .returned
    | some user => if user.email = "" then .returned else .call (.syncUser t user)
  | .syncUsers =>
    match i.users with
    | none => .returned
    | some users => .call (.syncUsers users)
  | .receiving r =>
    match i.turn with
    | .chunk c => if c.last then .assembling (r.add c) else .receiving (r.add c)
    | .empty => .receiving r
    | .eof => .assembling r
    | .error => .returned
  | .assembling r =>
    match callBackend id i.turns r with
    | none => .assembling r
    | some (.error _) => .returned
    | some (.ok update) => .call (.update update)
  | .call c =>
    match g.backend with
    | none => .nilCall
    | some _ => if i.accepts then c.next else .returned
  | .nilCall => .nilCall
  | .returned => .returned

inductive Thread
  | lifecycle (l : Lifecycle.Thread)
  /-- The middleware: look for a backend. -/
  | check (m : Method)
  /-- The middleware: ask the backend found whether it has started. -/
  | started (m : Method)
  | handler (h : Handler)

/-- The handler behind the middleware. -/
def Method.enter : Method → Thread
  | stop => .lifecycle (.cancel .stop)
  | syncUser t => .handler (.syncUser t)
  | rpcSyncUsers users => .handler (.call (.syncUsers users))
  | restSyncUsers => .handler .syncUsers
  | syncUsersChunked => .handler (.receiving .start)

/-- A step of a thread. -/
def step (g : Shared) (l : Thread) (i : Input) : Shared × Thread × List Thread :=
  match l with
  | .lifecycle l =>
    let r := Lifecycle.step g l i.outcome
    (r.1, .lifecycle r.2.1, r.2.2.map .lifecycle)
  | .check m =>
    match g.backend with
    | none => (g, .handler .returned, [])
    | some _ => (g, .started m, [])
  | .started m => (g, if i.started then m.enter else .handler .returned, [])
  | .handler h => (g, .handler (h.step g i), [])

inductive Request
  | start (keepAlive : Bool)
  | call (m : Method)

/-- The controller's threads, and those of the requests that use it. -/
def program : Threads Shared Thread Request Input where
  init
    | .start keepAlive => .lifecycle (.check keepAlive)
    | .call m => .check m
  step := fun _ => step

/-- A new controller. -/
def initial : Threads.State Shared Thread where
  shared := Lifecycle.initial.shared
  threads := []

end NodeAgent.Serving
