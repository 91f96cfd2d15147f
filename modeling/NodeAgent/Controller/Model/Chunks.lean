import NodeAgent.Controller.Model.Grpccompat
/-!
# Users sent in chunks

`controller/users_chunk.go`, and the two handlers of a stream of chunks.
`controller/rpc` collects chunks by their index up to the first marked as
the last one, and `BuildUsersFromChunks` puts them together; the loop in it
counts in `uint64`, so it is given as many turns as it is asked to take.
`controller/grpccompat` takes the users of all chunks as they come.
-/

namespace NodeAgent

/-- `common.UsersChunk`. -/
structure UsersChunk where
  users : List User
  index : UInt64
  last : Bool

/-- The errors of `BuildUsersFromChunks`. -/
inductive ChunksErr
  /-- "missing final chunk indicator" -/
  | missingFinal
  /-- "missing chunk index %d" -/
  | missingIndex (i : UInt64)
  /-- "no users received" -/
  | noUsers
  deriving DecidableEq

/-- The loop of `BuildUsersFromChunks`; `none` if it takes more turns than
it is given. -/
def chunkLoop (chunks : GoMap UInt64 (List User)) (lastIndex : UInt64) :
    ℕ → UInt64 → List User → Option (Except ChunksErr (List User))
  | 0, _, _ => none
  | turns + 1, i, users =>
    if i ≤ lastIndex then
      match chunks.lookup i with
      | none => some (.error (.missingIndex i))
      | some chunkUsers => chunkLoop chunks lastIndex turns (i + 1) (users ++ chunkUsers)
    else some (.ok users)

/-- The users of the chunks, in the order of their indices. -/
def buildUsersFromChunks (turns : ℕ) (chunks : GoMap UInt64 (List User)) (lastIndex : UInt64)
    (sawLast : Bool) : Option (Except ChunksErr (List User)) :=
  if !sawLast then some (.error .missingFinal)
  else
    match chunkLoop chunks lastIndex turns 0 [] with
    | none => none
    | some (.error err) => some (.error err)
    | some (.ok users) =>
      if users.length = 0 then some (.error .noUsers) else some (.ok users)

/-- What `rpc.SyncUsersChunked` has collected. -/
structure ChunksReceived where
  chunks : GoMap UInt64 (List User)
  lastIndex : UInt64
  sawLast : Bool

namespace ChunksReceived

/-- Nothing yet. -/
def start : ChunksReceived :=
  ⟨∅, 0, false⟩

/-- The chunks of an index are put one behind the other. -/
def add (r : ChunksReceived) (chunk : UsersChunk) : ChunksReceived :=
  let chunks := r.chunks.insert chunk.index ((r.chunks.lookup chunk.index).getD [] ++ chunk.users)
  if chunk.last then ⟨chunks, chunk.index, true⟩ else { r with chunks := chunks }

end ChunksReceived

/-- Its receiving loop, over the chunks before the stream ends; the first
chunk marked as the last one ends it too. -/
def receiveChunks : List UsersChunk → ChunksReceived → ChunksReceived
  | [], r => r
  | chunk :: rest, r => if chunk.last then r.add chunk else receiveChunks rest (r.add chunk)

/-- **What the protocol makes of the chunks of a stream that was closed.** -/
def chunkProtocol (turns : ℕ) (sent : List UsersChunk) : Option (Except ChunksErr (List User)) :=
  let r := receiveChunks sent ⟨∅, 0, false⟩
  buildUsersFromChunks turns r.chunks r.lastIndex r.sawLast

namespace GrpcServer

variable (X : Externals) (arr : Arrival)

/-- The list `grpccompat.SyncUsersChunked` collects. -/
def chunkedUsers (sent : List UsersChunk) : List User :=
  collect id (sent.map UsersChunk.users) []

/-- `grpccompat.SyncUsersChunked` on a stream that was closed. -/
def receiveChunked (m : Manager) (ci : CallerInfo) (sent : List UsersChunk) :
    Manager × Except GrpcErr NodeService.Reply :=
  syncUsersChunked X arr m ci ⟨sent.map UsersChunk.users, true⟩

theorem receiveChunked_tenant (m : Manager) (tenantID : String) (sent : List UsersChunk) :
    receiveChunked X arr m (.tenant tenantID) sent =
      applied (m.setTenantUsers X arr.env tenantID (chunkedUsers sent)) fun _ => .empty :=
  rfl

end GrpcServer

end NodeAgent
