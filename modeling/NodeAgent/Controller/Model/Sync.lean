import NodeAgent.Common.Varint
import NodeAgent.Controller.Model.Chunks
/-!
# Users sent in chunks, over gRPC and over REST

`SyncUsersChunked` of `controller/rpc/user.go` and of
`controller/rest/user.go`, up to the call they make to the backend. The
one receives messages, the other reads them off a request body, each
behind its length; both end at the first chunk marked as the last one.
Encoding and decoding a message is protobuf's (`Wire`).
-/

namespace NodeAgent

/-- The call to the backend a chunked sync ends with. -/
inductive BackendUpdate
  | updateUsersAndRestart (users : List User)
  | updateUsers (users : List User)

/-- The users it is called with. -/
def BackendUpdate.users : BackendUpdate → List User
  | updateUsersAndRestart users => users
  | updateUsers users => users

/-- A large list is put into the configuration and the core restarted, a
small one is sent to the core. -/
def updateBackend (users : List User) : BackendUpdate :=
  if 100 < users.length then .updateUsersAndRestart users else .updateUsers users

/-- How both handlers end: the chunks are put together and the backend is
called; the loop of `BuildUsersFromChunks` is given `turns` to take. -/
def callBackend {ε : Type} (failed : ChunksErr → ε) (turns : ℕ) (r : ChunksReceived) :
    Option (Except ε BackendUpdate) :=
  match buildUsersFromChunks turns r.chunks r.lastIndex r.sawLast with
  | none => none
  | some (.error err) => some (.error (failed err))
  | some (.ok users) => some (.ok (updateBackend users))

/-! ## gRPC -/

namespace Rpc

/-- Why `SyncUsersChunked` makes no call. -/
inductive SyncErr
  /-- `codes.Internal`, "failed to receive chunk: %v" -/
  | receive
  /-- `codes.InvalidArgument` -/
  | chunks (err : ChunksErr)

/-- `SyncUsersChunked`. -/
def syncUsersChunked (turns : ℕ) (stream : Stream UsersChunk) :
    Option (Except SyncErr BackendUpdate) :=
  let r := receiveChunks stream.received .start
  if !r.sawLast && !stream.eof then some (.error .receive)
  else callBackend .chunks turns r

end Rpc

/-! ## REST -/

/-- A chunk with nothing set. -/
def UsersChunk.default : UsersChunk :=
  ⟨[], 0, false⟩

instance decidableEqUsersChunk : DecidableEq UsersChunk := fun c d =>
  decidable_of_iff (c.users = d.users ∧ c.index = d.index ∧ c.last = d.last) (by
    cases c
    cases d
    simp)

/-- The most bytes a slice can have: `maxAlloc` of a 64-bit platform. -/
def maxAlloc : ℕ :=
  2 ^ 48

/-- **Protobuf**, on chunks: one encoding for a message, none for one with
nothing set, and a message that was encoded is decoded again. -/
structure Wire where
  marshal : UsersChunk → List UInt8
  unmarshal : List UInt8 → Option UsersChunk
  marshal_default : marshal .default = []
  unmarshal_marshal : ∀ c, (marshal c).length ≤ maxAlloc → unmarshal (marshal c) = some c

/-- A message whose encoding is a slice. -/
structure Wire.Message (W : Wire) where
  chunk : UsersChunk
  fits : (W.marshal chunk).length ≤ maxAlloc

namespace Rest

open Varint

/-- Why `SyncUsersChunked` makes no call; the status is 400 but for
`makeslice`. -/
inductive SyncErr
  /-- "failed to read chunk length: %v" -/
  | length (err : ReadErr)
  /-- The length is more than a slice can have: a panic, which the router
  answers with 500. -/
  | makeslice
  /-- "failed to read chunk payload: %v" -/
  | payload (err : ReadErr)
  /-- "failed to decode chunk: %v" -/
  | decode
  | chunks (err : ChunksErr)

variable (W : Wire)

/-- The loop of `SyncUsersChunked` over the body; `none` if it takes more
turns than it is given. -/
def readChunks (stop : ReadErr) :
    ℕ → List UInt8 → ChunksReceived → Option (Except SyncErr ChunksReceived)
  | 0, _, _ => none
  | turns + 1, bytes, r =>
    match readUvarint stop bytes with
    | .error .eof => some (.ok r)
    | .error err => some (.error (.length err))
    | .ok (size, bytes) =>
      if size = 0 then readChunks stop turns bytes r
      else if maxAlloc < size then some (.error .makeslice)
      else
        match readFull stop size bytes with
        | .error err => some (.error (.payload err))
        | .ok (payload, bytes) =>
          match W.unmarshal payload with
          | none => some (.error .decode)
          | some chunk =>
            if chunk.last then some (.ok (r.add chunk))
            else readChunks stop turns bytes (r.add chunk)

/-- `SyncUsersChunked`. A turn of its own loop reads a byte at least, so
that loop is given as many as there are bytes. -/
def syncUsersChunked (turns : ℕ) (body : Stream UInt8) : Option (Except SyncErr BackendUpdate) :=
  let stop := if body.eof then ReadErr.eof else ReadErr.reader
  match readChunks W stop (body.received.length + 1) body.received .start with
  | none => none
  | some (.error err) => some (.error err)
  | some (.ok r) => callBackend .chunks turns r

end Rest

end NodeAgent
