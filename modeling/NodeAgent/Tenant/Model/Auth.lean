import NodeAgent.Tenant.Model.Registry
/-!
# Who a key belongs to

`tenant/auth.go`: the decision on a customer key, and the authenticator
that tells the panel's master key from a customer's.
-/

namespace NodeAgent

/-- The privilege level of a request. -/
inductive Scope
  | none
  | master
  | tenant
  deriving DecidableEq, Repr

/-- The result code of an authorization. -/
inductive Code
  | ok
  | unauthenticated
  | permissionDenied
  | resourceExhausted
  deriving DecidableEq, Repr

/-- The outcome of authorizing a tenant's request. -/
structure Decision where
  allowed : Bool
  code : Code
  reason : Reason
  tenant : Option Tenant
  deriving DecidableEq

/-- The switch of `Authorize`: what is decided on a tenant once its key
has been resolved. -/
def Tenant.decision (t : Tenant) (now : Int64) : Decision :=
  if t.status = .deleted then ⟨false, .unauthenticated, .none, some t⟩
  else if t.status = .suspended then ⟨false, .permissionDenied, t.reason, some t⟩
  else if 0 < t.expireAt ∧ t.expireAt < now then ⟨false, .permissionDenied, .expired, some t⟩
  else if t.effectiveLimit ≤ t.usedBytes then ⟨false, .resourceExhausted, .quota, some t⟩
  else ⟨true, .ok, .none, some t⟩

namespace Registry

/-- The tenant the indexes give for a key. -/
def resolve (r : Registry) (apiKey : String) : Option Tenant :=
  (r.byKey.lookup (hashKey apiKey)).bind r.byID.lookup

/-- Resolve a customer key and decide on its tenant. Nothing is
changed. -/
def authorize (r : Registry) (apiKey : String) (now : Int64) : Decision :=
  match r.byKey.lookup (hashKey apiKey) with
  | none => ⟨false, .unauthenticated, .none, none⟩
  | some id =>
    match r.byID.lookup id with
    | none => ⟨false, .unauthenticated, .none, none⟩
    | some t => t.decision now

end Registry

/-- The hash of the master key, empty where there is none. The registry it
asks is the node's own and handed to `authenticate`. -/
structure Authenticator where
  masterHash : String

namespace Authenticator

/-- The authenticator of a master key. -/
def newAuthenticator (masterKey : String) : Authenticator where
  masterHash := if masterKey ≠ "" then hashKey masterKey else ""

/-- Equality of two strings, byte by byte. -/
def constantTimeEqual (a b : String) : Bool :=
  decide (a = b)

/-- The scope of a key and, for a tenant's, the decision on it. -/
def authenticate (a : Authenticator) (reg : Registry) (apiKey : String) (now : Int64) :
    Scope × Decision :=
  if a.masterHash ≠ "" ∧ constantTimeEqual (hashKey apiKey) a.masterHash then
    (.master, ⟨true, .ok, .none, none⟩)
  else (.tenant, reg.authorize apiKey now)

end Authenticator

end NodeAgent
