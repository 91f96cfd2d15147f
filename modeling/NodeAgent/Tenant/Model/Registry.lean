import NodeAgent.Common.Maps
import NodeAgent.Common.Sha256
/-!
# The tenant registry

`tenant/registry.go` and the parts of `tenant/store.go` and
`tenant/auth.go` it rests on: the tenants of a node with their quota,
usage, expiry and status, an index from the hash of a customer key to the
tenant, and the store behind them. Machine integers are the source's own:
`Int64` byte counts and times, a `UInt64` period.

A write to the store can fail, and the registry changes its tenants in
place *before* it writes, so an operation gives back the registry it
leaves also where it gives back an error. Whether the write of a tenant
goes through is an argument, `saved`.
-/

namespace NodeAgent

/-- The lifecycle state of a tenant. -/
inductive Status
  | active
  | suspended
  | deleted
  deriving DecidableEq, Repr

/-- Why a tenant is suspended. -/
inductive Reason
  | none
  | quota
  | expired
  | manual
  deriving DecidableEq, Repr

/-- A single customer's presence on the node. -/
structure Tenant where
  id : String
  apiKeyHash : String
  status : Status
  reason : Reason
  periodID : UInt64
  quotaBytes : Int64
  usedBytes : Int64
  /-- Bytes allowed past the quota before the tenant is suspended. -/
  creditLimitBytes : Int64
  /-- Unix seconds; `0` is never. -/
  expireAt : Int64
  deriving DecidableEq

/-- The quota plus the allowed overage. -/
def Tenant.effectiveLimit (t : Tenant) : Int64 :=
  t.quotaBytes + t.creditLimitBytes

/-- `ErrNotFound`, `ErrAlreadyExists`, `ErrKeyConflict`, and a store write
that failed. -/
inductive RegistryErr
  | notFound
  | alreadyExists
  | keyConflict
  | store
  deriving DecidableEq, Repr

/-- **The registry**: tenants by id, ids by key hash, and the tenants the
store holds. A tenant sits under its own id. -/
structure Registry where
  byID : GoMap String Tenant
  byKey : GoMap String String
  store : GoMap String Tenant
  keyed : ∀ id t, byID.lookup id = some t → t.id = id

/-- The lowercase hexadecimal digit of a value below sixteen. -/
def hexDigit (n : ℕ) : Char :=
  "0123456789abcdef".toList.getD n '0'

/-- The lowercase hexadecimal SHA-256 of a key. -/
def hashKey (key : String) : String :=
  String.ofList ((Sha256.sum256 key.toUTF8.toList).flatMap fun b =>
    [hexDigit (b.toNat / 16), hexDigit (b.toNat % 16)])

namespace Registry

/-- Put a tenant under its id, in memory. -/
def put (r : Registry) (t : Tenant) : Registry where
  byID := r.byID.insert t.id t
  byKey := r.byKey
  store := r.store
  keyed := by
    intro id t' h
    rw [GoMap.lookup_insert_eq] at h
    by_cases hid : id = t.id
    · rw [if_pos hid] at h
      rw [← Option.some.inj h, hid]
    · rw [if_neg hid] at h
      exact r.keyed id t' h

/-- `store.SaveTenant`, and what the operation returns after it. -/
def saveTenant (r : Registry) (saved : Bool) (t : Tenant) : Registry × Except RegistryErr Tenant :=
  if saved then ({ r with store := r.store.insert t.id t }, .ok t) else (r, .error .store)

/-- What the operations on one tenant share: look it up, change it in
place, write it. -/
def modify (r : Registry) (saved : Bool) (id : String) (f : Tenant → Tenant) :
    Registry × Except RegistryErr Tenant :=
  match r.byID.lookup id with
  | none => (r, .error .notFound)
  | some t => (r.put (f t)).saveTenant saved (f t)

theorem keyed_empty : ∀ (id : String) (t : Tenant),
    (∅ : GoMap String Tenant).lookup id = some t → t.id = id := by
  intro id t h
  cases h

/-- The registry of a store: every tenant it holds, the keys of those not
deleted. -/
def newRegistry (o : Order String) (store : GoMap String Tenant) : Registry :=
  (GoMap.range o store).foldl
    (fun r p =>
      let r := r.put p.2
      if p.2.status ≠ .deleted then { r with byKey := r.byKey.insert p.2.apiKeyHash p.2.id } else r)
    ⟨∅, ∅, store, keyed_empty⟩

/-- What a new tenant is made from. -/
structure CreateParams where
  id : String
  apiKey : String
  quotaBytes : Int64
  creditLimitBytes : Int64
  expireAt : Int64
  periodID : UInt64

/-- The tenant `createTenant` registers. -/
def CreateParams.tenant (p : CreateParams) : Tenant where
  id := p.id
  apiKeyHash := hashKey p.apiKey
  status := .active
  reason := .none
  periodID := if p.periodID = 0 then 1 else p.periodID
  quotaBytes := p.quotaBytes
  usedBytes := 0
  creditLimitBytes := p.creditLimitBytes
  expireAt := p.expireAt

/-- Register a new tenant. -/
def createTenant (r : Registry) (saved : Bool) (p : CreateParams) :
    Registry × Except RegistryErr Tenant :=
  if (r.byID.lookup p.id).isSome then (r, .error .alreadyExists)
  else if (r.byKey.lookup (hashKey p.apiKey)).isSome then (r, .error .keyConflict)
  else
    -- the store is written before the indexes here, unlike everywhere else
    match r.saveTenant saved p.tenant with
    | (r, .error e) => (r, .error e)
    | (r, .ok t) =>
      let r := r.put t
      ({ r with byKey := r.byKey.insert t.apiKeyHash t.id }, .ok t)

/-- The tenant under an id. -/
def get (r : Registry) (id : String) : Option Tenant :=
  r.byID.lookup id

/-- Add a byte delta to the tenant's usage; a negative one counts as
`0`. -/
def addUsage (r : Registry) (saved : Bool) (id : String) (delta : Int64) :
    Registry × Except RegistryErr Tenant :=
  let delta := if delta < 0 then 0 else delta
  r.modify saved id fun t => { t with usedBytes := t.usedBytes + delta }

/-- Update quota, credit limit and expiry. -/
def setQuota (r : Registry) (saved : Bool) (id : String)
    (quotaBytes creditLimitBytes expireAt : Int64) : Registry × Except RegistryErr Tenant :=
  r.modify saved id fun t =>
    { t with quotaBytes := quotaBytes, creditLimitBytes := creditLimitBytes, expireAt := expireAt }

/-- Mark a tenant suspended. -/
def suspend (r : Registry) (saved : Bool) (id : String) (reason : Reason) :
    Registry × Except RegistryErr Tenant :=
  r.modify saved id fun t => { t with status := .suspended, reason := reason }

/-- Reactivate a tenant. -/
def resume (r : Registry) (saved : Bool) (id : String) : Registry × Except RegistryErr Tenant :=
  r.modify saved id fun t => { t with status := .active, reason := .none }

/-- Start a new billing period. -/
def resetPeriod (r : Registry) (saved : Bool) (id : String) :
    Registry × Except RegistryErr Tenant :=
  r.modify saved id fun t =>
    { t with usedBytes := 0, periodID := t.periodID + 1, status := .active, reason := .none }

/-- Drop a tenant from the indexes. -/
def drop (r : Registry) (t : Tenant) (id : String) : Registry where
  byID := r.byID.erase id
  byKey := r.byKey.erase t.apiKeyHash
  store := r.store.erase id
  keyed := by
    intro id' t' h
    rw [GoMap.lookup_erase_eq] at h
    by_cases hid : id' = id
    · rw [if_pos hid] at h; cases h
    · rw [if_neg hid] at h
      exact r.keyed id' t' h

/-- Remove a tenant and its key; the store is written first. -/
def delete (r : Registry) (deleted : Bool) (id : String) : Registry × Option RegistryErr :=
  match r.byID.lookup id with
  | none => (r, some .notFound)
  | some t => if deleted then (r.drop t id, none) else (r, some .store)

end Registry

/-- A tenant whose status changed during enforcement. -/
structure Change where
  tenant : Tenant
  reason : Reason

/-- The reason `enforce` finds against an active tenant, `none` if there
is none. -/
def Tenant.dueReason (t : Tenant) (now : Int64) : Reason :=
  if 0 < t.expireAt ∧ t.expireAt < now then .expired
  else if t.effectiveLimit ≤ t.usedBytes then .quota
  else .none

namespace Registry

/-- One turn of the loop of `enforce`. The result of the write is
ignored. -/
def enforceOne (saved : String → Bool) (now : Int64) (acc : Registry × List Change)
    (p : String × Tenant) : Registry × List Change :=
  let t := p.2
  if t.status ≠ .active then acc
  else
    let reason := t.dueReason now
    if reason = .none then acc
    else
      let t := { t with status := .suspended, reason := reason }
      (((acc.1.put t).saveTenant (saved t.id) t).1, acc.2 ++ [⟨t, reason⟩])

/-- Suspend every active tenant that is expired or over its limit. -/
def enforce (r : Registry) (o : Order String) (saved : String → Bool) (now : Int64) :
    Registry × List Change :=
  (GoMap.range o r.byID).foldl (enforceOne saved now) (r, [])

end Registry

end NodeAgent
