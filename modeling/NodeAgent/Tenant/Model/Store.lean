import NodeAgent.Common.Stores
import NodeAgent.Tenant.Model.Registry
/-!
# Where tenants are kept

`tenant/store.go` and `tenant/store_bolt.go`: the tenants in a map, or in
a bucket of a database file, each encoded under its id. The database is
taken to be a durable map from keys to bytes; how a record is written as
bytes is a `Codec`. `jsonCodec` is the one of `encoding/json` as far as
the fields and their names go, on JSON values rather than on their text.
-/

namespace NodeAgent

/-- `memStore`: copies of the tenants in a map. -/
def memStore : RecordStore String Tenant (GoMap String Tenant) :=
  RecordStore.inMap Tenant.id

/-- `boltStore`: encoded tenants in the bucket `tenants`. Loading stops at
the first record that cannot be decoded. -/
def boltStore {β : Type} (c : Codec Tenant β) : RecordStore String Tenant (GoMap String β) :=
  RecordStore.encoded Tenant.id c

namespace Registry

/-- One turn of the loop of `NewRegistry`. -/
def loadOne (r : Registry) (t : Tenant) : Registry :=
  let r := r.put t
  if t.status ≠ .deleted then { r with byKey := r.byKey.insert t.apiKeyHash t.id } else r

/-- The registry of a list of tenants, over what their store holds. -/
def ofTenants (store : GoMap String Tenant) (tenants : List Tenant) : Registry :=
  tenants.foldl loadOne ⟨∅, ∅, store, keyed_empty⟩

/-- `NewRegistry` on any store; it fails where loading does. -/
def openStore {σ : Type} (S : RecordStore String Tenant σ) (o : Order String) (d : σ) :
    Option Registry :=
  (S.load o d).map fun tenants =>
    ofTenants (tenants.foldl (fun m t => m.insert t.id t) ∅) tenants

theorem newRegistry_eq (o : Order String) (store : GoMap String Tenant) :
    newRegistry o store = ofTenants store ((GoMap.range o store).map Prod.snd) := by
  unfold newRegistry ofTenants
  rw [List.foldl_map]
  rfl

end Registry

/-! ## The records of the database -/

/-- A JSON value, as far as a tenant's record needs one. -/
inductive Json
  | str (s : String)
  | num (n : ℤ)
  | obj (fields : List (String × Json))

namespace Json

/-- A field of an object. -/
def field (name : String) : Json → Option Json
  | .obj fields => (fields.find? fun p => p.1 == name).map Prod.snd
  | _ => none

/-- A text. -/
def asStr : Json → Option String
  | .str s => some s
  | _ => none

/-- A number in the range of an `int64`. -/
def asInt64 : Json → Option Int64
  | .num n => if (Int64.ofInt n).toInt = n then some (Int64.ofInt n) else none
  | _ => none

/-- A number in the range of a `uint64`. -/
def asUInt64 : Json → Option UInt64
  | .num n => if (UInt64.ofNat n.toNat).toNat = n then some (UInt64.ofNat n.toNat) else none
  | _ => none

end Json

namespace Status

/-- The text of a status. -/
def text : Status → String
  | active => "active"
  | suspended => "suspended"
  | deleted => "deleted"

/-- The status of a text. -/
def ofText (s : String) : Option Status :=
  if s = "active" then some active
  else if s = "suspended" then some suspended
  else if s = "deleted" then some deleted
  else none

@[simp] theorem ofText_text (s : Status) : ofText s.text = some s := by
  cases s <;> decide

end Status

namespace Reason

/-- The text of a reason. -/
def text : Reason → String
  | none => ""
  | quota => "quota"
  | expired => "expired"
  | manual => "manual"

/-- The reason of a text. -/
def ofText (s : String) : Option Reason :=
  if s = "" then some none
  else if s = "quota" then some quota
  else if s = "expired" then some expired
  else if s = "manual" then some manual
  else Option.none

@[simp] theorem ofText_text (r : Reason) : ofText r.text = some r := by
  cases r <;> decide

end Reason

/-- The record of a tenant, under the names of its fields. A record that
lacks one is not read; none such is written. -/
def jsonCodec : Codec Tenant Json where
  marshal := fun t => .obj
    [("id", .str t.id), ("api_key_hash", .str t.apiKeyHash), ("status", .str t.status.text),
      ("reason", .str t.reason.text), ("period_id", .num t.periodID.toNat),
      ("quota_bytes", .num t.quotaBytes.toInt), ("used_bytes", .num t.usedBytes.toInt),
      ("credit_limit_bytes", .num t.creditLimitBytes.toInt), ("expire_at", .num t.expireAt.toInt)]
  unmarshal := fun v => do
    let id ← (v.field "id").bind Json.asStr
    let apiKeyHash ← (v.field "api_key_hash").bind Json.asStr
    let status ← ((v.field "status").bind Json.asStr).bind Status.ofText
    let reason ← ((v.field "reason").bind Json.asStr).bind Reason.ofText
    let periodID ← (v.field "period_id").bind Json.asUInt64
    let quotaBytes ← (v.field "quota_bytes").bind Json.asInt64
    let usedBytes ← (v.field "used_bytes").bind Json.asInt64
    let creditLimitBytes ← (v.field "credit_limit_bytes").bind Json.asInt64
    let expireAt ← (v.field "expire_at").bind Json.asInt64
    return ⟨id, apiKeyHash, status, reason, periodID, quotaBytes, usedBytes, creditLimitBytes,
      expireAt⟩

@[simp] theorem Json.asInt64_toInt (n : Int64) : (Json.num n.toInt).asInt64 = some n := by
  simp [Json.asInt64]

@[simp] theorem Json.asUInt64_toNat (n : UInt64) : (Json.num n.toNat).asUInt64 = some n := by
  simp [Json.asUInt64]

/-- **A tenant's record is read back as it was written.** -/
theorem jsonCodec_roundTrips : jsonCodec.RoundTrips := by
  intro t
  simp [jsonCodec, Json.field, Json.asStr]

end NodeAgent
