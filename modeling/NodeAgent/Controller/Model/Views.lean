import NodeAgent.Controller.Model.Agent
import NodeAgent.Tenant.Model.Store
/-!
# What the panel reads of a tenant

`controller/agent/views.go` and the handler of `GET /tenants/{id}/usage`:
absolute counters, of which the panel takes differences.
-/

namespace NodeAgent

/-- `usageViewModel`, under the names of its fields. -/
structure UsageViewModel where
  id : String
  status : String
  periodID : UInt64
  quotaBytes : Int64
  usedBytes : Int64
  overageBytes : Int64
  remainBytes : Int64
  creditLimit : Int64
  expireAt : Int64
  deriving DecidableEq

/-- The view of a tenant; the two differences wrap before they are
clamped. -/
def usageView (t : Tenant) : UsageViewModel where
  id := t.id
  status := t.status.text
  periodID := t.periodID
  quotaBytes := t.quotaBytes
  usedBytes := t.usedBytes
  overageBytes :=
    let overage := t.usedBytes - t.quotaBytes
    if overage < 0 then 0 else overage
  remainBytes :=
    let remaining := t.quotaBytes - t.usedBytes
    if remaining < 0 then 0 else remaining
  creditLimit := t.creditLimitBytes
  expireAt := t.expireAt

/-- `GET /tenants/{id}/usage`: the body of a `200`, or the answer to an
unknown id. -/
def tenantUsage (reg : Registry) (id : String) : Except HttpResponse UsageViewModel :=
  match reg.get id with
  | none => .error ⟨404, .error "tenant not found"⟩
  | some tn => .ok (usageView tn)

end NodeAgent
