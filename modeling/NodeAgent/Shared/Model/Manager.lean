import NodeAgent.Tenant.Model.Registry
import NodeAgent.Xray.Model.Core
/-!
# The shared-core manager

`shared/manager.go`: one Xray core serves all tenants, who are told apart
by the emails of their users. The manager keeps four indexes beside the
registry and the core — the users of each tenant, the tenant of each
email, the owner of each credential, and the traffic last seen for each
email — and changes them user by user.

Nothing is rolled back: an operation that returns an error leaves the
state as far as it got, so every operation here gives back a state and a
possible error.
-/

namespace NodeAgent

open GoStrings

/-- The errors of the manager, with the data their texts show. -/
inductive ManagerErr
  | registry (err : RegistryErr)
  /-- "duplicate credential shared by users %q and %q" -/
  | duplicateCredential (email other : String)
  /-- "credential already in use by another tenant" -/
  | credentialInUse
  /-- "sync user %q: %w", with the inbounds at which it failed. -/
  | syncUser (email : String) (failed : List String)
  /-- "parse config: %w" -/
  | parseConfig
  /-- "start core: %w" -/
  | startCore
  /-- "no config to (re)start; push a config first" -/
  | noConfig
  /-- "add usage %q: %w" -/
  | addUsage (id : String) (err : RegistryErr)
  deriving DecidableEq

/-- **The live side**: the core, and as a ghost the tenant on whose behalf
each email was last synced to it. -/
structure Live where
  core : Option Xray
  placedFor : String → Option String

/-- **The manager**, with the registry it works on. -/
structure Manager where
  reg : Registry
  live : Live
  /-- Tenant to namespaced email to user. -/
  users : GoMap String (GoMap String User)
  /-- Namespaced email to tenant. -/
  emailTo : GoMap String String
  /-- Credential to namespaced email of its owner. -/
  creds : GoMap String String
  /-- If set, every user is applied to these inbounds. -/
  forceInbounds : List String
  /-- Namespaced email to the last absolute traffic read. -/
  lastSeen : GoMap String Int64
  /-- The raw JSON of the core's configuration. -/
  config : String

/-- What the emails of a tenant start with. -/
def tenantPrefix (tenantID : String) : String :=
  "t" ++ tenantID ++ "."

/-- The email a tenant's user has on the node. -/
def namespacedEmail (tenantID email : String) : String :=
  tenantPrefix tenantID ++ email

/-- A user with other inbounds. -/
def withInbounds (u : User) (inbounds : List String) : User :=
  { u with inbounds := inbounds }

/-- A credential as the index has it, if there is one. -/
def credential (kind value : String) : List String :=
  if value = "" then [] else [kind ++ value]

/-- The protocol credentials a user carries. -/
def userCredentials (u : User) : List String :=
  (u.getVless.toList.flatMap fun v => credential "vless:" v.id) ++
  (u.getVmess.toList.flatMap fun v => credential "vmess:" v.id) ++
  (u.getTrojan.toList.flatMap fun t => credential "trojan:" t.password) ++
  (u.getShadowsocks.toList.flatMap fun s => credential "ss:" s.password) ++
  (u.getHysteria.toList.flatMap fun h => credential "hy:" h.auth)

namespace Live

variable (X : Externals) (env : Env)

/-- `removeFromCore`: a user synced with no inbounds is off all of
them. -/
def removeFromCore (L : Live) (u : User) : Live :=
  match L.core with
  | none => L
  | some x => { L with core := some (x.updateUsers X env [withInbounds u []]).1 }

/-- `core.SyncUser` on behalf of a tenant, where there is a core. -/
def syncUser (L : Live) (tenantID : String) (u : User) : Live × List String :=
  match L.core with
  | none => (L, [])
  | some x =>
    let (x, failed) := x.syncUser X env u
    (⟨some x, fun e => if e = u.email then some tenantID else L.placedFor e⟩, failed)

/-- Sync users on behalf of a tenant until one fails. -/
def syncAll (tenantID : String) : List (String × User) → Live → Live × Option ManagerErr
  | [], L => (L, none)
  | (email, u) :: rest, L =>
    match L.syncUser X env tenantID u with
    | (L, []) => syncAll tenantID rest L
    | (L, failed) => (L, some (.syncUser email failed))

/-- Remove users. -/
def removeAll (users : List (String × User)) (L : Live) : Live :=
  users.foldl (fun L p => L.removeFromCore X env p.2) L

end Live

namespace Manager

/-- The manager of a registry: no core, empty indexes. -/
def new (reg : Registry) (forceInbounds : List String) : Manager where
  reg := reg
  live := ⟨none, fun _ => none⟩
  users := ∅
  emailTo := ∅
  creds := ∅
  forceInbounds := forceInbounds
  lastSeen := ∅
  config := ""

/-- `m.users[tenantID]`; a nil map is an empty one. -/
def usersOf (m : Manager) (tenantID : String) : GoMap String User :=
  (m.users.lookup tenantID).getD ∅

/-- The user as it is applied to the core. -/
def buildUser (m : Manager) (tenantID : String) (u : User) : User where
  email := namespacedEmail tenantID u.email
  proxies := u.proxies
  inbounds := if 0 < m.forceInbounds.length then m.forceInbounds else u.inbounds

variable (X : Externals) (env : Env)

/-! ## The core -/

/-- Shut the core down. -/
def stop (m : Manager) : Manager :=
  { m with live := { m.live with core := none } }

/-- Start a core from a configuration; the users are not applied yet. -/
def startCoreLocked (m : Manager) (configJSON : String) : Manager × Option ManagerErr :=
  match X.unmarshal configJSON with
  | none => (m, some .parseConfig)
  | some decoded =>
    match Xray.new X env (Config.newConfig decoded []) [] with
    | none => (m, some .startCore)
    | some core =>
      ({ m with live := { m.live with core := some core }, config := configJSON }, none)

/-- Remove a tenant's users from the core. -/
def removeTenantFromCore (m : Manager) (tenantID : String) : Manager :=
  { m with
    live := m.live.removeAll X env
      (GoMap.range (env.order (.tenantUsers tenantID)) (m.usersOf tenantID)) }

/-- Apply a tenant's users to the core, until one fails. -/
def addTenantToCore (m : Manager) (tenantID : String) : Manager × Option ManagerErr :=
  let (L, err) := m.live.syncAll X env tenantID
    (GoMap.range (env.order (.tenantUsers tenantID)) (m.usersOf tenantID))
  ({ m with live := L }, err)

/-- The loop of `ApplyConfig`: the users of the active tenants. -/
def addTenantsToCore : List String → Manager → Manager × Option ManagerErr
  | [], m => (m, none)
  | tenantID :: rest, m =>
    match m.reg.get tenantID with
    -- a set of users without a tenant is passed over
    | none => addTenantsToCore rest m
    | some tn =>
      if tn.status ≠ .active then addTenantsToCore rest m
      else
        match m.addTenantToCore X env tenantID with
        | (m, none) => addTenantsToCore rest m
        | (m, some err) => (m, some err)

/-- Start the core anew with a configuration and apply the users of the
active tenants. -/
def applyConfig (m : Manager) (configJSON : String) : Manager × Option ManagerErr :=
  match m.stop.startCoreLocked X env configJSON with
  -- the old core is not brought back
  | (m, some err) => (m, some err)
  | (m, none) => addTenantsToCore X env ((env.order .tenants).run m.users.keys) m

/-- Apply the current configuration again. -/
def restartCore (m : Manager) : Manager × Option ManagerErr :=
  if m.config = "" then (m, some .noConfig) else m.applyConfig X env m.config

/-! ## A tenant's users -/

/-- The new set of `SetTenantUsers`; of two users with one email, the
last. -/
def newSet (m : Manager) (tenantID : String) (users : List User) : GoMap String User :=
  users.foldl
    (fun s u => s.insert (namespacedEmail tenantID u.email) (m.buildUser tenantID u)) ∅

/-- The check of one credential of a batch, against the batch so far and
the index. -/
def checkCredential (creds : GoMap String String) (ownPrefix email : String)
    (batch : GoMap String String) (cred : String) : Except ManagerErr (GoMap String String) :=
  let taken := (creds.lookup cred).any fun owner => !hasPrefix owner ownPrefix
  match batch.lookup cred with
  | some other =>
    if other ≠ email then .error (.duplicateCredential email other)
    else if taken then .error .credentialInUse
    else .ok (batch.insert cred email)
  | none => if taken then .error .credentialInUse else .ok (batch.insert cred email)

/-- The check of the credentials of a batch. -/
def checkBatch (creds : GoMap String String) (ownPrefix : String)
    (batch : List (String × User)) : Except ManagerErr (GoMap String String) :=
  batch.foldlM
    (fun seen p => (userCredentials p.2).foldlM (checkCredential creds ownPrefix p.1) seen) ∅

/-- Drop a user that is no longer in its tenant's set. -/
def dropUser (m : Manager) (email : String) (u : User) : Manager :=
  { m with
    live := m.live.removeFromCore X env u
    emailTo := m.emailTo.erase email
    lastSeen := m.lastSeen.erase email
    creds := GoMap.eraseKeys m.creds (userCredentials u) }

/-- Drop the users that are not in the new set. -/
def dropStale (kept : GoMap String User) (old : List (String × User)) (m : Manager) : Manager :=
  old.foldl (fun m p => if (kept.lookup p.1).isSome then m else m.dropUser X env p.1 p.2) m

/-- Sync a user on behalf of a tenant, if the tenant is active. -/
def syncIf (active : Bool) (m : Manager) (tenantID : String) (u : User) : Manager × List String :=
  if active then
    let (L, failed) := m.live.syncUser X env tenantID u
    ({ m with live := L }, failed)
  else (m, [])

/-- Index an email and the credentials of its user. -/
def index (m : Manager) (tenantID email : String) (u : User) : Manager :=
  { m with
    emailTo := m.emailTo.insert email tenantID
    creds := GoMap.insertKeys m.creds (userCredentials u) email }

/-- Index and apply the users of a new set, until one fails. -/
def addFresh (active : Bool) (tenantID : String) :
    List (String × User) → Manager → Manager × Option ManagerErr
  | [], m => (m, none)
  | (email, u) :: rest, m =>
    match (m.index tenantID email u).syncIf X env active tenantID u with
    | (m, []) => addFresh active tenantID rest m
    | (m, failed) => (m, some (.syncUser email failed))

/-- Replace the user set of a tenant. The set itself is recorded last. -/
def setTenantUsers (m : Manager) (tenantID : String) (users : List User) :
    Manager × Option ManagerErr :=
  match m.reg.get tenantID with
  | none => (m, some (.registry .notFound))
  | some tn =>
    let active : Bool := tn.status = .active
    let set := m.newSet tenantID users
    match checkBatch m.creds (tenantPrefix tenantID) (GoMap.range (env.order .batch) set) with
    | .error err => (m, some err)
    | .ok _ =>
      let m := m.dropStale X env set (GoMap.range (env.order .stale) (m.usersOf tenantID))
      match m.addFresh X env active tenantID (GoMap.range (env.order .fresh) set) with
      -- what has been dropped, indexed and synced stays so, under the old set
      | (m, some err) => (m, some err)
      | (m, none) => ({ m with users := m.users.insert tenantID set }, none)

/-- Whether a credential of a user is another tenant's. -/
def takenByOther (m : Manager) (tenantID : String) (u : User) : Bool :=
  (userCredentials u).any fun cred =>
    (m.creds.lookup cred).any fun owner =>
      owner ≠ u.email && !hasPrefix owner (tenantPrefix tenantID)

/-- Record a user in its tenant's set. -/
def record (m : Manager) (tenantID : String) (u : User) : Manager :=
  { m with users := m.users.insert tenantID ((m.usersOf tenantID).insert u.email u) }

/-- The loop of `AddTenantUsers`. -/
def mergeUsers (active : Bool) (tenantID : String) :
    List User → Manager → Manager × Option ManagerErr
  | [], m => (m, none)
  | u :: rest, m =>
    let nu := m.buildUser tenantID u
    if m.takenByOther tenantID nu then (m, some .credentialInUse)
    else
      match ((m.record tenantID nu).index tenantID nu.email nu).syncIf X env active tenantID nu with
      | (m, []) => mergeUsers active tenantID rest m
      | (m, failed) => (m, some (.syncUser nu.email failed))

/-- Merge users into the set of a tenant. -/
def addTenantUsers (m : Manager) (tenantID : String) (users : List User) :
    Manager × Option ManagerErr :=
  match m.reg.get tenantID with
  | none => (m, some (.registry .notFound))
  | some tn =>
    let m := { m with users := m.users.insert tenantID (m.usersOf tenantID) }
    m.mergeUsers X env (tn.status = .active) tenantID users

/-! ## A tenant's status -/

/-- Suspend a tenant and take its users off the core. -/
def suspendTenant (m : Manager) (tenantID : String) (reason : Reason) :
    Manager × Option ManagerErr :=
  match m.reg.suspend (env.save tenantID) tenantID reason with
  -- a failed write leaves the tenant suspended in memory and its users live
  | (reg, .error err) => ({ m with reg := reg }, some (.registry err))
  | (reg, .ok _) => ({ m with reg := reg }.removeTenantFromCore X env tenantID, none)

/-- Reactivate a tenant and put its users back. -/
def resumeTenant (m : Manager) (tenantID : String) : Manager × Option ManagerErr :=
  match m.reg.resume (env.save tenantID) tenantID with
  -- a failed write leaves the tenant active in memory without its users
  | (reg, .error err) => ({ m with reg := reg }, some (.registry err))
  | (reg, .ok _) => { m with reg := reg }.addTenantToCore X env tenantID

/-- Forget the users of a tenant. -/
def forget (m : Manager) (users : List (String × User)) : Manager :=
  users.foldl
    (fun m p =>
      { m with
        emailTo := m.emailTo.erase p.1
        lastSeen := m.lastSeen.erase p.1
        creds := GoMap.eraseKeys m.creds (userCredentials p.2) }) m

/-- Remove a tenant for good. -/
def deleteTenant (m : Manager) (tenantID : String) : Manager × Option ManagerErr :=
  let m := m.removeTenantFromCore X env tenantID
  match m.reg.delete (env.save tenantID) tenantID with
  -- the users are off the core already, and stay in the set
  | (reg, some err) => ({ m with reg := reg }, some (.registry err))
  | (reg, none) =>
    let m := { m with reg := reg }.forget
      (GoMap.range (env.order .stale) (m.usersOf tenantID))
    ({ m with users := m.users.erase tenantID }, none)

/-! ## Metering and enforcement -/

/-- The traffic of each name in a response, its rows added up. -/
def currentOf (stats : List Stat) : GoMap String Int64 :=
  stats.foldl (fun c s => c.insert s.name ((c.lookup s.name).getD 0 + s.value)) ∅

/-- What was carried since the last reading; a counter below it has been
reset. -/
def trafficDelta (last total : Int64) : Int64 :=
  if last ≤ total then total - last else total

/-- The loop of a poll over the readings: remember each, and add what it
shows to its tenant. -/
def tally (emailTo : GoMap String String)
    (acc : GoMap String Int64 × GoMap String Int64) (reading : String × Int64) :
    GoMap String Int64 × GoMap String Int64 :=
  let (lastSeen, deltas) := acc
  let (email, total) := reading
  let delta := trafficDelta ((lastSeen.lookup email).getD 0) total
  (lastSeen.insert email total,
    match emailTo.lookup email with
    | some tid => deltas.insert tid ((deltas.lookup tid).getD 0 + delta)
    -- a reading of nobody's is remembered but not billed
    | none => deltas)

/-- The loop of a poll over the tenants with usage; the first error ends
it. -/
def addUsages (save : String → Bool) :
    List (String × Int64) → Registry → Registry × Option ManagerErr
  | [], reg => (reg, none)
  | (tid, d) :: rest, reg =>
    match reg.addUsage (save tid) tid d with
    | (reg, .error err) => (reg, some (.addUsage tid err))
    | (reg, .ok _) => addUsages save rest reg

/-- The accounting part of a poll. -/
def account (m : Manager) (stats : List Stat) : Manager × Option ManagerErr :=
  let readings := GoMap.range (env.order .current) (currentOf stats)
  let (lastSeen, deltas) := readings.foldl (tally m.emailTo) (m.lastSeen, ∅)
  let (reg, err) := addUsages env.save (GoMap.range (env.order .deltas) deltas) m.reg
  ({ m with lastSeen := lastSeen, reg := reg }, err)

/-- The enforcement part of a poll. -/
def enforce (m : Manager) (now : Int64) : Manager :=
  let (reg, changes) := m.reg.enforce (env.order .byID) env.enforceSave now
  changes.foldl (fun m c => m.removeTenantFromCore X env c.tenant.id) { m with reg := reg }

/-- Read the traffic, bill it, and suspend who is over the limit or
expired. -/
def collectAndEnforce (m : Manager) (now : Int64) : Manager × Option ManagerErr :=
  match m.live.core with
  | none => (m, none)
  | some x =>
    match x.getUsersStats env with
    -- without an answer there is still something to enforce, such as an expiry
    | none => (m.enforce X env now, none)
    | some stats =>
      match m.account env stats with
      -- the readings count as seen, and nobody is suspended this time
      | (m, some err) => (m, some err)
      | (m, none) => (m.enforce X env now, none)

/-- A tenant's rows of the live stats, under the names its customer
uses. -/
def getTenantUserStats (m : Manager) (tenantID : String) : List Stat :=
  match m.live.core with
  | none => []
  | some x =>
    match x.getUsersStats env with
    | none => []
    | some stats =>
      (stats.filter fun s => hasPrefix s.name (tenantPrefix tenantID)).map fun s =>
        { s with name := trimPrefix s.name (tenantPrefix tenantID) }

end Manager

end NodeAgent
