import NodeAgent.Xray.Model.Config
import NodeAgent.Xray.Model.Stats
/-!
# The running core

The Xray process as the node sees it through its API — who is served on
each inbound, and the traffic counters — and the operations of
`backend/xray/user.go` and `xray.go` on it. The node keeps a second copy
of the users in its configuration, `Inbound.clients`, from which the core
is started again.

What is not the node's to decide is in two records. `Externals` holds the
code outside the repository: UUID parsing, JSON decoding, whether the Xray
executable comes up on a configuration, and how it keeps the users of an
inbound. `Env` is what happens during one operation: the order every range
loop takes, and the outcome of every call to the core and to the store.
-/

namespace NodeAgent

/-- **How Xray keeps the users of an inbound**: who is left when one is
taken out, and when one is put in. It compares emails by a form of theirs,
so that two emails of one form are one user to it. No more is known of it
than the four laws. -/
structure UserTable where
  /-- The form in which emails are compared. -/
  key : String → String
  remove : (String → Option Account) → String → String → Option Account
  add : (String → Option Account) → Account → String → Option Account
  remove_same : ∀ us email e, key e = key email → remove us email e = none
  remove_other : ∀ us email e, key e ≠ key email → remove us email e = us e
  add_self : ∀ us a, add us a a.getEmail = some a
  /-- Only those of its own form can lose their place to an account. -/
  add_other : ∀ us a e, e ≠ a.getEmail →
    add us a e = us e ∨ key e = key a.getEmail ∧ add us a e = none

/-- A table with one user for each form. -/
def UserTable.keyed (key : String → String) : UserTable where
  key := key
  remove := fun us email e => if key e = key email then none else us e
  add := fun us a e =>
    if e = a.getEmail then some a else if key e = key a.getEmail then none else us e
  remove_same := fun _ _ _ h => if_pos h
  remove_other := fun _ _ _ h => if_neg h
  add_self := fun _ _ => if_pos rfl
  add_other := fun us a e he => by
    rw [if_neg he]
    split_ifs with h
    · exact Or.inr ⟨h, rfl⟩
    · exact Or.inl rfl

/-- Upper and lower case are the same to Xray. -/
def UserTable.caseless : UserTable :=
  .keyed fun email => String.ofList (email.toList.map Char.toLower)

/-- Code outside the repository. -/
structure Externals where
  /-- `uuid.Parse`. -/
  uuidParse : String → Option UUID
  /-- `json.Unmarshal` into a configuration. -/
  unmarshal : String → Option Config
  /-- Whether Xray comes up on a configuration. -/
  accepts : Config → Bool
  /-- How it keeps users. -/
  table : UserTable

/-- The range loops over maps, by what they run over. -/
inductive Site
  /-- The new set of `SetTenantUsers`, when its credentials are checked. -/
  | batch
  /-- The set a tenant had, in `SetTenantUsers` and `DeleteTenant`. -/
  | stale
  /-- The new set of `SetTenantUsers`, when it is applied. -/
  | fresh
  /-- The tenants of `ApplyConfig`. -/
  | tenants
  /-- The users of one tenant. -/
  | tenantUsers (id : String)
  /-- The inbounds an `UpdateUsers` call changes, by the emails it is
  given. -/
  | updates (emails : List String)
  /-- The emails such a call removes from an inbound. -/
  | removeEmails (tag : String)
  /-- The traffic totals of a poll. -/
  | current
  /-- The usage a poll adds to each tenant. -/
  | deltas
  /-- The tenants `Enforce` scans. -/
  | byID

/-- The outcome of a call to the core. A call can also take effect and
have its answer lost. -/
inductive Rpc
  | done
  | refused
  | lost
  deriving DecidableEq

/-- **What happens around one operation.** -/
structure Env where
  order : Site → Order String
  /-- The order of the rows of a stats answer. -/
  rows : Order QueryStat
  /-- The outcome of a call that adds a user, by the number of calls the
  core has had. -/
  add : ℕ → Rpc
  /-- The outcome of a call that removes a user. -/
  remove : ℕ → Rpc
  /-- Whether a stats query is answered. -/
  stats : Bool
  /-- Whether a core that would come up does. -/
  start : Bool
  /-- Whether the write of a tenant goes through. -/
  save : String → Bool
  /-- Whether the write of a tenant `Enforce` suspends goes through. -/
  enforceSave : String → Bool

/-- The surroundings in which nothing fails and loops run in the given
order. -/
def Env.calm : Env where
  order := fun _ => .given
  rows := .given
  add := fun _ => .done
  remove := fun _ => .done
  stats := true
  start := true
  save := fun _ => true
  enforceSave := fun _ => true

/-- **The Xray process.** -/
structure Process where
  /-- The account served for an email on an inbound. -/
  live : String → String → Option Account
  /-- The bytes counted for an email since the process started, up and
  down. -/
  counters : GoMap String (ℕ × ℕ)
  /-- The number of calls it has had. -/
  calls : ℕ

namespace Process

/-- A process just started from a configuration. -/
def start (c : Config) : Process where
  live := c.servedClients
  counters := ∅
  calls := 0

variable (X : Externals) (env : Env)

/-- `RemoveInboundUser`. -/
def removeInboundUser (p : Process) (tag email : String) : Process where
  live :=
    if env.remove p.calls = .refused then p.live
    else fun t => if t = tag then X.table.remove (p.live t) email else p.live t
  counters := p.counters
  calls := p.calls + 1

/-- `AddInboundUser`, and whether it gave an error. That a user is there
already is one of the reasons for which Xray refuses it. -/
def addInboundUser (p : Process) (tag : String) (account : Account) : Process × Bool :=
  let live := if env.add p.calls = .refused then p.live
    else fun t => if t = tag then X.table.add (p.live t) account else p.live t
  -- a call whose answer is lost has its effect and is an error all the same
  (⟨live, p.counters, p.calls + 1⟩, env.add p.calls ≠ .done)

/-- The counters as rows. -/
def queryStats (p : Process) : List QueryStat :=
  (GoMap.range .given p.counters).flatMap fun c =>
    [⟨counterName c.1 .uplink, Int64.ofNat c.2.1⟩, ⟨counterName c.1 .downlink, Int64.ofNat c.2.2⟩]

/-- A user carries traffic. -/
def carry (p : Process) (email : String) (up down : ℕ) : Process :=
  let c := (p.counters.lookup email).getD (0, 0)
  { p with counters := p.counters.insert email (c.1 + up, c.2 + down) }

end Process

/-- A core: the configuration the node keeps and the process. -/
structure Xray where
  config : Config
  process : Process

namespace Xray

variable (X : Externals) (env : Env)

/-- Start a core. `none` is any of the errors of `New`. -/
def new (xrayConfig : Config) (users : List User) : Option Xray :=
  xrayConfig.applyAPI.bind fun config =>
    let config := if 0 < users.length then config.syncUsers X.uuidParse users else config
    if env.start && X.accepts config then some ⟨config, .start config⟩ else none

/-- Stop the process and start it from the configuration kept. -/
def restart (x : Xray) : Xray :=
  { x with process := .start x.config }

/-- The loop of `SyncUser`: the inbounds with their clients changed, the
process after the calls, and the tags at which an add gave an error. -/
def syncInbounds (user : User) :
    List Inbound → Process → List Inbound × Process × List String
  | [], p => ([], p, [])
  | i :: rest, p =>
    if i.exclude then
      let (inbounds, p, failed) := syncInbounds user rest p
      (i :: inbounds, p, failed)
    else
      -- the answer to the removal is ignored
      let p := p.removeInboundUser X env i.tag user.email
      match i.isActiveInbound user.inbounds (setupUserAccount X.uuidParse user) with
      | some account =>
        let (p, err) := p.addInboundUser X env i.tag (i.accountForAPI account)
        let (inbounds, p, failed) := syncInbounds user rest p
        (i.updateUser account :: inbounds, p, if err then i.tag :: failed else failed)
      | none =>
        let (inbounds, p, failed) := syncInbounds user rest p
        (i.removeUser user.email :: inbounds, p, failed)

/-- Put a user on its inbounds and off the others; the tags at which that
failed. -/
def syncUser (x : Xray) (user : User) : Xray × List String :=
  let (inbounds, p, failed) := syncInbounds X env user x.config.inboundConfigs x.process
  (⟨⟨inbounds⟩, p⟩, failed)

/-- Remove an account's user from an inbound and add it again. -/
def readd (tag : String) (inbound : Inbound) (acc : Process × List String) (account : Account) :
    Process × List String :=
  let p := acc.1.removeInboundUser X env tag account.getEmail
  let (p, err) := p.addInboundUser X env tag (inbound.accountForAPI account)
  (p, if err then acc.2 ++ [tag] else acc.2)

/-- What `UpdateUsers` does for one inbound. -/
def updateTag (users : List User) (acc : Xray × List String) (entry : String × Inbound) :
    Xray × List String :=
  let (x, failed) := acc
  let (tag, inbound) := entry
  let update := Config.inboundUpdate X.uuidParse inbound users
  let removeEmails := (env.order (.removeEmails tag)).run update.removeEmailSet.keys
  let inbounds :=
    Config.modifyTag tag (fun i => i.updateUsers update.accounts removeEmails)
      x.config.inboundConfigs
  let p := removeEmails.foldl (fun p email => p.removeInboundUser X env tag email) x.process
  let (p, failed) := update.accounts.foldl (readd X env tag inbound) (p, failed)
  (⟨⟨inbounds⟩, p⟩, failed)

/-- Apply a batch of users, inbound by inbound; the tags at which an add
failed. -/
def updateUsers (x : Xray) (users : List User) : Xray × List String :=
  (GoMap.range (env.order (.updates (users.map User.email))) x.config.inboundByTag).foldl
    (updateTag X env users) (x, [])

/-- `Config.updateUsers`: a batch of users, inbound by inbound, without a
call to the core. -/
def updateConfigUsers (c : Config) (users : List User) : Config :=
  (GoMap.range (env.order (.updates (users.map User.email))) c.inboundByTag).foldl
    (fun c entry =>
      let update := Config.inboundUpdate X.uuidParse entry.2 users
      let removeEmails := (env.order (.removeEmails entry.1)).run update.removeEmailSet.keys
      ⟨Config.modifyTag entry.1 (fun i => i.updateUsers update.accounts removeEmails)
        c.inboundConfigs⟩)
    c

/-- `UpdateUsersAndRestart`, where the core comes up again. -/
def updateUsersAndRestart (x : Xray) (users : List User) : Xray :=
  restart { x with config := updateConfigUsers X env x.config users }

/-- The end of `SyncUsersChunked`: a large batch goes through a restart, a
small one through the API. -/
def syncUsersChunked (x : Xray) (users : List User) : Xray :=
  if 100 < users.length then updateUsersAndRestart X env x users
  else (updateUsers X env x users).1

/-- `SyncUsers`, where the core comes up again. -/
def syncUsers (x : Xray) (users : List User) : Xray :=
  restart { x with config := x.config.syncUsers X.uuidParse users }

/-- `GetStats` for the counters of all users; `none` is an error. -/
def getUsersStats (x : Xray) : Option (List Stat) :=
  if env.stats then some (buildStatResponse (env.rows.run x.process.queryStats)) else none

end Xray

end NodeAgent
