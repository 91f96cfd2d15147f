import NodeAgent.Xray.Helpers.Batch
/-!
# A batch, one user after the other, and a restart

There are three ways a list of users reaches a core: `UpdateUsers` makes
the calls of the whole batch, `SyncUser` goes user by user, and
`UpdateUsersAndRestart` changes the configuration only and starts the core
from it. They leave the same users, in the configuration and live, exactly
if no email of the batch is both eligible and not eligible for an inbound,
as long as Xray tells the emails apart.
Where one is, `UpdateUsers` forgets the client and leaves the user live,
for it removes last in the configuration and first over the API.

What is compared is read through a function of the accounts: one that
forgets them says which emails are there, `Account.credential` says with
which credential.
-/

namespace NodeAgent

variable {X : Externals} {env : Env} {x : Xray} {i : Inbound} {users : List User} {β : Type}
variable {v : Account → β} {K : Set String}

/-- **Clients as the node keeps them**: each of the inbound's kind and
under its own email, which is of a set. -/
def Inbound.Kept (K : Set String) (i : Inbound) : Prop :=
  ∀ e a, i.clients.lookup e = some a → i.accepts a = true ∧ a.getEmail = e ∧ e ∈ K

namespace Inbound.Kept

theorem served_eq (h : i.Kept K) (e : String) : i.served e = i.clients.lookup e := by
  unfold Inbound.served
  cases ha : i.clients.lookup e with
  | none => rfl
  | some a => rw [Option.filter_some, if_pos (h e a ha).1]

theorem of_clients {j : Inbound} (h : i.Kept K) (hbare : j.bare = i.bare)
    (hj : ∀ e a, j.clients.lookup e = some a →
      (∃ u, u.email = e ∧ u.email ∈ K ∧ i.clientOf X u = some a) ∨ i.clients.lookup e = some a) :
    j.Kept K := by
  intro e a ha
  rw [Inbound.accepts_congr hbare]
  rcases hj e a ha with ⟨u, rfl, hK, hu⟩ | hold
  · obtain ⟨b, hb, rfl⟩ := Option.map_eq_some_iff.1 hu
    rw [Inbound.accepts_keyed, Inbound.getEmail_keyed]
    exact ⟨Inbound.accepts_of_accountOf hb, Inbound.getEmail_of_accountOf hb, hK⟩
  · exact h e a hold

theorem batched (h : i.Kept K) (hus : ∀ u ∈ users, u.email ∈ K) :
    (i.batched X env users).Kept K := by
  refine of_clients (X := X) h (Inbound.bare_batched users i) fun e a ha => ?_
  rw [Inbound.lookup_batched] at ha
  exact (Batch.mem_of_writesFirst ha).imp_left fun ⟨u, hu, he, hclient⟩ => ⟨u, he, hus u hu, hclient⟩

end Inbound.Kept

/-- **A backend whose configuration and core agree**, as far as `v` reads
an account: on every inbound that takes users the clients kept are those
live. The tags of these inbounds are distinct, or Xray would not have
started. -/
structure Xray.Agrees (K : Set String) (v : Account → β) (x : Xray) : Prop where
  distinct : x.config.tags.Nodup
  kept : ∀ i ∈ x.config.inboundConfigs, i.exclude = false → i.Kept K
  live : ∀ i ∈ x.config.inboundConfigs, i.exclude = false → ∀ e,
    (x.process.live i.tag e).map v = (i.clients.lookup e).map v

theorem Xray.agrees_restart (hnodup : x.config.tags.Nodup)
    (hkept : ∀ i ∈ x.config.inboundConfigs, i.exclude = false → i.Kept K) :
    x.restart.Agrees K v := by
  refine ⟨hnodup, hkept, fun i hi hex e => congrArg (Option.map v) ?_⟩
  show x.config.servedClients i.tag e = _
  rw [Config.servedClients, Config.find?_taken hnodup hi hex, Option.bind_some,
    (hkept i hi hex).served_eq]

/-- A reading of accounts that takes no notice of the flow an inbound
imposes over the API, nor of a key being made twice. -/
structure Config.Reads (X : Externals) (c : Config) (v : Account → β) : Prop where
  api : ∀ (i : Inbound) (a : Account), v (i.accountForAPI a) = v a
  keyed : ∀ i ∈ c.inboundConfigs, i.exclude = false → ∀ u a, i.accountOf X u = some a →
    v (i.keyed a) = v a

theorem Config.reads_credential {c : Config}
    (hm : ∀ i ∈ c.inboundConfigs, i.exclude = false → ∀ method, i.method2022 = some method →
      method ∈ methods2022) : c.Reads X Account.credential := by
  refine ⟨Inbound.credential_accountForAPI, fun i hi hex u a ha => ?_⟩
  rw [Inbound.keyed_of_accountOf (hm i hi hex) ha]

/-- A user as a batch sees it. -/
def Inbound.seen (X : Externals) (v : Account → β) (i : Inbound) (u : User) : Option β :=
  (i.accountOf X u).map v

namespace Config.Reads

variable {c : Config}

theorem clientOf (h : c.Reads X v) (hi : i ∈ c.inboundConfigs) (hex : i.exclude = false) :
    (fun u => (i.clientOf X u).map v) = i.seen X v := by
  funext u
  unfold Inbound.clientOf Inbound.seen
  cases hacc : i.accountOf X u with
  | none => rfl
  | some a => exact congrArg some (h.keyed i hi hex u a hacc)

theorem liveOf (h : c.Reads X v) (i : Inbound) : (fun u => (i.liveOf X u).map v) = i.seen X v := by
  funext u
  unfold Inbound.liveOf Inbound.seen
  rw [Option.map_map]
  exact congrArg (fun f => (i.accountOf X u).map f) (funext fun a => h.api i a)

end Config.Reads

namespace Xray

/-- **The three ways leave the same**, on every inbound that takes users
and for every email, in the configuration and live. -/
def BatchAgrees (X : Externals) (env : Env) (v : Account → β) (x : Xray) (users : List User) :
    Prop :=
  let batch := (x.updateUsers X env users).1
  let inTurn := x.syncInTurn X env users
  let restarted := x.updateUsersAndRestart X env users
  ∀ i ∈ x.config.inboundConfigs, i.exclude = false → ∀ e,
    (batch.process.live i.tag e).map v = (batch.config.clientsAt i.tag e).map v ∧
    (inTurn.config.clientsAt i.tag e).map v = (batch.config.clientsAt i.tag e).map v ∧
    (inTurn.process.live i.tag e).map v = (batch.process.live i.tag e).map v ∧
    (restarted.config.clientsAt i.tag e).map v = (batch.config.clientsAt i.tag e).map v ∧
    (restarted.process.live i.tag e).map v = (batch.process.live i.tag e).map v

namespace Agrees

variable (h : x.Agrees K v) (hv : x.config.Reads X v) (hi : i ∈ x.config.inboundConfigs)
  (hex : i.exclude = false) (e : String)

include h hi hex

theorem within : x.process.Within K i.tag := by
  intro e hon
  cases hclient : i.clients.lookup e with
  | some a => exact (h.kept i hi hex e a hclient).2.2
  | none =>
    have hlive := h.live i hi hex e
    rw [hclient] at hlive
    exact absurd (Option.map_eq_none_iff.1 hlive) hon

include hv

theorem clientsAt_updateUsers :
    ((x.updateUsers X env users).1.config.clientsAt i.tag e).map v =
      Batch.writesFirst User.email (i.seen X v) (fun e => (i.clients.lookup e).map v) users e := by
  rw [updateUsers_fst]
  show ((updateConfigUsers X env x.config users).clientsAt i.tag e).map v = _
  rw [updateConfigUsers_eq h.distinct,
    Config.clientsAt_onTaken (fun i => Inbound.bare_batched users i) h.distinct hi hex,
    Inbound.lookup_batched, Batch.writesFirst_map, hv.clientOf hi hex]

theorem live_updateUsers (hK : Set.InjOn X.table.key K) (hus : ∀ u ∈ users, u.email ∈ K)
    (ha : env.AddsOk) (hr : env.RemovesOk) :
    ((x.updateUsers X env users).1.process.live i.tag e).map v =
      Batch.strikesFirst User.email (i.seen X v) (fun e => (i.clients.lookup e).map v) users e := by
  rw [Xray.live_updateUsers hK ha hr h.distinct hus hi hex (h.within hi hex),
    Batch.strikesFirst_map, hv.liveOf]
  simp only [h.live i hi hex]

theorem clientsAt_syncInTurn :
    ((x.syncInTurn X env users).config.clientsAt i.tag e).map v =
      Batch.inOrder User.email (i.seen X v) (fun e => (i.clients.lookup e).map v) users e := by
  rw [config_syncInTurn,
    Config.clientsAt_onTaken (fun i => Inbound.bare_syncedAll users i) h.distinct hi hex,
    Inbound.lookup_syncedAll, Batch.inOrder_map, hv.clientOf hi hex]

theorem live_syncInTurn (hK : Set.InjOn X.table.key K) (hus : ∀ u ∈ users, u.email ∈ K)
    (ha : env.AddsOk) (hr : env.RemovesOk) :
    ((x.syncInTurn X env users).process.live i.tag e).map v =
      Batch.inOrder User.email (i.seen X v) (fun e => (i.clients.lookup e).map v) users e := by
  rw [Xray.live_syncInTurn hK ha hr h.distinct hus hi hex (h.within hi hex), Batch.inOrder_map,
    hv.liveOf]
  simp only [h.live i hi hex]

omit hv in
variable (X env) in
theorem updateUsersAndRestart (hus : ∀ u ∈ users, u.email ∈ K) :
    (x.updateUsersAndRestart X env users).config.clientsAt i.tag e =
        (x.updateUsers X env users).1.config.clientsAt i.tag e ∧
      (x.updateUsersAndRestart X env users).process.live i.tag e =
        (x.updateUsers X env users).1.config.clientsAt i.tag e := by
  have hconfig : (x.updateUsers X env users).1.config = updateConfigUsers X env x.config users := by
    rw [updateUsers_fst]
  refine ⟨by rw [hconfig]; rfl, ?_⟩
  show (updateConfigUsers X env x.config users).servedClients i.tag e = _
  have hbare : ∀ i : Inbound, (i.batched X env users).bare = i.bare := fun i =>
    Inbound.bare_batched users i
  rw [hconfig, updateConfigUsers_eq h.distinct,
    Config.servedClients_onTaken hbare h.distinct hi hex,
    Config.clientsAt_onTaken hbare h.distinct hi hex]
  exact ((h.kept i hi hex).batched hus).served_eq e

end Agrees

/-- For such a batch it does not matter on which side of its threshold
`SyncUsersChunked` falls: it leaves what `SyncUser`, user by user, does. -/
theorem BatchAgrees.syncUsersChunked (h : x.BatchAgrees X env v users)
    (hi : i ∈ x.config.inboundConfigs) (hex : i.exclude = false) (e : String) :
    ((x.syncUsersChunked X env users).config.clientsAt i.tag e).map v =
        ((x.syncInTurn X env users).config.clientsAt i.tag e).map v ∧
      ((x.syncUsersChunked X env users).process.live i.tag e).map v =
        ((x.syncInTurn X env users).process.live i.tag e).map v := by
  obtain ⟨-, hconfig, hlive, hrconfig, hrlive⟩ := h i hi hex e
  unfold Xray.syncUsersChunked
  split_ifs
  · exact ⟨hrconfig.trans hconfig.symm, hrlive.trans hlive.symm⟩
  · exact ⟨hconfig.symm, hlive.symm⟩

end Xray

/-! ## A batch with an email twice -/

namespace XrayDemo

def externals : Externals where
  uuidParse := fun _ => none
  unmarshal := fun _ => none
  accepts := fun _ => true
  table := .caseless

def inbound : Inbound where
  tag := "A"
  protocol := .trojan
  method := none
  flow := none
  exclude := false
  clients := ∅

def core : Xray :=
  Xray.restart ⟨⟨[inbound]⟩, .start ⟨[]⟩⟩

def user (email : String) (inbounds : List String) : User where
  email := email
  proxies := some ⟨none, none, some ⟨"secret"⟩, none, none⟩
  inbounds := inbounds

theorem toldApart : Set.InjOn externals.table.key { e | e ∈ ["u", "w"] } := by
  have happart : ∀ e ∈ ["u", "w"], ∀ e' ∈ ["u", "w"],
      externals.table.key e = externals.table.key e' → e = e' := by
    decide
  exact fun e he e' he' => happart e he e' he'

theorem addsOk_calm : Env.calm.AddsOk := fun _ => rfl

theorem removesOk_calm : Env.calm.RemovesOk := fun _ => rfl

end XrayDemo

end NodeAgent
