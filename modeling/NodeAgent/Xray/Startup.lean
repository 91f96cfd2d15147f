import NodeAgent.Xray.Batches
/-!
# The startup path and the incremental path

The clients of an inbound are made in two ways: at a start `syncUsers`
builds them from the whole list of users, with a switch over the protocols
of its own, and later `SyncUser` changes them user by user, through
`setupUserAccount`, `isActiveInbound` and `updateUser`. For users with
distinct emails the two give the same clients.
-/

namespace NodeAgent

variable {X : Externals} {env : Env} {i : Inbound} {users : List User} {c : Config}

theorem Inbound.clients_syncUsers (i : Inbound) (users : List User) :
    (i.syncUsers X.uuidParse users).clients =
      users.foldl
        (fun clients u =>
          match i.accountOf X u with
          | some a => clients.insert u.email a
          | none => clients)
        ∅ := by
  unfold Inbound.syncUsers
  refine List.foldl_ext _ _ _ fun clients u _ => ?_
  unfold Inbound.accountOf Inbound.isActiveInbound setupUserAccount
  split_ifs with htag
  · cases i.protocol with
    | shadowsocks =>
      -- the one case where the two switches do not read alike
      cases i.method2022 with
      | none => rfl
      | some method => simp only [Option.map_map]; rfl
    | _ => rfl
  · rfl

/-- **The startup path leaves the last account of each email.** -/
theorem Inbound.lookup_syncUsers (i : Inbound) (users : List User) (e : String) :
    (i.syncUsers X.uuidParse users).clients.lookup e =
      Batch.written User.email (i.accountOf X) users e := by
  rw [Inbound.clients_syncUsers]
  induction users using List.reverseRecOn with
  | nil => rfl
  | append_singleton users u ih =>
    rw [List.foldl_append, List.foldl_cons, List.foldl_nil, Batch.written_concat]
    cases hacc : i.accountOf X u with
    | none => rw [Option.none_or, ite_self]; exact ih
    | some a =>
      show ((_ : GoMap String Account).insert u.email a).lookup e = _
      rw [GoMap.lookup_insert_eq, ih, Option.some_or]
      exact if_congr eq_comm rfl rfl

@[simp] theorem Inbound.bare_syncUsers (i : Inbound) (users : List User) :
    (i.syncUsers X.uuidParse users).bare = i.bare := rfl

/-- A configuration with the clients of the inbounds that take users
forgotten; the others never have any. -/
def Config.emptied (c : Config) : Config :=
  c.onTaken Inbound.bare

/-- **Two inbounds with the same clients**, account for account, and alike
in all else. -/
def Inbound.SameClients (i j : Inbound) : Prop :=
  i.bare = j.bare ∧ ∀ e, i.clients.lookup e = j.clients.lookup e

theorem Inbound.sameClients_syncUsers {users' : List User}
    (hm : ∀ method, i.method2022 = some method → method ∈ methods2022)
    (hnodup : (users.map User.email).Nodup) (hperm : users'.Perm users) :
    (i.syncUsers X.uuidParse users).SameClients (i.bare.syncedAll X users') := by
  have hnodup' : (users'.map User.email).Nodup := (hperm.map User.email).nodup_iff.2 hnodup
  refine ⟨(Inbound.bare_syncedAll users' i.bare).symm, fun e => ?_⟩
  have haccount : i.bare.clientOf X = i.accountOf X :=
    funext fun u => Inbound.clientOf_eq_accountOf hm u
  have hunmixed : Batch.Unmixed User.email (i.accountOf X) users e :=
    Batch.unmixed_of_nodup hnodup e
  calc (i.syncUsers X.uuidParse users).clients.lookup e
      = Batch.written User.email (i.accountOf X) users e := Inbound.lookup_syncUsers i users e
    _ = Batch.strikesFirst User.email (i.accountOf X) (fun _ => none) users e := by
        rw [Batch.strikesFirst, ite_self, Option.or_none]
    _ = Batch.inOrder User.email (i.accountOf X) (fun _ => none) users e :=
        hunmixed.inOrder_eq.symm
    _ = Batch.inOrder User.email (i.accountOf X) (fun _ => none) users' e :=
        (Batch.inOrder_perm hperm hnodup').symm
    _ = (i.bare.syncedAll X users').clients.lookup e := by
        rw [Inbound.lookup_syncedAll, haccount]
        rfl

/-- **The startup path equals the incremental path.** The clients
`syncUsers` gives every inbound are those of a backend that starts with
empty maps and is given the users by `SyncUser`, in any order and whatever
becomes of the calls to the core. -/
theorem syncUsers_sameClients_syncUser (c : Config) {users users' : List User}
    (hm : ∀ i ∈ c.inboundConfigs, i.exclude = false → ∀ method, i.method2022 = some method →
      method ∈ methods2022)
    (hnodup : (users.map User.email).Nodup) (hperm : users'.Perm users) (p : Process) :
    List.Forall₂ Inbound.SameClients (c.syncUsers X.uuidParse users).inboundConfigs
      (Xray.syncInTurn X env ⟨c.emptied, p⟩ users').config.inboundConfigs := by
  have hinTurn : (Xray.syncInTurn X env ⟨c.emptied, p⟩ users').config =
      c.onTaken fun i => i.bare.syncedAll X users' :=
    (Xray.config_syncInTurn _ users').trans
      (Config.onTaken_onTaken (f := Inbound.bare) (fun _ => rfl) c)
  rw [hinTurn]
  refine List.forall₂_map_left_iff.2 (List.forall₂_map_right_iff.2 (List.forall₂_same.2 ?_))
  intro i hi
  cases hex : i.exclude with
  | true => exact ⟨rfl, fun _ => rfl⟩
  | false => exact Inbound.sameClients_syncUsers (hm i hi hex) hnodup hperm

namespace XrayDemo

def inbound2022 : Inbound where
  tag := "B"
  protocol := .shadowsocks
  method := some "2022-blake3-aes-128-gcm"
  flow := none
  exclude := false
  clients := ∅

def user2022 (email : String) : User where
  email := email
  proxies := some ⟨none, none, none, some ⟨"secret", ""⟩, none⟩
  inbounds := ["B"]

end XrayDemo

open XrayDemo in
/-- Two users of a Shadowsocks 2022 inbound, synced in the other order. -/
theorem syncUsers_sameClients_reversed :
    List.Forall₂ Inbound.SameClients
      ((⟨[inbound2022]⟩ : Config).syncUsers externals.uuidParse
        [user2022 "u", user2022 "w"]).inboundConfigs
      (Xray.syncInTurn externals .calm ⟨(⟨[inbound2022]⟩ : Config).emptied, .start ⟨[]⟩⟩
        [user2022 "w", user2022 "u"]).config.inboundConfigs := by
  refine syncUsers_sameClients_syncUser _ ?_ (by decide) (List.Perm.swap _ _ _) _
  intro i hi _ method hmethod
  rw [List.mem_singleton.1 hi] at hmethod
  have hsome : some "2022-blake3-aes-128-gcm" = some method := hmethod
  rw [← Option.some.inj hsome]
  decide

end NodeAgent
