import NodeAgent.Common.Batches
import NodeAgent.Xray.Helpers.Exact
/-!
# What a batch of users does to an inbound

On one inbound a list of users is a batch in the sense of `Batch`: a user
who is eligible there writes its email, another strikes it out. `SyncUser`
for one user after the other takes the batch in order. `UpdateUsers`
groups it: the clients kept are written before they are struck out, and
the calls to the core go the other way round.
-/

namespace NodeAgent

variable {X : Externals} {env : Env} {i j : Inbound} {u : User} {users : List User} {a : Account}
variable {c : Config} {x : Xray}

/-! ## The account of a user, as it is kept and as it is sent -/

/-- An account as an inbound records it: on a Shadowsocks 2022 inbound it
is keyed once more. -/
def Inbound.keyed (i : Inbound) (a : Account) : Account :=
  match i.method2022 with
  | some method => checkShadowsocks2022 method a
  | none => a

/-- The client an inbound keeps of a user. -/
def Inbound.clientOf (X : Externals) (i : Inbound) (u : User) : Option Account :=
  (i.accountOf X u).map i.keyed

/-- The account a user is served with over the API. -/
def Inbound.liveOf (X : Externals) (i : Inbound) (u : User) : Option Account :=
  (i.accountOf X u).map i.accountForAPI

theorem getEmail_checkShadowsocks2022 (method : String) (a : Account) :
    (checkShadowsocks2022 method a).getEmail = a.getEmail := by
  cases a <;> rfl

@[simp] theorem Inbound.getEmail_keyed (i : Inbound) (a : Account) :
    (i.keyed a).getEmail = a.getEmail := by
  unfold Inbound.keyed
  cases i.method2022 with
  | none => rfl
  | some method => exact getEmail_checkShadowsocks2022 method a

@[simp] theorem Inbound.accepts_keyed (i : Inbound) (a : Account) :
    i.accepts (i.keyed a) = i.accepts a := by
  unfold Inbound.keyed
  cases i.method2022 <;> cases a <;> rfl

theorem Inbound.keyed_of_accountOf
    (hm : ∀ method, i.method2022 = some method → method ∈ methods2022)
    (h : i.accountOf X u = some a) : i.keyed a = a := by
  cases Inbound.takes_of_accountOf h with
  | shadowsocks method password _ hmethod =>
    simp only [Inbound.keyed, hmethod, checkShadowsocks2022,
      ensureBase64Password_idem (hm method hmethod)]
  | _ =>
    unfold Inbound.keyed
    cases i.method2022 <;> rfl

theorem Inbound.clientOf_eq_accountOf
    (hm : ∀ method, i.method2022 = some method → method ∈ methods2022) (u : User) :
    i.clientOf X u = i.accountOf X u := by
  unfold Inbound.clientOf
  cases hacc : i.accountOf X u with
  | none => rfl
  | some a => rw [Option.map_some, Inbound.keyed_of_accountOf hm hacc]

theorem Inbound.clientOf_congr (h : i.bare = j.bare) : i.clientOf X = j.clientOf X := by
  have hbare : ∀ k : Inbound, k.bare.clientOf X = k.clientOf X := fun _ => rfl
  rw [← hbare i, h, hbare j]

/-! ## The clients of one inbound -/

theorem Inbound.updateUser_eq_insert (h : i.accountOf X u = some a) :
    (i.updateUser a).clients = i.clients.insert u.email (i.keyed a) := by
  rw [← Inbound.getEmail_of_accountOf h]
  cases Inbound.takes_of_accountOf h with
  | shadowsocks method password _ hmethod =>
    have hsome : i.method = some method := (Option.filter_eq_some_iff.1 hmethod).1
    simp only [Inbound.updateUser, hsome, Inbound.keyed, hmethod, getEmail_checkShadowsocks2022]
  | _ =>
    unfold Inbound.keyed
    cases i.method2022 <;> rfl

/-- **A sync writes a user's email or strikes it out.** -/
theorem Inbound.lookup_synced (i : Inbound) (u : User) (e : String) :
    (i.synced X u).clients.lookup e =
      if e = u.email then i.clientOf X u else i.clients.lookup e := by
  unfold Inbound.synced Inbound.clientOf
  cases hacc : i.accountOf X u with
  | none => exact GoMap.lookup_erase_eq i.clients u.email e
  | some a =>
    show (i.updateUser a).clients.lookup e = _
    rw [Inbound.updateUser_eq_insert hacc, GoMap.lookup_insert_eq]
    rfl

/-- An inbound after users have been synced to it one by one. -/
def Inbound.syncedAll (X : Externals) (users : List User) (i : Inbound) : Inbound :=
  users.foldl (fun i u => i.synced X u) i

theorem Inbound.syncedAll_concat (users : List User) (u : User) (i : Inbound) :
    i.syncedAll X (users ++ [u]) = (i.syncedAll X users).synced X u :=
  List.foldl_append

@[simp] theorem Inbound.bare_syncedAll (users : List User) (i : Inbound) :
    (i.syncedAll X users).bare = i.bare := by
  induction users using List.reverseRecOn with
  | nil => rfl
  | append_singleton users u ih => rw [Inbound.syncedAll_concat, Inbound.bare_synced, ih]

/-- **One by one, the clients take the batch in order.** -/
theorem Inbound.lookup_syncedAll (i : Inbound) (users : List User) (e : String) :
    (i.syncedAll X users).clients.lookup e =
      Batch.inOrder User.email (i.clientOf X) (fun e => i.clients.lookup e) users e := by
  induction users using List.reverseRecOn with
  | nil => rfl
  | append_singleton users u ih =>
    rw [Inbound.syncedAll_concat, Inbound.lookup_synced, Batch.inOrder_concat, ih,
      Inbound.clientOf_congr (Inbound.bare_syncedAll users i)]

/-! ## What a batch changes on one inbound -/

theorem Config.inboundUpdate_concat (i : Inbound) (users : List User) (u : User) :
    Config.inboundUpdate X.uuidParse i (users ++ [u]) =
      match i.accountOf X u with
      | some account =>
        { Config.inboundUpdate X.uuidParse i users with
          accounts := (Config.inboundUpdate X.uuidParse i users).accounts ++ [account] }
      | none =>
        { Config.inboundUpdate X.uuidParse i users with
          removeEmailSet :=
            (Config.inboundUpdate X.uuidParse i users).removeEmailSet.insert u.email () } :=
  List.foldl_append

theorem Config.accounts_inboundUpdate (i : Inbound) (users : List User) :
    (Config.inboundUpdate X.uuidParse i users).accounts = users.filterMap (i.accountOf X) := by
  induction users using List.reverseRecOn with
  | nil => rfl
  | append_singleton users u ih =>
    rw [Config.inboundUpdate_concat, List.filterMap_append]
    cases hacc : i.accountOf X u with
    | none => simp [ih, hacc]
    | some a => simp [ih, hacc]

theorem Config.mem_removeEmailSet {e : String} :
    e ∈ (Config.inboundUpdate X.uuidParse i users).removeEmailSet.keys ↔
      Batch.struck User.email (i.accountOf X) users e = true := by
  induction users using List.reverseRecOn with
  | nil => exact iff_of_false List.not_mem_nil Bool.false_ne_true
  | append_singleton users u ih =>
    rw [Config.inboundUpdate_concat, Batch.struck_concat, Bool.or_eq_true, ← ih]
    cases hacc : i.accountOf X u with
    | some a => simp
    | none =>
      rw [← AList.mem_keys, ← AList.mem_keys, AList.mem_insert]
      simp only [Option.isNone_none, Bool.and_true, decide_eq_true_eq]
      rw [or_comm, eq_comm]

/-- The emails a batch removes from an inbound, in the order of the
loop. -/
def Inbound.removeEmails (X : Externals) (env : Env) (users : List User) (i : Inbound)
    (tag : String) : List String :=
  (env.order (.removeEmails tag)).run (Config.inboundUpdate X.uuidParse i users).removeEmailSet.keys

theorem Inbound.mem_removeEmails {tag e : String} :
    e ∈ i.removeEmails X env users tag ↔
      Batch.struck User.email (i.accountOf X) users e = true := by
  rw [Inbound.removeEmails, Order.mem_run, Config.mem_removeEmailSet]

theorem Inbound.removeEmails_congr (h : i.bare = j.bare) :
    i.removeEmails X env users = j.removeEmails X env users := by
  have hbare : ∀ k : Inbound, k.bare.removeEmails X env users = k.removeEmails X env users :=
    fun _ => rfl
  rw [← hbare i, h, hbare j]

/-- An inbound after a batch. -/
def Inbound.batched (X : Externals) (env : Env) (users : List User) (i : Inbound) : Inbound :=
  i.updateUsers (users.filterMap (i.accountOf X)) (i.removeEmails X env users i.tag)

@[simp] theorem Inbound.bare_batched (users : List User) (i : Inbound) :
    (i.batched X env users).bare = i.bare := rfl

/-- The loop that records the accounts of a batch. -/
def Inbound.record (i : Inbound) (clients : GoMap String Account) (account : Account) :
    GoMap String Account :=
  if i.accepts account then clients.insert account.getEmail (i.keyed account) else clients

theorem Inbound.clients_updateUsers (i : Inbound) (accounts : List Account)
    (removeEmails : List String) :
    (i.updateUsers accounts removeEmails).clients =
      GoMap.eraseKeys (accounts.foldl i.record i.clients) removeEmails :=
  rfl

theorem Inbound.lookup_record_foldl (i : Inbound) (users : List User) (e : String) :
    ((users.filterMap (i.accountOf X)).foldl i.record i.clients).lookup e =
      (Batch.written User.email (i.clientOf X) users e).or (i.clients.lookup e) := by
  induction users using List.reverseRecOn with
  | nil => rfl
  | append_singleton users u ih =>
    rw [List.filterMap_append, List.foldl_append, Batch.written_concat]
    cases hacc : i.accountOf X u with
    | none =>
      have hnone : i.clientOf X u = none := by rw [Inbound.clientOf, hacc, Option.map_none]
      rw [List.filterMap_cons_none hacc, List.filterMap_nil, List.foldl_nil, ih, hnone,
        Option.none_or, ite_self]
    | some a =>
      have hsome : i.clientOf X u = some (i.keyed a) := by
        rw [Inbound.clientOf, hacc, Option.map_some]
      rw [List.filterMap_cons_some hacc, List.filterMap_nil, List.foldl_cons, List.foldl_nil,
        Inbound.record, if_pos (Inbound.accepts_of_accountOf hacc), GoMap.lookup_insert_eq,
        Inbound.getEmail_of_accountOf hacc, ih, hsome]
      by_cases he : e = u.email
      · rw [if_pos he, if_pos he.symm, Option.some_or, Option.some_or]
      · rw [if_neg he, if_neg fun h => he h.symm]

/-- **In a batch the clients are written before they are struck out.** -/
theorem Inbound.lookup_batched (i : Inbound) (users : List User) (e : String) :
    (i.batched X env users).clients.lookup e =
      Batch.writesFirst User.email (i.clientOf X) (fun e => i.clients.lookup e) users e := by
  rw [Inbound.batched, Inbound.clients_updateUsers, GoMap.lookup_eraseKeys,
    Inbound.lookup_record_foldl]
  unfold Batch.writesFirst Inbound.clientOf
  rw [Batch.struck_map]
  exact if_congr Inbound.mem_removeEmails rfl rfl

/-! ## The calls for one inbound -/

namespace Process

variable {p : Process} {t e email tag : String} {K : Set String}

/-- Whoever is live at a tag is of a set. -/
def Within (K : Set String) (p : Process) (t : String) : Prop :=
  ∀ e, p.live t e ≠ none → e ∈ K

/-- **Where Xray tells the emails of the set apart**, a call for one of
them leaves the others as they were. -/
theorem Within.eq_of_spares (h : p.Within K t) (hK : Set.InjOn X.table.key K) (hemail : email ∈ K)
    (he : e ≠ email) {a : Option Account}
    (hspared : X.table.Spares email e (p.live t e) a) : a = p.live t e := by
  rcases hspared with hsame | ⟨hkey, rfl⟩
  · exact hsame
  · by_contra hon
    exact he (hK (h e (Ne.symm hon)) hemail hkey)

/-- Remove an account's user from an inbound and add it again. -/
def readd (X : Externals) (env : Env) (tag : String) (inbound : Inbound) (p : Process)
    (a : Account) : Process :=
  ((p.removeInboundUser X env tag a.getEmail).addInboundUser X env tag
    (inbound.accountForAPI a)).1

/-- The calls a batch makes for an inbound. -/
def batchAt (X : Externals) (env : Env) (users : List User) (p : Process)
    (entry : String × Inbound) : Process :=
  (users.filterMap (entry.2.accountOf X)).foldl (readd X env entry.1 entry.2)
    ((entry.2.removeEmails X env users entry.1).foldl
      (fun p email => p.removeInboundUser X env entry.1 email) p)

theorem spares_readd (tag : String) (i : Inbound) (p : Process) (he : e ≠ a.getEmail) :
    X.table.Spares a.getEmail e (p.live t e) ((p.readd X env tag i a).live t e) := by
  unfold readd
  rw [← Inbound.getEmail_accountForAPI i a] at he ⊢
  exact spares_removeInboundUser.trans (spares_addInboundUser he)

theorem live_readd_self (ha : env.AddsOk) (tag : String) (i : Inbound) (p : Process)
    (a : Account) : (p.readd X env tag i a).live tag a.getEmail = some (i.accountForAPI a) := by
  unfold readd
  rw [← Inbound.getEmail_accountForAPI i a]
  exact live_addInboundUser_of_ok (err_addInboundUser ha)

theorem Within.readd (h : p.Within K t) (ha : a.getEmail ∈ K) (i : Inbound) :
    (p.readd X env tag i a).Within K t := by
  intro e hon
  by_cases he : e = a.getEmail
  · exact he ▸ ha
  · exact h e ((spares_readd tag i p he).eq_of_ne_none hon ▸ hon)

variable {entry : String × Inbound}

theorem live_batchAt_ne (ht : t ≠ entry.1) (users : List User)
    (p : Process) : (p.batchAt X env users entry).live t e = p.live t e := by
  unfold batchAt
  refine List.foldlRecOn (motive := fun q : Process => q.live t e = p.live t e) _ _ ?_
    fun q hq a _ => ?_
  · refine List.foldlRecOn (motive := fun q : Process => q.live t e = p.live t e) _ _ rfl
      fun q hq email _ => ?_
    rw [live_removeInboundUser_ne_tag ht, hq]
  · rw [← hq]
    exact (live_addInboundUser_ne_tag ht).trans (live_removeInboundUser_ne_tag ht)

theorem live_foldl_remove (hK : Set.InjOn X.table.key K) (hr : env.RemovesOk)
    {emails : List String} (hemails : ∀ email ∈ emails, email ∈ K) (h : p.Within K tag) :
    (emails.foldl (fun p email => p.removeInboundUser X env tag email) p).live tag e =
        (if e ∈ emails then none else p.live tag e) ∧
      (emails.foldl (fun p email => p.removeInboundUser X env tag email) p).Within K tag := by
  induction emails generalizing p with
  | nil => exact ⟨by simp, h⟩
  | cons email emails ih =>
    have hremoved : (p.removeInboundUser X env tag email).Within K tag :=
      fun e hon => h e (live_of_live_removeInboundUser hon)
    obtain ⟨hlive, hwithin⟩ := ih (fun e he => hemails e (List.mem_cons_of_mem _ he)) hremoved
    refine ⟨hlive.trans ?_, hwithin⟩
    by_cases he : e = email
    · simp [he, live_removeInboundUser hr]
    · rw [h.eq_of_spares hK (hemails email (List.mem_cons_self ..)) he spares_removeInboundUser]
      simp [he]

theorem live_foldl_readd (hK : Set.InjOn X.table.key K) (ha : env.AddsOk)
    (hus : ∀ u ∈ users, u.email ∈ K) (i : Inbound) (h : p.Within K tag) :
    ((users.filterMap (i.accountOf X)).foldl (readd X env tag i) p).live tag e =
        (Batch.written User.email (i.liveOf X) users e).or (p.live tag e) ∧
      ((users.filterMap (i.accountOf X)).foldl (readd X env tag i) p).Within K tag := by
  induction users using List.reverseRecOn with
  | nil => exact ⟨rfl, h⟩
  | append_singleton users u ih =>
    obtain ⟨hlive, hwithin⟩ := ih fun v hv => hus v (List.mem_append_left _ hv)
    rw [List.filterMap_append, List.foldl_append, Batch.written_concat]
    cases hacc : i.accountOf X u with
    | none =>
      have hnone : i.liveOf X u = none := by rw [Inbound.liveOf, hacc, Option.map_none]
      rw [List.filterMap_cons_none hacc, List.filterMap_nil, List.foldl_nil, hnone,
        Option.none_or, ite_self]
      exact ⟨hlive, hwithin⟩
    | some a =>
      have hsome : i.liveOf X u = some (i.accountForAPI a) := by
        rw [Inbound.liveOf, hacc, Option.map_some]
      have hemail : a.getEmail = u.email := Inbound.getEmail_of_accountOf hacc
      have hu : a.getEmail ∈ K := hemail ▸ hus u (by simp)
      rw [List.filterMap_cons_some hacc, List.filterMap_nil, List.foldl_cons, List.foldl_nil,
        hsome]
      refine ⟨?_, hwithin.readd hu i⟩
      by_cases he : e = a.getEmail
      · rw [he, live_readd_self ha, if_pos hemail.symm, Option.some_or, Option.some_or]
      · rw [hwithin.eq_of_spares hK hu he (spares_readd tag i _ he), hlive,
          if_neg fun h => he (h.symm.trans hemail.symm)]

/-- **In a batch the calls strike out before they write**, at the
inbound's tag. -/
theorem live_batchAt (hK : Set.InjOn X.table.key K) (ha : env.AddsOk) (hr : env.RemovesOk)
    (hus : ∀ u ∈ users, u.email ∈ K) (h : p.Within K entry.1) :
    (p.batchAt X env users entry).live entry.1 e =
      Batch.strikesFirst User.email (entry.2.liveOf X) (fun e => p.live entry.1 e) users e := by
  have hemails : ∀ email ∈ entry.2.removeEmails X env users entry.1, email ∈ K := by
    intro email hemail
    obtain ⟨u, hu, rfl, -⟩ := Batch.struck_iff.1 (Inbound.mem_removeEmails.1 hemail)
    exact hus u hu
  have hremoved := fun e => live_foldl_remove hK hr (e := e) hemails h
  unfold batchAt
  rw [(live_foldl_readd hK ha hus entry.2 (hremoved e).2).1, (hremoved e).1]
  unfold Batch.strikesFirst Inbound.liveOf
  rw [Batch.struck_map]
  exact congrArg _ (if_congr Inbound.mem_removeEmails rfl rfl)

/-- **The calls of a batch, inbound by inbound**: none is touched twice. -/
theorem live_foldl_batchAt (hK : Set.InjOn X.table.key K) (ha : env.AddsOk) (hr : env.RemovesOk)
    (hus : ∀ u ∈ users, u.email ∈ K) {l : List (String × Inbound)}
    (hnodup : (l.map Prod.fst).Nodup) (hentry : entry ∈ l) (h : p.Within K entry.1) :
    (l.foldl (batchAt X env users) p).live entry.1 e =
      Batch.strikesFirst User.email (entry.2.liveOf X) (fun e => p.live entry.1 e) users e := by
  induction l generalizing p with
  | nil => exact absurd hentry List.not_mem_nil
  | cons q l ih =>
    rw [List.map_cons, List.nodup_cons] at hnodup
    rw [List.foldl_cons]
    rcases List.mem_cons.1 hentry with rfl | hmem
    · -- those after it are at other tags
      rw [← live_batchAt hK ha hr hus h]
      refine List.foldlRecOn (motive := fun q : Process => q.live entry.1 e =
        (p.batchAt X env users entry).live entry.1 e) _ _ rfl fun q hq entry' hentry' => ?_
      have hne : entry.1 ≠ entry'.1 := fun h => hnodup.1 (h ▸ List.mem_map_of_mem hentry')
      rw [live_batchAt_ne hne, hq]
    · have hne : entry.1 ≠ q.1 := fun h => hnodup.1 (h ▸ List.mem_map_of_mem hmem)
      have hsame : ∀ e, (p.batchAt X env users q).live entry.1 e = p.live entry.1 e :=
        fun e => live_batchAt_ne hne users p
      rw [ih hnodup.2 hmem fun e hon => h e (hsame e ▸ hon)]
      simp only [hsame]

end Process

/-! ## Configurations -/

namespace Config

/-- Change the inbounds that take users. -/
def onTaken (g : Inbound → Inbound) (c : Config) : Config where
  inboundConfigs := c.inboundConfigs.map fun i => if i.exclude then i else g i

/-- The client kept for an email under a tag. -/
def clientsAt (c : Config) (tag email : String) : Option Account :=
  (c.inboundConfigs.find? fun i => i.tag = tag ∧ i.exclude = false).bind fun i =>
    i.clients.lookup email

variable {g : Inbound → Inbound}

theorem shape_onTaken (hg : ∀ i, (g i).bare = i.bare) (c : Config) :
    (c.onTaken g).shape = c.shape := by
  unfold shape onTaken
  rw [List.map_map]
  refine List.map_congr_left fun i _ => ?_
  rw [Function.comp_apply]
  split_ifs
  · rfl
  · exact hg i

theorem mem_onTaken (hi : i ∈ c.inboundConfigs) (hex : i.exclude = false) :
    g i ∈ (c.onTaken g).inboundConfigs := by
  refine List.mem_map.2 ⟨i, hi, ?_⟩
  rw [hex, if_neg Bool.false_ne_true]

theorem find?_taken (hnodup : c.tags.Nodup) (hi : i ∈ c.inboundConfigs)
    (hex : i.exclude = false) :
    (c.inboundConfigs.find? fun j => j.tag = i.tag ∧ j.exclude = false) = some i := by
  have hmem : ∀ j ∈ c.inboundConfigs, j.exclude = false →
      j ∈ c.inboundConfigs.filter fun j => !j.exclude := by
    intro j hj hjex
    exact List.mem_filter.2 ⟨hj, by rw [hjex]; rfl⟩
  cases hfound : c.inboundConfigs.find? fun j => j.tag = i.tag ∧ j.exclude = false with
  | none => exact absurd (decide_eq_true ⟨rfl, hex⟩) (List.find?_eq_none.1 hfound i hi)
  | some j =>
    have hj := List.find?_some hfound
    obtain ⟨htag, hjex⟩ := of_decide_eq_true hj
    exact congrArg some (List.inj_on_of_nodup_map hnodup
      (hmem j (List.mem_of_find?_eq_some hfound) hjex) (hmem i hi hex) htag)

theorem find?_onTaken (hg : ∀ i, (g i).bare = i.bare) (hnodup : c.tags.Nodup)
    (hi : i ∈ c.inboundConfigs) (hex : i.exclude = false) :
    ((c.onTaken g).inboundConfigs.find? fun j => j.tag = i.tag ∧ j.exclude = false) =
      some (g i) := by
  rw [← Inbound.tag_congr (hg i)]
  refine find?_taken ?_ (mem_onTaken hi hex) ((Inbound.exclude_congr (hg i)).trans hex)
  rw [tags_congr (shape_onTaken hg c)]
  exact hnodup

theorem clientsAt_onTaken (hg : ∀ i, (g i).bare = i.bare) (hnodup : c.tags.Nodup)
    (hi : i ∈ c.inboundConfigs) (hex : i.exclude = false) (e : String) :
    (c.onTaken g).clientsAt i.tag e = (g i).clients.lookup e := by
  rw [clientsAt, find?_onTaken hg hnodup hi hex, Option.bind_some]

theorem servedClients_onTaken (hg : ∀ i, (g i).bare = i.bare) (hnodup : c.tags.Nodup)
    (hi : i ∈ c.inboundConfigs) (hex : i.exclude = false) (e : String) :
    (c.onTaken g).servedClients i.tag e = (g i).served e := by
  rw [servedClients, find?_onTaken hg hnodup hi hex, Option.bind_some]

theorem onTaken_onTaken {f : Inbound → Inbound} (hf : ∀ i, (f i).bare = i.bare) (c : Config) :
    (c.onTaken f).onTaken g = c.onTaken fun i => g (f i) := by
  unfold onTaken
  rw [List.map_map]
  refine congrArg _ (List.map_congr_left fun i _ => ?_)
  rw [Function.comp_apply]
  cases hex : i.exclude with
  | true => simp [hex]
  | false =>
    have hfex : (f i).exclude = false := (Inbound.exclude_congr (hf i)).trans hex
    simp [hfex]

theorem lookup_inboundByTag (hnodup : c.tags.Nodup) {tag : String} :
    c.inboundByTag.lookup tag = some i ↔
      i ∈ c.inboundConfigs ∧ i.exclude = false ∧ i.tag = tag := by
  have heq : c.inboundByTag =
      GoMap.insertAll ∅ ((c.inboundConfigs.filter fun i => !i.exclude).map fun i => (i.tag, i)) := by
    unfold inboundByTag GoMap.insertAll
    rw [List.foldl_map, List.foldl_filter]
    refine List.foldl_ext _ _ _ fun m i _ => ?_
    cases i.exclude <;> rfl
  have hkeys : (((c.inboundConfigs.filter fun i => !i.exclude).map fun i => (i.tag, i)).map
      Prod.fst).Nodup := by
    rw [List.map_map]
    exact hnodup
  rw [heq, GoMap.lookup_insertAll_iff hkeys]
  simp only [List.mem_map, List.mem_filter, Bool.not_eq_true', Prod.mk.injEq]
  constructor
  · rintro (⟨j, ⟨hj, hjex⟩, rfl, rfl⟩ | ⟨-, hnone⟩)
    · exact ⟨hj, hjex, rfl⟩
    · cases hnone
  · rintro ⟨hi, hex, rfl⟩
    exact Or.inl ⟨i, ⟨hi, hex⟩, rfl, rfl⟩

/-- What a batch changes under one tag. -/
def batchAt (X : Externals) (env : Env) (users : List User) (c : Config)
    (entry : String × Inbound) : Config where
  inboundConfigs :=
    modifyTag entry.1
      (fun i => i.updateUsers (users.filterMap (entry.2.accountOf X))
        (entry.2.removeEmails X env users entry.1))
      c.inboundConfigs

variable (X env users) in
theorem inboundConfigs_batchAt (hnodup : c.tags.Nodup) {entry : String × Inbound}
    (hentry : ∀ j ∈ c.inboundConfigs, j.exclude = false → j.tag = entry.1 →
      j.bare = entry.2.bare) :
    (c.batchAt X env users entry).inboundConfigs =
      c.inboundConfigs.map fun i =>
        if i.tag = entry.1 ∧ i.exclude = false then i.batched X env users else i := by
  refine (modifyTag_eq_map hnodup).trans (List.map_congr_left fun j hj => ?_)
  split_ifs with hcond
  · have hbare := hentry j hj hcond.2 hcond.1
    rw [Inbound.batched, Inbound.removeEmails_congr hbare, hcond.1, Inbound.accountOf_congr hbare]
  · rfl

variable (X env users) in
/-- **A batch goes over the inbounds one after the other**, and changes
each that is in the list. -/
theorem inboundConfigs_foldl_batchAt {l : List (String × Inbound)}
    (hkeys : (l.map Prod.fst).Nodup) (hnodup : c.tags.Nodup)
    (hentries : ∀ entry ∈ l, ∀ j ∈ c.inboundConfigs, j.exclude = false → j.tag = entry.1 →
      j.bare = entry.2.bare) :
    (l.foldl (batchAt X env users) c).inboundConfigs =
      c.inboundConfigs.map fun i =>
        if i.tag ∈ l.map Prod.fst ∧ i.exclude = false then i.batched X env users else i := by
  induction l generalizing c with
  | nil =>
    rw [List.foldl_nil]
    refine (List.map_id' _).symm.trans (List.map_congr_left fun i _ => ?_)
    exact (if_neg fun h => List.not_mem_nil h.1).symm
  | cons entry l ih =>
    rw [List.map_cons, List.nodup_cons] at hkeys
    have hstep := inboundConfigs_batchAt X env users hnodup
      (hentries entry (List.mem_cons_self ..))
    have hbare : ∀ i : Inbound, (if i.tag = entry.1 ∧ i.exclude = false then
        i.batched X env users else i).bare = i.bare := by
      intro i
      split_ifs <;> rfl
    have hshape : (c.batchAt X env users entry).shape = c.shape := by
      rw [shape, hstep, List.map_map]
      exact List.map_congr_left fun i _ => hbare i
    have hrest : ∀ q ∈ l, ∀ j ∈ (c.batchAt X env users entry).inboundConfigs,
        j.exclude = false → j.tag = q.1 → j.bare = q.2.bare := by
      intro q hq j hj hjex hjt
      rw [hstep] at hj
      obtain ⟨i, hi, rfl⟩ := List.mem_map.1 hj
      rw [Inbound.exclude_congr (hbare i)] at hjex
      rw [Inbound.tag_congr (hbare i)] at hjt
      rw [hbare i]
      exact hentries q (List.mem_cons_of_mem _ hq) i hi hjex hjt
    rw [List.foldl_cons, ih hkeys.2 (by rw [tags_congr hshape]; exact hnodup) hrest, hstep,
      List.map_map]
    refine List.map_congr_left fun i _ => ?_
    rw [Function.comp_apply, Inbound.tag_congr (hbare i), Inbound.exclude_congr (hbare i),
      List.map_cons]
    by_cases ht : i.tag = entry.1
    · have hnot : i.tag ∉ l.map Prod.fst := ht ▸ hkeys.1
      rw [if_neg fun h => hnot h.1]
      exact if_congr (by simp [ht]) rfl rfl
    · have hcons : i.tag ∈ entry.1 :: l.map Prod.fst ↔ i.tag ∈ l.map Prod.fst :=
        List.mem_cons.trans (or_iff_right ht)
      rw [if_neg (fun h : i.tag = entry.1 ∧ i.exclude = false => ht h.1)]
      exact if_congr (and_congr_left fun _ => hcons.symm) rfl rfl

end Config

/-! ## Backends -/

theorem Process.Within.syncUser {K : Set String} {t : String} (h : x.process.Within K t)
    (hu : u.email ∈ K) : (x.syncUser X env u).1.process.Within K t := by
  intro e hon
  by_cases he : e = u.email
  · exact he ▸ hu
  · exact h e (((Xray.syncUser_frame X env x u).2.1 t e he).eq_of_ne_none hon ▸ hon)

namespace Xray

/-- `SyncUser` for one user after the other. -/
def syncInTurn (X : Externals) (env : Env) (x : Xray) (users : List User) : Xray :=
  users.foldl (fun x u => (x.syncUser X env u).1) x

theorem syncInTurn_concat (x : Xray) (users : List User) (u : User) :
    x.syncInTurn X env (users ++ [u]) = ((x.syncInTurn X env users).syncUser X env u).1 :=
  List.foldl_append

theorem config_syncUser (x : Xray) (u : User) :
    (x.syncUser X env u).1.config = x.config.onTaken (Inbound.synced X u) :=
  congrArg Config.mk (syncInbounds_fst u _ _)

theorem config_syncInTurn (x : Xray) (users : List User) :
    (x.syncInTurn X env users).config = x.config.onTaken (Inbound.syncedAll X users) := by
  induction users using List.reverseRecOn with
  | nil =>
    refine (congrArg Config.mk ?_ : x.config = _)
    refine (List.map_id' _).symm.trans (List.map_congr_left fun i _ => ?_)
    exact (ite_self i).symm
  | append_singleton users u ih =>
    rw [syncInTurn_concat, config_syncUser, ih,
      Config.onTaken_onTaken fun i => Inbound.bare_syncedAll users i]
    refine congrArg (Config.onTaken · x.config) (funext fun i => ?_)
    exact (Inbound.syncedAll_concat users u i).symm

variable {K : Set String}

/-- **One by one, the calls take the batch in order.** -/
theorem live_syncInTurn (hK : Set.InjOn X.table.key K) (ha : env.AddsOk) (hr : env.RemovesOk)
    (hnodup : x.config.tags.Nodup) {users : List User} (hus : ∀ u ∈ users, u.email ∈ K)
    (hi : i ∈ x.config.inboundConfigs) (hex : i.exclude = false)
    (h : x.process.Within K i.tag) (e : String) :
    (x.syncInTurn X env users).process.live i.tag e =
      Batch.inOrder User.email (i.liveOf X) (fun e => x.process.live i.tag e) users e := by
  induction users using List.reverseRecOn generalizing e with
  | nil => rfl
  | append_singleton users u ih =>
    have hus' : ∀ v ∈ users, v.email ∈ K := fun v hv => hus v (List.mem_append_left _ hv)
    have hwithin : (x.syncInTurn X env users).process.Within K i.tag :=
      List.foldlRecOn (motive := fun y : Xray => y.process.Within K i.tag) users _ h
        fun y hy v hv => hy.syncUser (hus' v hv)
    have hbare := Inbound.bare_syncedAll (X := X) users i
    have hmem : i.syncedAll X users ∈ (x.syncInTurn X env users).config.inboundConfigs := by
      rw [config_syncInTurn]
      exact Config.mem_onTaken hi hex
    have htags : (x.syncInTurn X env users).config.tags.Nodup := by
      rw [config_syncInTurn,
        Config.tags_congr (Config.shape_onTaken (fun i => Inbound.bare_syncedAll users i) _)]
      exact hnodup
    rw [syncInTurn_concat, Batch.inOrder_concat]
    split_ifs with he
    · have hlive := syncUser_live (X := X) ha hr htags u hmem
        ((Inbound.exclude_congr hbare).trans hex) rfl
      rw [Inbound.tag_congr hbare, Inbound.accountOf_congr hbare,
        Inbound.accountForAPI_congr hbare, User.leaves_self] at hlive
      rw [he, hlive]
      rfl
    · rw [hwithin.eq_of_spares hK (hus u (by simp)) he ((syncUser_frame X env _ u).2.1 i.tag e he),
        ih hus']

theorem updateTag_fst (users : List User) (acc : Xray × List String) (entry : String × Inbound) :
    (updateTag X env users acc entry).1 =
      ⟨acc.1.config.batchAt X env users entry, acc.1.process.batchAt X env users entry⟩ := by
  have hreadd : ∀ (accounts : List Account) (p : Process) (failed : List String),
      (accounts.foldl (readd X env entry.1 entry.2) (p, failed)).1 =
        accounts.foldl (Process.readd X env entry.1 entry.2) p := by
    intro accounts
    induction accounts with
    | nil => exact fun _ _ => rfl
    | cons a accounts ih => exact fun p failed => ih _ _
  simp only [updateTag, hreadd, Config.accounts_inboundUpdate, Config.batchAt, Process.batchAt,
    Inbound.removeEmails]

/-- **`UpdateUsers`, as a change of the configuration and the calls it
makes.** -/
theorem updateUsers_fst (x : Xray) (users : List User) :
    (x.updateUsers X env users).1 =
      ⟨updateConfigUsers X env x.config users,
        (GoMap.range (env.order (.updates (users.map User.email))) x.config.inboundByTag).foldl
          (Process.batchAt X env users) x.process⟩ := by
  have hfold : ∀ (l : List (String × Inbound)) (acc : Xray × List String),
      (l.foldl (updateTag X env users) acc).1 =
        ⟨l.foldl (Config.batchAt X env users) acc.1.config,
          l.foldl (Process.batchAt X env users) acc.1.process⟩ := by
    intro l
    induction l with
    | nil => exact fun _ => rfl
    | cons entry l ih =>
      intro acc
      rw [List.foldl_cons, ih, updateTag_fst]
      rfl
  unfold updateUsers
  rw [hfold]
  simp only [updateConfigUsers, Config.accounts_inboundUpdate]
  rfl

/-- **A batch changes every inbound that takes users**, each by itself. -/
theorem updateConfigUsers_eq (hnodup : c.tags.Nodup) (users : List User) :
    updateConfigUsers X env c users = c.onTaken (Inbound.batched X env users) := by
  have hbatch : updateConfigUsers X env c users =
      (GoMap.range (env.order (.updates (users.map User.email))) c.inboundByTag).foldl
        (Config.batchAt X env users) c := by
    simp only [updateConfigUsers, Config.accounts_inboundUpdate]
    rfl
  have hentry : ∀ entry ∈ GoMap.range (env.order (.updates (users.map User.email)))
      c.inboundByTag, ∀ j ∈ c.inboundConfigs, j.exclude = false → j.tag = entry.1 →
        j.bare = entry.2.bare := by
    intro entry hmem j hj hjex hjt
    have hlookup := (Config.lookup_inboundByTag hnodup).2 ⟨hj, hjex, hjt⟩
    rw [GoMap.mem_range.1 hmem] at hlookup
    rw [Option.some.inj hlookup]
  have hall : ∀ i ∈ c.inboundConfigs, i.exclude = false →
      i.tag ∈ (GoMap.range (env.order (.updates (users.map User.email))) c.inboundByTag).map
        Prod.fst := by
    intro i hi hex
    exact List.mem_map.2 ⟨(i.tag, i),
      GoMap.mem_range.2 ((Config.lookup_inboundByTag hnodup).2 ⟨hi, hex, rfl⟩), rfl⟩
  have hinbounds := Config.inboundConfigs_foldl_batchAt X env users
    (GoMap.range_nodup _ _) hnodup hentry
  rw [← hbatch] at hinbounds
  refine congrArg Config.mk (hinbounds.trans (List.map_congr_left fun i hi => ?_))
  cases hex : i.exclude with
  | true => rw [if_neg fun h => Bool.false_ne_true h.2.symm, if_pos rfl]
  | false =>
    rw [if_pos ⟨hall i hi hex, rfl⟩]
    rfl

/-- **The calls of `UpdateUsers` strike out before they write.** -/
theorem live_updateUsers (hK : Set.InjOn X.table.key K) (ha : env.AddsOk) (hr : env.RemovesOk)
    (hnodup : x.config.tags.Nodup) {users : List User} (hus : ∀ u ∈ users, u.email ∈ K)
    (hi : i ∈ x.config.inboundConfigs) (hex : i.exclude = false)
    (h : x.process.Within K i.tag) (e : String) :
    (x.updateUsers X env users).1.process.live i.tag e =
      Batch.strikesFirst User.email (i.liveOf X) (fun e => x.process.live i.tag e) users e := by
  have hmem : (i.tag, i) ∈
      GoMap.range (env.order (.updates (users.map User.email))) x.config.inboundByTag :=
    GoMap.mem_range.2 ((Config.lookup_inboundByTag hnodup).2 ⟨hi, hex, rfl⟩)
  rw [updateUsers_fst]
  exact Process.live_foldl_batchAt hK ha hr hus (GoMap.range_nodup _ _) hmem h

end Xray

end NodeAgent
