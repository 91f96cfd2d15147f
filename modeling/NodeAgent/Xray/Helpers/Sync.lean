import NodeAgent.Xray.Model.Core
/-!
# What a user sync does to the core

`SyncUser` and the removal of a user, `UpdateUsers` with no inbounds,
change the entries of one email and nothing else: not the shape of the
configuration, not the counters, and of the other emails they can only
take off those that Xray does not tell from it. Where no call is refused
the entries they leave are known exactly.
-/

namespace NodeAgent

variable {X : Externals} {env : Env}

/-- No call that adds a user fails. -/
def Env.AddsOk (env : Env) : Prop :=
  ∀ n, env.add n = .done

/-- No call that removes a user fails. -/
def Env.RemovesOk (env : Env) : Prop :=
  ∀ n, env.remove n = .done

/-- **No call that removes a user is refused.** Its answer may be lost. -/
def Env.RemovesLand (env : Env) : Prop :=
  ∀ n, env.remove n ≠ .refused

theorem Env.RemovesOk.lands (hr : env.RemovesOk) : env.RemovesLand := fun n => by
  rw [hr n]
  decide

/-! ## Emails of one form -/

/-- **What a call for one email can do to another**: nothing, or, if Xray
does not tell the two apart, take it off. -/
def UserTable.Spares (U : UserTable) (email e : String) (old new : Option Account) : Prop :=
  new = old ∨ U.key e = U.key email ∧ new = none

namespace UserTable.Spares

variable {U : UserTable} {email e : String} {a b c : Option Account}

theorem trans (h : U.Spares email e a b) (h' : U.Spares email e b c) : U.Spares email e a c := by
  rcases h' with rfl | h'
  · exact h
  · exact Or.inr h'

theorem eq_of_key_ne (h : U.Spares email e a b) (hne : U.key e ≠ U.key email) : b = a :=
  h.resolve_right fun h => hne h.1

theorem eq_of_ne_none (h : U.Spares email e a b) (hb : b ≠ none) : b = a :=
  h.resolve_right fun h => hb h.2

theorem eq_none (h : U.Spares email e a b) (ha : a = none) : b = none := by
  rcases h with h | h
  · exact h.trans ha
  · exact h.2

end UserTable.Spares

/-! ## Shapes -/

/-- An inbound without its clients. -/
def Inbound.bare (i : Inbound) : Inbound :=
  { i with clients := ∅ }

/-- **The shape of a configuration**: all but the clients. -/
def Config.shape (c : Config) : List Inbound :=
  c.inboundConfigs.map Inbound.bare

@[simp] theorem Inbound.bare_removeUser (i : Inbound) (e : String) :
    (i.removeUser e).bare = i.bare := rfl

theorem Config.tags_eq_shape (c : Config) :
    c.tags = (c.shape.filter fun i => !i.exclude).map Inbound.tag := by
  rw [Config.tags, Config.shape, List.filter_map, List.map_map]
  rfl

theorem Config.tags_congr {c d : Config} (h : c.shape = d.shape) : c.tags = d.tags := by
  rw [Config.tags_eq_shape, Config.tags_eq_shape, h]

theorem Config.mem_tags {c : Config} {tag : String} :
    tag ∈ c.tags ↔ ∃ i ∈ c.inboundConfigs, i.exclude = false ∧ i.tag = tag := by
  simp only [Config.tags, List.mem_map, List.mem_filter, Bool.not_eq_true']
  constructor
  · rintro ⟨i, ⟨hi, hex⟩, rfl⟩
    exact ⟨i, hi, hex, rfl⟩
  · rintro ⟨i, hi, hex, rfl⟩
    exact ⟨i, ⟨hi, hex⟩, rfl⟩

theorem Config.shape_modifyTag {f : Inbound → Inbound} (hf : ∀ i, (f i).bare = i.bare)
    (tag : String) (l : List Inbound) :
    (Config.modifyTag tag f l).map Inbound.bare = l.map Inbound.bare := by
  induction l with
  | nil => rfl
  | cons i l ih =>
    rw [Config.modifyTag]
    split
    · simp [hf]
    · simp [ih]

theorem Config.mem_keys_inboundByTag {c : Config} {tag : String} :
    tag ∈ c.inboundByTag.keys ↔ tag ∈ c.tags := by
  have hfold : ∀ (l : List Inbound) (m : GoMap String Inbound),
      tag ∈ (l.foldl (fun m i => if i.exclude then m else m.insert i.tag i) m).keys ↔
        tag ∈ m.keys ∨ ∃ i ∈ l, i.exclude = false ∧ i.tag = tag := by
    intro l
    induction l with
    | nil => intro m; simp
    | cons i l ih =>
      intro m
      rw [List.foldl_cons, ih]
      by_cases hex : i.exclude = true
      · simp [hex]
      · rw [if_neg hex, GoMap.mem_keys_iff, GoMap.mem_keys_iff]
        simp only [Bool.not_eq_true] at hex
        by_cases ht : tag = i.tag
        · subst ht
          simp [hex]
        · have ht' : ¬ i.tag = tag := fun h => ht h.symm
          simp [AList.lookup_insert_ne ht, ht', hex]
  rw [Config.inboundByTag, hfold, Config.mem_tags]
  simp

/-! ## One call -/

namespace Process

variable {p : Process} {tag email t e : String} {a : Account}

theorem live_removeInboundUser_of_lands (hr : env.RemovesLand) :
    (p.removeInboundUser X env tag email).live t e =
      if t = tag ∧ X.table.key e = X.table.key email then none else p.live t e := by
  unfold removeInboundUser
  rw [if_neg (hr p.calls)]
  by_cases ht : t = tag
  · by_cases he : X.table.key e = X.table.key email
    · simp [ht, he, X.table.remove_same _ _ _ he]
    · simp [ht, he, X.table.remove_other _ _ _ he]
  · simp [ht]

theorem live_removeInboundUser (hr : env.RemovesOk) :
    (p.removeInboundUser X env tag email).live t e =
      if t = tag ∧ X.table.key e = X.table.key email then none else p.live t e :=
  live_removeInboundUser_of_lands hr.lands

theorem spares_removeInboundUser :
    X.table.Spares email e (p.live t e) ((p.removeInboundUser X env tag email).live t e) := by
  unfold removeInboundUser
  split_ifs
  · exact Or.inl rfl
  · by_cases h : t = tag ∧ X.table.key e = X.table.key email
    · exact Or.inr ⟨h.2, by simp [h.1, X.table.remove_same _ _ _ h.2]⟩
    · refine Or.inl ?_
      by_cases ht : t = tag
      · simp [ht, X.table.remove_other _ _ _ fun hkey => h ⟨ht, hkey⟩]
      · simp [ht]

theorem live_of_live_removeInboundUser
    (h : (p.removeInboundUser X env tag email).live t e ≠ none) : p.live t e ≠ none :=
  fun hnone => h (spares_removeInboundUser.eq_none hnone)

theorem spares_addInboundUser (he : e ≠ a.getEmail) :
    X.table.Spares a.getEmail e (p.live t e) ((p.addInboundUser X env tag a).1.live t e) := by
  simp only [addInboundUser]
  split_ifs
  · exact Or.inl rfl
  · by_cases ht : t = tag
    · simp only [ht, if_true]
      exact X.table.add_other (p.live tag) a e he
    · exact Or.inl (by simp [ht])

theorem err_addInboundUser (ha : env.AddsOk) : (p.addInboundUser X env tag a).2 = false := by
  simp [addInboundUser, ha p.calls]

theorem live_removeInboundUser_ne_tag (ht : t ≠ tag) :
    (p.removeInboundUser X env tag email).live t e = p.live t e := by
  unfold removeInboundUser
  split_ifs
  · rfl
  · simp [ht]

theorem live_addInboundUser_ne_tag (ht : t ≠ tag) :
    (p.addInboundUser X env tag a).1.live t e = p.live t e := by
  simp only [addInboundUser]
  split_ifs
  · rfl
  · simp [ht]

theorem live_of_live_addInboundUser (h : (p.addInboundUser X env tag a).1.live t e ≠ none) :
    t = tag ∨ p.live t e ≠ none :=
  or_iff_not_imp_left.2 fun ht => live_addInboundUser_ne_tag (a := a) ht ▸ h

theorem live_addInboundUser_of_ok (h : (p.addInboundUser X env tag a).2 = false) :
    (p.addInboundUser X env tag a).1.live tag a.getEmail = some a := by
  have hdone : env.add p.calls = .done := by simpa [addInboundUser] using h
  simp [addInboundUser, hdone, X.table.add_self]

/-- **A user taken out and put in again** without an error: of those that
are one user to Xray it is the only one there. -/
theorem live_readd (hr : env.RemovesLand)
    (hok : ((p.removeInboundUser X env tag a.getEmail).addInboundUser X env tag a).2 = false) :
    ((p.removeInboundUser X env tag a.getEmail).addInboundUser X env tag a).1.live t e =
      if t = tag ∧ X.table.key e = X.table.key a.getEmail then
        if e = a.getEmail then some a else none
      else p.live t e := by
  by_cases ht : t = tag
  · subst ht
    by_cases he : e = a.getEmail
    · subst he
      rw [live_addInboundUser_of_ok hok, if_pos ⟨rfl, rfl⟩, if_pos rfl]
    · have hadd : X.table.Spares a.getEmail e ((p.removeInboundUser X env t a.getEmail).live t e)
          (((p.removeInboundUser X env t a.getEmail).addInboundUser X env t a).1.live t e) :=
        spares_addInboundUser he
      rw [if_neg he]
      split_ifs with hkey
      · exact hadd.eq_none (by rw [live_removeInboundUser_of_lands hr, if_pos hkey])
      · rw [hadd.eq_of_key_ne fun h => hkey ⟨rfl, h⟩, live_removeInboundUser_of_lands hr,
          if_neg hkey]
  · rw [live_addInboundUser_ne_tag ht, live_removeInboundUser_ne_tag ht, if_neg fun h => ht h.1]

end Process

/-! ## Removing a user -/

@[simp] theorem Inbound.isActiveInbound_nil (i : Inbound) (s : ProxySettings) :
    i.isActiveInbound [] s = none := by
  simp [Inbound.isActiveInbound]

/-- What is left of `UpdateUsers` on one inbound for a user without
inbounds. -/
def Xray.removeAt (X : Externals) (env : Env) (email : String) (x : Xray) (tag : String) : Xray :=
  ⟨⟨Config.modifyTag tag (fun i => i.removeUser email) x.config.inboundConfigs⟩,
    x.process.removeInboundUser X env tag email⟩

theorem Xray.updateTag_removal {u : User} (hu : u.inbounds = []) (x : Xray)
    (failed : List String) (entry : String × Inbound) :
    Xray.updateTag X env [u] (x, failed) entry = (x.removeAt X env u.email entry.1, failed) := by
  have hup : Config.inboundUpdate X.uuidParse entry.2 [u] =
      ⟨[], (∅ : GoMap String Unit).insert u.email ()⟩ := by
    simp [Config.inboundUpdate, hu]
  have hkeys : ∀ o : Order String,
      o.run ((∅ : GoMap String Unit).insert u.email ()).keys = [u.email] := by
    intro o
    exact List.perm_singleton.1 (o.perm _)
  simp only [Xray.updateTag, hup, hkeys, List.foldl_cons, List.foldl_nil, Xray.removeAt]
  rfl

variable (X env) in
/-- **Removing a user is removing its email, tag by tag.** -/
theorem Xray.updateUsers_removal (u : User) (hu : u.inbounds = []) (x : Xray) :
    ∃ tags : List String, (∀ t, t ∈ tags ↔ t ∈ x.config.tags) ∧
      (x.updateUsers X env [u]).1 = tags.foldl (Xray.removeAt X env u.email) x := by
  refine ⟨(GoMap.range (env.order (.updates [u.email])) x.config.inboundByTag).map Prod.fst,
    fun t => ?_, ?_⟩
  · rw [GoMap.range_keys, Order.mem_run, Config.mem_keys_inboundByTag]
  · have hfold : ∀ (l : List (String × Inbound)) (x : Xray) (failed : List String),
        (l.foldl (Xray.updateTag X env [u]) (x, failed)).1 =
          (l.map Prod.fst).foldl (Xray.removeAt X env u.email) x := by
      intro l
      induction l with
      | nil => intro x failed; rfl
      | cons entry l ih =>
        intro x failed
        rw [List.foldl_cons, Xray.updateTag_removal hu, ih]
        rfl
    exact hfold _ x []

variable (X env) in
theorem Xray.removeAt_fold_frame (email : String) (tags : List String) (x : Xray) :
    (tags.foldl (Xray.removeAt X env email) x).config.shape = x.config.shape ∧
      (tags.foldl (Xray.removeAt X env email) x).process.counters = x.process.counters ∧
      ∀ t e, X.table.Spares email e (x.process.live t e)
        ((tags.foldl (Xray.removeAt X env email) x).process.live t e) := by
  induction tags generalizing x with
  | nil => exact ⟨rfl, rfl, fun _ _ => Or.inl rfl⟩
  | cons tag tags ih =>
    obtain ⟨h₁, h₂, h₃⟩ := ih (x.removeAt X env email tag)
    refine ⟨?_, ?_, fun t e => ?_⟩
    · rw [List.foldl_cons, h₁]
      exact Config.shape_modifyTag (fun i => Inbound.bare_removeUser i email) _ _
    · rw [List.foldl_cons, h₂]
      rfl
    · rw [List.foldl_cons]
      exact Process.spares_removeInboundUser.trans (h₃ t e)

theorem Xray.removeAt_fold_live (hr : env.RemovesOk) (email : String) (tags : List String)
    (x : Xray) (t e : String) :
    (tags.foldl (Xray.removeAt X env email) x).process.live t e =
      if t ∈ tags ∧ X.table.key e = X.table.key email then none else x.process.live t e := by
  induction tags generalizing x with
  | nil => simp
  | cons tag tags ih =>
    rw [List.foldl_cons, ih]
    simp only [Xray.removeAt, Process.live_removeInboundUser hr]
    by_cases hkey : X.table.key e = X.table.key email
    · by_cases h₁ : t ∈ tags <;> by_cases h₂ : t = tag <;> simp [h₁, h₂, hkey]
    · simp [hkey]

/-! ## Syncing a user -/

/-- The account a user has on an inbound. -/
def Inbound.accountOf (X : Externals) (i : Inbound) (u : User) : Option Account :=
  i.isActiveInbound u.inbounds (setupUserAccount X.uuidParse u)

/-- **The accounts a user can have on an inbound**, by the inbound's
protocol: of the protocol's kind, under the user's email, and a key of the
method on a Shadowsocks 2022 inbound. -/
inductive Inbound.Takes (i : Inbound) (u : User) : Account → Prop
  | vless (id : UUID) (flow : String) (hp : i.protocol = .vless) :
      Takes i u (.vless (baseAccount u) id flow)
  | vmess (id : UUID) (hp : i.protocol = .vmess) : Takes i u (.vmess (baseAccount u) id)
  | trojan (password : String) (hp : i.protocol = .trojan) :
      Takes i u (.trojan (baseAccount u) password)
  | shadowsocks (method password : String) (hp : i.protocol = .shadowsocks)
      (hm : i.method2022 = some method) :
      Takes i u (.shadowsocks (baseAccount u) (ensureBase64Password password method))
  | shadowsocksTcp (password method : String) (hp : i.protocol = .shadowsocks)
      (hm : i.method2022 = none) : Takes i u (.shadowsocksTcp (baseAccount u) password method)
  | hysteria (auth : String) (hp : i.protocol = .hysteria) :
      Takes i u (.hysteria (baseAccount u) auth)

theorem Inbound.takes_of_accountOf {i : Inbound} {u : User} {a : Account}
    (h : i.accountOf X u = some a) : i.Takes u a := by
  unfold Inbound.accountOf Inbound.isActiveInbound at h
  split_ifs at h with htag
  simp only [setupUserAccount, newVmessAccount, newVlessAccount] at h
  split at h
  · rename_i hp
    obtain ⟨v, -, h⟩ := Option.bind_eq_some_iff.1 h
    obtain ⟨id, -, rfl⟩ := Option.map_eq_some_iff.1 h
    exact .vless id _ hp
  · rename_i hp
    obtain ⟨v, -, h⟩ := Option.bind_eq_some_iff.1 h
    obtain ⟨id, -, rfl⟩ := Option.map_eq_some_iff.1 h
    exact .vmess id hp
  · rename_i hp
    obtain ⟨v, -, rfl⟩ := Option.map_eq_some_iff.1 h
    exact .trojan _ hp
  · rename_i hp
    -- the one protocol whose account depends on more than the protocol
    split at h
    · rename_i method hm
      rw [Option.map_map] at h
      obtain ⟨v, -, rfl⟩ := Option.map_eq_some_iff.1 h
      exact .shadowsocks method _ hp hm
    · rename_i hm
      obtain ⟨v, -, rfl⟩ := Option.map_eq_some_iff.1 h
      exact .shadowsocksTcp _ _ hp hm
  · rename_i hp
    obtain ⟨v, -, rfl⟩ := Option.map_eq_some_iff.1 h
    exact .hysteria _ hp
  · cases h

theorem Inbound.getEmail_of_accountOf {i : Inbound} {u : User} {a : Account}
    (h : i.accountOf X u = some a) : a.getEmail = u.email := by
  cases Inbound.takes_of_accountOf h <;> rfl

@[simp] theorem Inbound.getEmail_accountForAPI (i : Inbound) (a : Account) :
    (i.accountForAPI a).getEmail = a.getEmail := by
  cases a <;> rfl

/-- An inbound after a user has been synced to it. -/
def Inbound.synced (X : Externals) (u : User) (i : Inbound) : Inbound :=
  match i.accountOf X u with
  | some a => i.updateUser a
  | none => i.removeUser u.email

@[simp] theorem Inbound.bare_synced (u : User) (i : Inbound) : (i.synced X u).bare = i.bare := by
  unfold Inbound.synced
  split <;> rfl

/-- The process after one inbound of the loop, and whether its add
failed. -/
def Process.syncAt (X : Externals) (env : Env) (u : User) (i : Inbound) (p : Process) :
    Process × Bool :=
  let p := p.removeInboundUser X env i.tag u.email
  match i.accountOf X u with
  | some a => p.addInboundUser X env i.tag (i.accountForAPI a)
  | none => (p, false)

/-- **One turn of the loop of `SyncUser`.** -/
theorem Xray.syncInbounds_cons (u : User) (i : Inbound) (rest : List Inbound) (p : Process) :
    Xray.syncInbounds X env u (i :: rest) p =
      if i.exclude then
        let r := Xray.syncInbounds X env u rest p
        (i :: r.1, r.2.1, r.2.2)
      else
        let q := p.syncAt X env u i
        let r := Xray.syncInbounds X env u rest q.1
        (i.synced X u :: r.1, r.2.1, if q.2 then i.tag :: r.2.2 else r.2.2) := by
  rw [Xray.syncInbounds]
  by_cases hex : i.exclude = true
  · simp only [hex, if_true]
  · rw [if_neg hex, if_neg hex]
    have hdef : i.isActiveInbound u.inbounds (setupUserAccount X.uuidParse u) = i.accountOf X u := rfl
    rcases Option.eq_none_or_eq_some (i.accountOf X u) with hacc | ⟨a, hacc⟩
    · simp [Process.syncAt, Inbound.synced, hdef, hacc]
    · simp only [Process.syncAt, Inbound.synced, hdef, hacc]

theorem Xray.syncInbounds_fst (u : User) (l : List Inbound) (p : Process) :
    (Xray.syncInbounds X env u l p).1 = l.map fun i => if i.exclude then i else i.synced X u := by
  induction l generalizing p with
  | nil => rfl
  | cons i rest ih =>
    rw [Xray.syncInbounds_cons]
    by_cases hex : i.exclude = true
    · simp [hex, ih]
    · simp [hex, ih]

theorem Xray.shape_syncUser (x : Xray) (u : User) :
    (x.syncUser X env u).1.config.shape = x.config.shape := by
  simp only [Xray.syncUser, Config.shape]
  rw [Xray.syncInbounds_fst, List.map_map]
  refine List.map_congr_left fun i _ => ?_
  rw [Function.comp_apply]
  split_ifs
  · rfl
  · exact Inbound.bare_synced u i

variable (X env) in
theorem Process.syncAt_frame (u : User) (i : Inbound) (p : Process) :
    (p.syncAt X env u i).1.counters = p.counters ∧
      (∀ t e, e ≠ u.email →
        X.table.Spares u.email e (p.live t e) ((p.syncAt X env u i).1.live t e)) ∧
      ∀ t, (p.syncAt X env u i).1.live t u.email ≠ none → t = i.tag ∨ p.live t u.email ≠ none := by
  unfold Process.syncAt
  cases hacc : i.accountOf X u with
  | none =>
    refine ⟨rfl, fun t e he => spares_removeInboundUser, fun t h => Or.inr ?_⟩
    exact live_of_live_removeInboundUser h
  | some a =>
    have hemail : (i.accountForAPI a).getEmail = u.email := by
      rw [Inbound.getEmail_accountForAPI]
      exact Inbound.getEmail_of_accountOf hacc
    refine ⟨rfl, fun t e he => ?_, fun t h => ?_⟩
    · rw [← hemail] at he ⊢
      exact spares_removeInboundUser.trans (spares_addInboundUser he)
    · exact (live_of_live_addInboundUser h).imp_right live_of_live_removeInboundUser

variable (X env) in
theorem Xray.syncInbounds_frame (u : User) (l : List Inbound) (p : Process) :
    (Xray.syncInbounds X env u l p).2.1.counters = p.counters ∧
      (∀ t e, e ≠ u.email → X.table.Spares u.email e (p.live t e)
        ((Xray.syncInbounds X env u l p).2.1.live t e)) ∧
      ∀ t, (Xray.syncInbounds X env u l p).2.1.live t u.email ≠ none →
        (∃ i ∈ l, i.exclude = false ∧ i.tag = t) ∨ p.live t u.email ≠ none := by
  induction l generalizing p with
  | nil => exact ⟨rfl, fun _ _ _ => Or.inl rfl, fun _ h => Or.inr h⟩
  | cons i rest ih =>
    rw [Xray.syncInbounds_cons]
    by_cases hex : i.exclude = true
    · obtain ⟨h₁, h₂, h₃⟩ := ih p
      simp only [hex, if_true]
      refine ⟨h₁, h₂, fun t h => (h₃ t h).imp_left ?_⟩
      rintro ⟨j, hj, hjt⟩
      exact ⟨j, List.mem_cons_of_mem _ hj, hjt⟩
    · obtain ⟨h₁, h₂, h₃⟩ := ih (p.syncAt X env u i).1
      obtain ⟨g₁, g₂, g₃⟩ := Process.syncAt_frame X env u i p
      simp only [if_neg hex]
      refine ⟨h₁.trans g₁, fun t e he => (g₂ t e he).trans (h₂ t e he), fun t h => ?_⟩
      rcases h₃ t h with ⟨j, hj, hjt⟩ | h
      · exact Or.inl ⟨j, List.mem_cons_of_mem _ hj, hjt⟩
      · refine (g₃ t h).imp_left fun ht => ?_
        exact ⟨i, List.mem_cons_self .., by simpa using hex, ht.symm⟩

variable (X env) in
/-- **A sync puts on the user's email only**, and serves it only on
inbounds of the configuration. -/
theorem Xray.syncUser_frame (x : Xray) (u : User) :
    (x.syncUser X env u).1.process.counters = x.process.counters ∧
      (∀ t e, e ≠ u.email → X.table.Spares u.email e (x.process.live t e)
        ((x.syncUser X env u).1.process.live t e)) ∧
      ∀ t, (x.syncUser X env u).1.process.live t u.email ≠ none →
        t ∈ x.config.tags ∨ x.process.live t u.email ≠ none := by
  obtain ⟨h₁, h₂, h₃⟩ := Xray.syncInbounds_frame X env u x.config.inboundConfigs x.process
  exact ⟨h₁, h₂, fun t h => (h₃ t h).imp_left Config.mem_tags.2⟩

theorem Process.syncAt_ok (ha : env.AddsOk) (u : User) (i : Inbound) (p : Process) :
    (p.syncAt X env u i).2 = false := by
  unfold Process.syncAt
  cases i.accountOf X u with
  | none => rfl
  | some a => exact err_addInboundUser ha

theorem Xray.syncInbounds_ok (ha : env.AddsOk) (u : User) (l : List Inbound) (p : Process) :
    (Xray.syncInbounds X env u l p).2.2 = [] := by
  induction l generalizing p with
  | nil => rfl
  | cons i rest ih =>
    rw [Xray.syncInbounds_cons]
    by_cases hex : i.exclude = true
    · simpa only [hex, if_true] using ih p
    · simpa [if_neg hex, Process.syncAt_ok ha] using ih _

theorem Xray.syncUser_ok (ha : env.AddsOk) (x : Xray) (u : User) :
    (x.syncUser X env u).2 = [] :=
  Xray.syncInbounds_ok ha u x.config.inboundConfigs x.process

/-- What a sync that leaves the user an account leaves an email of its
form. -/
def User.leaves (u : User) (a : Option Account) (e : String) : Option Account :=
  if e = u.email then a else none

@[simp] theorem User.leaves_self (u : User) (a : Option Account) : u.leaves a u.email = a :=
  if_pos rfl

/-- **One inbound's calls, where they gave no error**, leave there the
account the user has, and nobody else of its form. -/
theorem Process.live_syncAt_of_ok (hr : env.RemovesLand) {u : User} {i : Inbound} {p : Process}
    (hok : (p.syncAt X env u i).2 = false) (t e : String) :
    (p.syncAt X env u i).1.live t e =
      if t = i.tag ∧ X.table.key e = X.table.key u.email then
        u.leaves ((i.accountOf X u).map i.accountForAPI) e
      else p.live t e := by
  unfold Process.syncAt User.leaves at *
  cases hacc : i.accountOf X u with
  | none => simp [live_removeInboundUser_of_lands hr]
  | some a =>
    have hemail : (i.accountForAPI a).getEmail = u.email := by
      rw [Inbound.getEmail_accountForAPI]
      exact Inbound.getEmail_of_accountOf hacc
    simp only [hacc, ← hemail] at hok ⊢
    exact live_readd hr hok

theorem Process.syncAt_live (ha : env.AddsOk) (hr : env.RemovesOk) (u : User) (i : Inbound)
    (p : Process) (t e : String) :
    (p.syncAt X env u i).1.live t e =
      if t = i.tag ∧ X.table.key e = X.table.key u.email then
        u.leaves ((i.accountOf X u).map i.accountForAPI) e
      else p.live t e :=
  live_syncAt_of_ok hr.lands (syncAt_ok ha u i p) t e

theorem Xray.syncInbounds_live (ha : env.AddsOk) (hr : env.RemovesOk) (u : User)
    {l : List Inbound} (hnodup : ((l.filter fun i => !i.exclude).map Inbound.tag).Nodup)
    (p : Process) {e : String} (he : X.table.key e = X.table.key u.email) :
    (∀ i ∈ l, i.exclude = false →
      (Xray.syncInbounds X env u l p).2.1.live i.tag e =
        u.leaves ((i.accountOf X u).map i.accountForAPI) e) ∧
    ∀ t, t ∉ (l.filter fun i => !i.exclude).map Inbound.tag →
      (Xray.syncInbounds X env u l p).2.1.live t e = p.live t e := by
  induction l generalizing p with
  | nil => exact ⟨fun _ h => absurd h (List.not_mem_nil), fun _ _ => rfl⟩
  | cons i rest ih =>
    rw [Xray.syncInbounds_cons]
    cases hex : i.exclude with
    | true =>
      rw [List.filter_cons_of_neg (by simp [hex])] at hnodup ⊢
      obtain ⟨h₁, h₂⟩ := ih hnodup p
      refine ⟨fun j hj hjex => ?_, h₂⟩
      rcases List.mem_cons.1 hj with rfl | hj
      · rw [hex] at hjex
        cases hjex
      · exact h₁ j hj hjex
    | false =>
      rw [List.filter_cons_of_pos (by simp [hex])] at hnodup ⊢
      rw [List.map_cons, List.nodup_cons] at hnodup
      obtain ⟨h₁, h₂⟩ := ih hnodup.2 (p.syncAt X env u i).1
      simp only [Bool.false_eq_true, if_false]
      refine ⟨fun j hj hjex => ?_, fun t ht => ?_⟩
      · rcases List.mem_cons.1 hj with rfl | hj
        · rw [h₂ _ hnodup.1, Process.syncAt_live ha hr, if_pos ⟨rfl, he⟩]
        · exact h₁ j hj hjex
      · rw [List.map_cons, List.mem_cons, not_or] at ht
        rw [h₂ t ht.2, Process.syncAt_live ha hr, if_neg fun h => ht.1 h.1]

theorem Process.syncAt_live_ne {t : String} {u : User} {i : Inbound} (ht : t ≠ i.tag)
    (p : Process) (e : String) : (p.syncAt X env u i).1.live t e = p.live t e := by
  unfold Process.syncAt
  cases i.accountOf X u with
  | none => exact live_removeInboundUser_ne_tag ht
  | some a => exact (live_addInboundUser_ne_tag ht).trans (live_removeInboundUser_ne_tag ht)

theorem Process.syncAt_live_of_ok {u : User} {i : Inbound} {a : Account} {p : Process}
    (h : (p.syncAt X env u i).2 = false) (ha : i.accountOf X u = some a) :
    (p.syncAt X env u i).1.live i.tag u.email = some (i.accountForAPI a) := by
  have hemail : (i.accountForAPI a).getEmail = u.email := by
    rw [Inbound.getEmail_accountForAPI]
    exact Inbound.getEmail_of_accountOf ha
  simp only [Process.syncAt, ha] at h ⊢
  rw [← hemail]
  exact live_addInboundUser_of_ok h

/-- **What a sync leaves where nothing fails**: on each inbound that takes
users, the account the user has there. -/
theorem Xray.syncUser_live (ha : env.AddsOk) (hr : env.RemovesOk) {x : Xray}
    (hnodup : x.config.tags.Nodup) (u : User) {i : Inbound} (hi : i ∈ x.config.inboundConfigs)
    (hex : i.exclude = false) {e : String} (he : X.table.key e = X.table.key u.email) :
    (x.syncUser X env u).1.process.live i.tag e =
      u.leaves ((i.accountOf X u).map i.accountForAPI) e :=
  (Xray.syncInbounds_live ha hr u hnodup x.process he).1 i hi hex

end NodeAgent
