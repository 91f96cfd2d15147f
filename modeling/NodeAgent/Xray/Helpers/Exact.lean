import NodeAgent.Xray.Helpers.Start
/-!
# A core that serves a directory

A directory says which user, if any, an email stands for. A core is exact
for a directory if every inbound serves each email with the credential its
user has there, and the clients kept for the next start are those same
accounts. A sync, a removal and a restart keep a core exact, for the
directory as they change it, as long as Xray tells the emails apart. Two
things are needed of Xray: that it refuses
a configuration with two inbounds of one tag, and one with a Shadowsocks
2022 method it does not know, for the key derivation is not idempotent on
such.
-/

namespace NodeAgent

open GoStrings

variable {X : Externals} {env : Env} {x : Xray} {i j : Inbound} {u : User} {a : Account}
variable {D : String → Option User} {K : Set String}

/-! ## Keys -/

/-- The Shadowsocks 2022 methods Xray knows. -/
def methods2022 : List String :=
  ["2022-blake3-aes-128-gcm", "2022-blake3-aes-256-gcm", "2022-blake3-chacha20-poly1305"]

/-- A key has the length of the method. -/
def keyFits (method : String) (key : List UInt8) : Bool :=
  (contains method "aes-128-gcm" && key.length == 16) ||
    ((contains method "aes-256-gcm" || contains method "chacha20-poly1305") && key.length == 32)

/-- The key a password is hashed to. -/
def hashedKey (password method : String) : List UInt8 :=
  if contains method "aes-128-gcm" then (Sha256.sum256 password.toUTF8.toList).take 16
  else (Sha256.sum256 password.toUTF8.toList).take 32

theorem ensureBase64Password_eq (password method : String) :
    ensureBase64Password password method =
      if (Base64.decodeString password).any (keyFits method) then password
      else Base64.encodeToString (hashedKey password method) :=
  rfl

/-- The length of the keys of a known method. -/
def keyLength (method : String) : ℕ :=
  if method = "2022-blake3-aes-128-gcm" then 16 else 32

variable {method : String}

theorem contains_of_known (h : method ∈ methods2022) :
    contains method "aes-128-gcm" = decide (keyLength method = 16) ∧
      (contains method "aes-256-gcm" || contains method "chacha20-poly1305") =
        decide (keyLength method = 32) := by
  simp only [methods2022, List.mem_cons, List.not_mem_nil, or_false] at h
  rcases h with rfl | rfl | rfl <;> decide

theorem keyLength_eq (method : String) : keyLength method = 16 ∨ keyLength method = 32 := by
  unfold keyLength
  split_ifs <;> simp

theorem keyFits_iff (h : method ∈ methods2022) {key : List UInt8} :
    keyFits method key = true ↔ key.length = keyLength method := by
  obtain ⟨hshort, hlong⟩ := contains_of_known h
  rw [keyFits, hshort, hlong]
  rcases keyLength_eq method with hlen | hlen <;> simp [hlen]

theorem length_cut (h : method ∈ methods2022) {hash : List UInt8} (hhash : hash.length = 32) :
    (if contains method "aes-128-gcm" then hash.take 16 else hash.take 32).length =
      keyLength method := by
  rw [(contains_of_known h).1]
  rcases keyLength_eq method with hlen | hlen <;> simp [hlen, hhash]

theorem keyFits_hashedKey (h : method ∈ methods2022) (password : String) :
    keyFits method (hashedKey password method) = true :=
  (keyFits_iff h).2 (length_cut h (Sha256.length_sum256 _))

/-- **A key made for a known method is kept.** -/
theorem ensureBase64Password_idem (h : method ∈ methods2022) (password : String) :
    ensureBase64Password (ensureBase64Password password method) method =
      ensureBase64Password password method := by
  rw [ensureBase64Password_eq password]
  split_ifs with hfits
  · rw [ensureBase64Password_eq, if_pos hfits]
  · rw [ensureBase64Password_eq, Base64.decodeString_encodeToString, Option.any_some,
      if_pos (keyFits_hashedKey h password)]

/-! ## Accounts and clients -/

/-- What an account holds but for the flow, which the API may override and
a start from the configuration does not. -/
def Account.credential : Account → Account
  | .vless base id _ => .vless base id ""
  | account => account

@[simp] theorem Inbound.credential_accountForAPI (i : Inbound) (a : Account) :
    (i.accountForAPI a).credential = a.credential := by
  cases a <;> rfl

theorem Inbound.accepts_of_accountOf (h : i.accountOf X u = some a) : i.accepts a = true := by
  cases Inbound.takes_of_accountOf h with
  | vless id flow hp => simp [Inbound.accepts, hp]
  | vmess id hp => simp [Inbound.accepts, hp]
  | trojan password hp => simp [Inbound.accepts, hp]
  | shadowsocks method password hp hm => simp [Inbound.accepts, hp, hm]
  | shadowsocksTcp password method hp hm => simp [Inbound.accepts, hp, hm]
  | hysteria auth hp => simp [Inbound.accepts, hp]

/-- **Recording a user's account records it as it is**, if the method is
known. -/
theorem Inbound.clients_updateUser
    (hm : ∀ method, i.method2022 = some method → method ∈ methods2022)
    (h : i.accountOf X u = some a) : (i.updateUser a).clients = i.clients.insert u.email a := by
  have hemail : a.getEmail = u.email := Inbound.getEmail_of_accountOf h
  rw [← hemail]
  cases Inbound.takes_of_accountOf h with
  | shadowsocks method password _ hmethod =>
    -- the account is keyed already, and recording it keys it once more
    have hsome : i.method = some method := (Option.filter_eq_some_iff.1 hmethod).1
    simp only [Inbound.updateUser, hsome, checkShadowsocks2022,
      ensureBase64Password_idem (hm method hmethod)]
  | _ => rfl

/-- **What an inbound keeps after a sync.** -/
theorem Inbound.served_synced
    (hm : ∀ method, i.method2022 = some method → method ∈ methods2022) (u : User) (e : String) :
    (i.synced X u).served e = if e = u.email then i.accountOf X u else i.served e := by
  unfold Inbound.synced
  cases hacc : i.accountOf X u with
  | none =>
    show ((i.clients.erase u.email).lookup e).filter i.accepts = _
    rw [GoMap.lookup_erase_eq]
    split_ifs <;> rfl
  | some a =>
    show ((i.updateUser a).clients.lookup e).filter i.accepts = _
    rw [Inbound.clients_updateUser hm hacc, GoMap.lookup_insert_eq]
    split_ifs
    · rw [Option.filter_some, if_pos (Inbound.accepts_of_accountOf hacc)]
    · rfl

/-! ## Configurations Xray takes -/

/-- **What Xray refuses**: two inbounds with one tag, and a 2022 method it
does not know. -/
structure Externals.Strict (X : Externals) : Prop where
  distinct : ∀ c, X.accepts c = true → (c.inboundConfigs.map Inbound.tag).Nodup
  methods : ∀ c, X.accepts c = true → ∀ i ∈ c.inboundConfigs, ∀ method,
    i.method2022 = some method → method ∈ methods2022

/-- A configuration whose inbounds all take users, under tags and with
methods as Xray has them. -/
structure Config.Sane (c : Config) : Prop where
  taken : ∀ i ∈ c.inboundConfigs, i.exclude = false
  distinct : (c.inboundConfigs.map Inbound.tag).Nodup
  methods : ∀ i ∈ c.inboundConfigs, ∀ method, i.method2022 = some method → method ∈ methods2022

theorem Config.Sane.tags_nodup {c : Config} (h : c.Sane) : c.tags.Nodup :=
  h.distinct.sublist (List.filter_sublist.map _)

theorem Config.Sane.congr {c d : Config} (h : c.Sane) (hshape : d.shape = c.shape) : d.Sane := by
  have hmem : ∀ i ∈ d.inboundConfigs, ∃ j ∈ c.inboundConfigs, j.bare = i.bare := by
    intro i hi
    have hbare : i.bare ∈ c.shape := by
      rw [← hshape]
      exact List.mem_map_of_mem hi
    exact List.mem_map.1 hbare
  have htags : d.inboundConfigs.map Inbound.tag = c.inboundConfigs.map Inbound.tag := by
    have hmap := congrArg (List.map Inbound.tag) hshape
    rw [Config.shape, Config.shape, List.map_map, List.map_map] at hmap
    exact hmap
  refine ⟨fun i hi => ?_, by rw [htags]; exact h.distinct, fun i hi method hm => ?_⟩
  · obtain ⟨j, hj, hbare⟩ := hmem i hi
    exact (congrArg Inbound.exclude hbare).symm.trans (h.taken j hj)
  · obtain ⟨j, hj, hbare⟩ := hmem i hi
    exact h.methods j hj method ((congrArg Inbound.method2022 hbare).trans hm)

theorem Inbound.tag_congr (h : i.bare = j.bare) : i.tag = j.tag := by
  have hbare : ∀ k : Inbound, k.bare.tag = k.tag := fun _ => rfl
  rw [← hbare i, h, hbare j]

theorem Inbound.accountOf_congr (h : i.bare = j.bare) : i.accountOf X = j.accountOf X := by
  have hbare : ∀ k : Inbound, k.bare.accountOf X = k.accountOf X := fun _ => rfl
  rw [← hbare i, h, hbare j]

theorem Inbound.accountForAPI_congr (h : i.bare = j.bare) :
    i.accountForAPI = j.accountForAPI := by
  have hbare : ∀ k : Inbound, k.bare.accountForAPI = k.accountForAPI := fun _ => rfl
  rw [← hbare i, h, hbare j]

theorem Inbound.accepts_congr (h : i.bare = j.bare) : i.accepts = j.accepts := by
  have hbare : ∀ k : Inbound, k.bare.accepts = k.accepts := fun k => by
    funext a
    cases a <;> rfl
  rw [← hbare i, h, hbare j]

theorem Inbound.exclude_congr (h : i.bare = j.bare) : i.exclude = j.exclude := by
  have hbare : ∀ k : Inbound, k.bare.exclude = k.exclude := fun _ => rfl
  rw [← hbare i, h, hbare j]

theorem Inbound.find?_tag {l : List Inbound} (hnodup : (l.map Inbound.tag).Nodup) (hi : i ∈ l)
    {p : Inbound → Bool} (hp : p i = true) (htag : ∀ j, p j = true → j.tag = i.tag) :
    l.find? p = some i := by
  cases hfound : l.find? p with
  | none => exact absurd hp (List.find?_eq_none.1 hfound i hi)
  | some j =>
    exact congrArg some (List.inj_on_of_nodup_map hnodup (List.mem_of_find?_eq_some hfound) hi
      (htag j (List.find?_some hfound)))

theorem Config.modifyTag_eq_map {tag : String} {f : Inbound → Inbound} {l : List Inbound}
    (hnodup : ((l.filter fun i => !i.exclude).map Inbound.tag).Nodup) :
    Config.modifyTag tag f l =
      l.map fun i => if i.tag = tag ∧ i.exclude = false then f i else i := by
  induction l with
  | nil => rfl
  | cons i l ih =>
    rw [Config.modifyTag, List.map_cons]
    by_cases hit : i.tag = tag ∧ i.exclude = false
    · rw [List.filter_cons_of_pos (by simp [hit.2]), List.map_cons, List.nodup_cons] at hnodup
      have hother : ∀ j ∈ l, ¬ (j.tag = tag ∧ j.exclude = false) := by
        rintro j hj ⟨hjt, hjex⟩
        exact hnodup.1 (List.mem_map.2 ⟨j, List.mem_filter.2 ⟨hj, by simp [hjex]⟩,
          hjt.trans hit.1.symm⟩)
      have hsame : (l.map fun i => if i.tag = tag ∧ i.exclude = false then f i else i) = l := by
        refine (List.map_congr_left fun j hj => if_neg (hother j hj)).trans ?_
        exact List.map_id' l
      have hrest : ∀ j ∈ l, j.tag = tag → j.exclude = true := by
        intro j hj hjt
        by_contra hjex
        exact hother j hj ⟨hjt, Bool.eq_false_iff.2 hjex⟩
      rw [if_pos ⟨hit.1, hit.2, hrest⟩, if_pos hit, hsame]
    · have hrest : ((l.filter fun i => !i.exclude).map Inbound.tag).Nodup := by
        refine hnodup.sublist ((List.Sublist.filter _ (List.sublist_cons_self i l)).map _)
      rw [if_neg fun h => hit ⟨h.1, h.2.1⟩, if_neg hit, ih hrest]

variable (X env) in
theorem Xray.removeAt_fold_clients (email : String) (tags : List String) {x : Xray}
    (hx : x.config.Sane) :
    ∀ i' ∈ (tags.foldl (Xray.removeAt X env email) x).config.inboundConfigs,
      ∃ i ∈ x.config.inboundConfigs, i'.bare = i.bare ∧
        ∀ e, i'.clients.lookup e =
          if e = email ∧ i.tag ∈ tags then none else i.clients.lookup e := by
  induction tags generalizing x with
  | nil => exact fun i hi => ⟨i, hi, rfl, fun e => by simp⟩
  | cons tag tags ih =>
    have hinbounds : (x.removeAt X env email tag).config.inboundConfigs =
        x.config.inboundConfigs.map fun i => if i.tag = tag then i.removeUser email else i := by
      refine (Config.modifyTag_eq_map hx.tags_nodup).trans (List.map_congr_left fun i hi => ?_)
      simp only [hx.taken i hi, and_true]
    have hsane : (x.removeAt X env email tag).config.Sane :=
      hx.congr (Config.shape_modifyTag (fun i => Inbound.bare_removeUser i email) _ _)
    intro i' hi'
    obtain ⟨i₁, hi₁, hbare₁, hlookup₁⟩ := ih hsane i' hi'
    rw [hinbounds] at hi₁
    obtain ⟨i, hi, rfl⟩ := List.mem_map.1 hi₁
    refine ⟨i, hi, hbare₁.trans ?_, fun e => (hlookup₁ e).trans ?_⟩
    · split_ifs <;> rfl
    · by_cases htag : i.tag = tag
      · simp only [List.mem_cons, htag, true_or, and_true]
        show (if e = email ∧ i.tag ∈ tags then none else (i.clients.erase email).lookup e) = _
        rw [GoMap.lookup_erase_eq]
        by_cases he : e = email <;> simp [he]
      · simp only [List.mem_cons, htag, false_or, if_false]

/-! ## Exact cores -/

/-- **A core that serves a directory** of emails from a set. If Xray does
not tell those of the set apart it may have lost some. -/
structure Xray.Exact (X : Externals) (K : Set String) (D : String → Option User) (x : Xray) :
    Prop where
  sane : x.config.Sane
  listed : ∀ e, D e ≠ none → e ∈ K
  /-- Who is live, and with which credential. -/
  live : ∀ i ∈ x.config.inboundConfigs, ∀ e,
    (x.process.live i.tag e).map Account.credential =
        ((D e).bind (i.accountOf X)).map Account.credential ∨
      ¬ Set.InjOn X.table.key K ∧ x.process.live i.tag e = none
  /-- The clients a start from the configuration would serve. -/
  kept : ∀ i ∈ x.config.inboundConfigs, ∀ e, i.served e = (D e).bind (i.accountOf X)

namespace Xray.Exact

theorem of_fresh (hX : X.Strict) (hx : x.Fresh X) : x.Exact X K fun _ => none := by
  refine ⟨⟨fun i hi => (hx.empty i hi).2, hX.distinct _ hx.accepted, hX.methods _ hx.accepted⟩,
    fun e he => absurd rfl he, fun i hi e => Or.inl ?_, fun i hi e => ?_⟩
  · rw [hx.live]
    rfl
  · rw [Inbound.served, (hx.empty i hi).1]
    rfl

theorem live_of_injOn (h : x.Exact X K D) (hK : Set.InjOn X.table.key K)
    (hi : i ∈ x.config.inboundConfigs) (e : String) :
    (x.process.live i.tag e).map Account.credential =
      ((D e).bind (i.accountOf X)).map Account.credential :=
  (h.live i hi e).resolve_right fun h => h.1 hK

theorem live_of_spares (h : x.Exact X K D) (hi : i ∈ x.config.inboundConfigs) {email e : String}
    {a : Option Account} (hemail : email ∈ K) (he : e ≠ email)
    (hspared : X.table.Spares email e (x.process.live i.tag e) a) :
    a.map Account.credential = ((D e).bind (i.accountOf X)).map Account.credential ∨
      ¬ Set.InjOn X.table.key K ∧ a = none := by
  rcases hspared with rfl | ⟨hkey, rfl⟩
  · exact h.live i hi e
  · by_cases hmem : e ∈ K
    · exact Or.inr ⟨fun hK => he (hK hmem hemail hkey), rfl⟩
    · -- an email that is not of the set is nobody's
      have hnone : D e = none := by
        by_contra hD
        exact hmem (h.listed e hD)
      exact Or.inl (by rw [hnone]; rfl)

/-- **A sync enters the user.** -/
theorem syncUser (h : x.Exact X K D) (ha : env.AddsOk) (hr : env.RemovesOk) (u : User)
    (hu : u.email ∈ K) :
    (x.syncUser X env u).1.Exact X K (Function.update D u.email (some u)) := by
  have hinbounds : (x.syncUser X env u).1.config.inboundConfigs =
      x.config.inboundConfigs.map (Inbound.synced X u) := by
    refine (Xray.syncInbounds_fst u _ _).trans (List.map_congr_left fun i hi => ?_)
    rw [h.sane.taken i hi]
    rfl
  obtain ⟨-, hother, -⟩ := Xray.syncUser_frame X env x u
  refine ⟨h.sane.congr (Xray.shape_syncUser x u), fun e he => ?_, fun i' hi' e => ?_,
    fun i' hi' e => ?_⟩
  · rw [Function.update_apply] at he
    split_ifs at he with heq
    · exact heq ▸ hu
    · exact h.listed e he
  · -- live: the calls of this sync decide for its email, and put on no other
    rw [hinbounds] at hi'
    obtain ⟨i, hi, rfl⟩ := List.mem_map.1 hi'
    have hbare := Inbound.bare_synced (X := X) u i
    have htag := Inbound.tag_congr hbare
    rw [Inbound.accountOf_congr hbare, htag]
    by_cases he : e = u.email
    · refine Or.inl ?_
      rw [he, Function.update_self,
        Xray.syncUser_live ha hr h.sane.tags_nodup u hi (h.sane.taken i hi) rfl,
        User.leaves_self, Option.map_map, Option.bind_some]
      exact congrArg (fun f => (i.accountOf X u).map f)
        (funext fun a => Inbound.credential_accountForAPI i a)
    · rw [Function.update_of_ne he]
      exact h.live_of_spares hi hu he (hother i.tag e he)
  · -- kept: the client recorded is the account the call was made with
    rw [hinbounds] at hi'
    obtain ⟨i, hi, rfl⟩ := List.mem_map.1 hi'
    rw [Inbound.accountOf_congr (Inbound.bare_synced u i),
      Inbound.served_synced (h.sane.methods i hi), Function.update_apply]
    split_ifs
    · rfl
    · exact h.kept i hi e

/-- **A removal strikes the email out.** -/
theorem removal (h : x.Exact X K D) (hr : env.RemovesOk) (hu : u.inbounds = [])
    (hmem : u.email ∈ K) :
    (x.updateUsers X env [u]).1.Exact X K (Function.update D u.email none) := by
  obtain ⟨tags, hin, heq⟩ := Xray.updateUsers_removal X env u hu x
  obtain ⟨hshape, -, hother⟩ := Xray.removeAt_fold_frame X env u.email tags x
  have hclients := Xray.removeAt_fold_clients X env u.email tags h.sane
  have htags : ∀ i ∈ x.config.inboundConfigs, i.tag ∈ tags := fun i hi =>
    (hin i.tag).2 (Config.mem_tags.2 ⟨i, hi, h.sane.taken i hi, rfl⟩)
  rw [heq]
  refine ⟨h.sane.congr hshape, fun e he => ?_, fun i' hi' e => ?_, fun i' hi' e => ?_⟩
  · rw [Function.update_apply] at he
    split_ifs at he
    · exact absurd rfl he
    · exact h.listed e he
  · obtain ⟨i, hi, hbare, -⟩ := hclients i' hi'
    have htag := Inbound.tag_congr hbare
    rw [Inbound.accountOf_congr hbare, htag, Function.update_apply]
    split_ifs with he
    · refine Or.inl ?_
      rw [he, Xray.removeAt_fold_live hr, if_pos ⟨htags i hi, rfl⟩]
      rfl
    · exact h.live_of_spares hi hmem he (hother i.tag e)
  · obtain ⟨i, hi, hbare, hlookup⟩ := hclients i' hi'
    rw [Inbound.accountOf_congr hbare, Inbound.served, hlookup, Inbound.accepts_congr hbare,
      Function.update_apply]
    simp only [htags i hi, and_true]
    split_ifs
    · rfl
    · exact h.kept i hi e

/-- **A start from the configuration serves the same directory.** -/
theorem restart (h : x.Exact X K D) : x.restart.Exact X K D := by
  refine ⟨h.sane, h.listed, fun i hi e => Or.inl ?_, h.kept⟩
  -- tags are distinct, so each inbound is the one found under its tag
  have hfind : (x.config.inboundConfigs.find? fun j => j.tag = i.tag ∧ j.exclude = false) =
      some i :=
    Inbound.find?_tag h.sane.distinct hi (by simp [h.sane.taken i hi])
      fun j hj => (of_decide_eq_true hj).1
  show (Config.servedClients x.config i.tag e).map Account.credential = _
  rw [Config.servedClients, hfind, Option.bind_some, h.kept i hi e]

end Xray.Exact

end NodeAgent
