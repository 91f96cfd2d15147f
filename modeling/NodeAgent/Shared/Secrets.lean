import NodeAgent.Shared.Refinement
import NodeAgent.Shared.Helpers.Sets
import NodeAgent.Common.Uuid
/-!
# Whose secret is it?

The manager tells credentials apart by the text a customer sends, and Xray
by what is made of it: a UUID is parsed, a Shadowsocks 2022 password
becomes a key. Two tenants' users on one inbound have different secrets
exactly where that loses nothing: no two texts of theirs stand for one
secret, and none is empty, for an empty one is not indexed at all.
-/

namespace NodeAgent

variable {X : Externals} {env : Env} {m m' : Manager} {T T' : String} {us : List User}
variable {u v : User} {i : Inbound} {a b : Account}

/-! ## Secrets and their spellings -/

/-- What a client shows to be let in. -/
inductive Secret
  | uuid (id : UUID)
  | text (s : String)
  deriving DecidableEq

/-- The secret of an account. -/
def Account.secret : Account → Secret
  | .vmess _ id => .uuid id
  | .vless _ id _ => .uuid id
  | .trojan _ password => .text password
  | .shadowsocksTcp _ password _ => .text password
  | .shadowsocks _ password => .text password
  | .hysteria _ auth => .text auth

@[simp] theorem Account.secret_credential (a : Account) : a.credential.secret = a.secret := by
  cases a <;> rfl

/-- The text a customer sends for a protocol. -/
def Protocol.spelling (p : Protocol) (u : User) : Option String :=
  match p with
  | .vless => u.getVless.map Vless.id
  | .vmess => u.getVmess.map Vmess.id
  | .trojan => u.getTrojan.map Trojan.password
  | .shadowsocks => u.getShadowsocks.map Shadowsocks.password
  | .hysteria => u.getHysteria.map Hysteria.auth
  | .other _ => none

/-- What is put before it in the index. -/
def Protocol.kind : Protocol → String
  | .vless => "vless:"
  | .vmess => "vmess:"
  | .trojan => "trojan:"
  | .shadowsocks => "ss:"
  | .hysteria => "hy:"
  | .other _ => ""

/-- **A text that is not empty is a credential.** -/
theorem Protocol.mem_userCredentials {p : Protocol} {raw : String} (h : p.spelling u = some raw)
    (hraw : raw ≠ "") : p.kind ++ raw ∈ userCredentials u := by
  have hcred : ∀ kind, kind ++ raw ∈ credential kind raw := by
    intro kind
    simp [credential, hraw]
  simp only [userCredentials, List.mem_append, List.mem_flatMap, Option.mem_toList]
  cases p with
  | vless =>
    obtain ⟨q, hq, rfl⟩ := Option.map_eq_some_iff.1 h
    exact Or.inl (Or.inl (Or.inl (Or.inl ⟨q, hq, hcred _⟩)))
  | vmess =>
    obtain ⟨q, hq, rfl⟩ := Option.map_eq_some_iff.1 h
    exact Or.inl (Or.inl (Or.inl (Or.inr ⟨q, hq, hcred _⟩)))
  | trojan =>
    obtain ⟨q, hq, rfl⟩ := Option.map_eq_some_iff.1 h
    exact Or.inl (Or.inl (Or.inr ⟨q, hq, hcred _⟩))
  | shadowsocks =>
    obtain ⟨q, hq, rfl⟩ := Option.map_eq_some_iff.1 h
    exact Or.inl (Or.inr ⟨q, hq, hcred _⟩)
  | hysteria =>
    obtain ⟨q, hq, rfl⟩ := Option.map_eq_some_iff.1 h
    exact Or.inr ⟨q, hq, hcred _⟩
  | other name => cases h

/-- The secret an inbound makes of a text. -/
def Inbound.decode (X : Externals) (i : Inbound) (raw : String) : Option Secret :=
  match i.protocol with
  | .vless | .vmess => (X.uuidParse raw).map .uuid
  | .shadowsocks => some (.text (i.method2022.elim raw (ensureBase64Password raw)))
  | .trojan | .hysteria => some (.text raw)
  | .other _ => none

/-- **The secret of a user's account on an inbound is the one its text
stands for.** -/
theorem Inbound.secret_of_accountOf (h : i.accountOf X u = some a) :
    ∃ raw, i.protocol.spelling u = some raw ∧ i.decode X raw = some a.secret := by
  unfold Inbound.accountOf Inbound.isActiveInbound setupUserAccount at h
  unfold Inbound.decode Protocol.spelling
  split_ifs at h
  cases hp : i.protocol with
  | vless =>
    simp only [hp] at h
    obtain ⟨q, hq, h⟩ := Option.bind_eq_some_iff.1 h
    obtain ⟨id, hid, rfl⟩ := Option.map_eq_some_iff.1 h
    rw [hq] at hid
    exact ⟨q.id, by rw [hq]; rfl, by rw [show X.uuidParse q.id = some id from hid]; rfl⟩
  | vmess =>
    simp only [hp] at h
    obtain ⟨q, hq, h⟩ := Option.bind_eq_some_iff.1 h
    obtain ⟨id, hid, rfl⟩ := Option.map_eq_some_iff.1 h
    rw [hq] at hid
    exact ⟨q.id, by rw [hq]; rfl, by rw [show X.uuidParse q.id = some id from hid]; rfl⟩
  | trojan =>
    simp only [hp] at h
    obtain ⟨q, hq, rfl⟩ := Option.map_eq_some_iff.1 h
    exact ⟨q.password, by rw [hq]; rfl, by simp [newTrojanAccount, hq, Account.secret]⟩
  | shadowsocks =>
    simp only [hp] at h
    cases hm : i.method2022 with
    | none =>
      simp only [hm] at h
      obtain ⟨q, hq, rfl⟩ := Option.map_eq_some_iff.1 h
      exact ⟨q.password, by rw [hq]; rfl,
        by simp [newShadowsocksTcpAccount, hq, Account.secret]⟩
    | some method =>
      simp only [hm] at h
      obtain ⟨c, hc, rfl⟩ := Option.map_eq_some_iff.1 h
      obtain ⟨q, hq, rfl⟩ := Option.map_eq_some_iff.1 hc
      exact ⟨q.password, by rw [hq]; rfl,
        by simp [newShadowsocksAccount, checkShadowsocks2022, hq, Account.secret]⟩
  | hysteria =>
    simp only [hp] at h
    obtain ⟨q, hq, rfl⟩ := Option.map_eq_some_iff.1 h
    exact ⟨q.auth, by rw [hq]; rfl, by simp [newHysteriaAccount, hq, Account.secret]⟩
  | other name =>
    simp only [hp] at h
    cases h

/-- **Two users spell their secrets apart on an inbound**: if their texts
stand for one secret, it is one text, and it is not empty. -/
def Inbound.SpeltApart (X : Externals) (i : Inbound) (u v : User) : Prop :=
  ∀ raw raw' s, i.protocol.spelling u = some raw → i.protocol.spelling v = some raw' →
    i.decode X raw = some s → i.decode X raw' = some s → raw = raw' ∧ raw ≠ ""

theorem Inbound.SpeltApart.symm (h : i.SpeltApart X u v) : i.SpeltApart X v u := by
  intro raw raw' s hraw hraw' hs hs'
  obtain ⟨heq, hne⟩ := h raw' raw s hraw' hraw hs' hs
  exact ⟨heq.symm, heq ▸ hne⟩

theorem Inbound.SpeltApart.shared (h : i.SpeltApart X u v) (ha : i.accountOf X u = some a)
    (hb : i.accountOf X v = some b) (heq : a.secret = b.secret) :
    ∃ c ∈ userCredentials u, c ∈ userCredentials v := by
  obtain ⟨raw, hraw, hs⟩ := Inbound.secret_of_accountOf ha
  obtain ⟨raw', hraw', hs'⟩ := Inbound.secret_of_accountOf hb
  obtain ⟨rfl, hne⟩ := h raw raw' a.secret hraw hraw' hs (heq ▸ hs')
  exact ⟨_, Protocol.mem_userCredentials hraw hne, Protocol.mem_userCredentials hraw' hne⟩

/-! ## On a node -/

theorem Refined.account_of_live {K : Set String} (h : Refined X K m) {x : Xray}
    (hx : m.live.core = some x)
    (hi : i ∈ x.config.inboundConfigs) {e : String} (ha : x.process.live i.tag e = some a)
    (hu : (m.usersOf T).lookup e = some u) :
    ∃ c, i.accountOf X u = some c ∧ c.secret = a.secret := by
  have hlive := ((h.exact x hx).live i hi e).resolve_right (by simp [ha])
  rw [ha, Option.map_some] at hlive
  obtain ⟨c, hc, hcred⟩ := Option.map_eq_some_iff.1 hlive.symm
  obtain ⟨w, hw, hacc⟩ := Option.bind_eq_some_iff.1 hc
  -- the directory has one user for the email, the one in the set
  obtain ⟨T', -, hw'⟩ := h.coherent.directory_eq_some_iff.1 hw
  obtain rfl : T' = T := h.coherent.tenant_unique (GoMap.mem_keys_iff.2 ⟨w, hw'⟩)
    (GoMap.mem_keys_iff.2 ⟨u, hu⟩)
  obtain rfl : w = u := Option.some.inj (hw'.symm.trans hu)
  exact ⟨c, hacc, by rw [← Account.secret_credential c, hcred, Account.secret_credential]⟩

/-- **Users of two tenants on one inbound have different secrets if and
only if they spell them apart.** -/
theorem Refined.secret_ne_iff {K : Set String} (h : Refined X K m) {x : Xray}
    (hx : m.live.core = some x)
    (hi : i ∈ x.config.inboundConfigs) {e e' : String} (hT : T ≠ T')
    (hu : (m.usersOf T).lookup e = some u) (hv : (m.usersOf T').lookup e' = some v)
    (ha : x.process.live i.tag e = some a) (hb : x.process.live i.tag e' = some b) :
    a.secret ≠ b.secret ↔ i.SpeltApart X u v := by
  obtain ⟨c, hc, hca⟩ := h.account_of_live hx hi ha hu
  obtain ⟨d, hd, hdb⟩ := h.account_of_live hx hi hb hv
  rw [← hca, ← hdb]
  constructor
  · intro hne raw raw' s hraw hraw' hs hs'
    obtain ⟨r, hr, hsr⟩ := Inbound.secret_of_accountOf hc
    obtain ⟨r', hr', hsr'⟩ := Inbound.secret_of_accountOf hd
    obtain rfl : r = raw := Option.some.inj (hr.symm.trans hraw)
    obtain rfl : r' = raw' := Option.some.inj (hr'.symm.trans hraw')
    refine absurd ?_ hne
    exact (Option.some.inj (hsr.symm.trans hs)).trans (Option.some.inj (hsr'.symm.trans hs')).symm
  · intro hspelt heq
    obtain ⟨cred, hcu, hcv⟩ := hspelt.shared hc hd heq
    exact hT (h.coherent.exclusive hu hcu hv hcv)

/-- The users of different tenants spell their secrets apart. -/
def SpeltBooks (X : Externals) (m : Manager) : Prop :=
  ∀ T T' x x' u v, T ≠ T' → (m.usersOf T).lookup x = some u → (m.usersOf T').lookup x' = some v →
    ∀ i : Inbound, i.SpeltApart X u v

/-- **A step whose users spell their secrets apart** from those of the
other tenants. -/
def SpeltStep (X : Externals) (m : Manager) (l : Env × Op) : Prop :=
  ∀ T us, l.2 = .setUsers T us ∨ l.2 = .addUsers T us → ∀ u ∈ us, ∀ T' x v, T' ≠ T →
    (m.usersOf T').lookup x = some v → ∀ i : Inbound, i.SpeltApart X u v

namespace SpeltBooks

theorem taken (h : SpeltBooks X m) (hm' : Manager.TakenFrom m T us m')
    (hus : ∀ u ∈ us, ∀ T' x v, T' ≠ T → (m.usersOf T').lookup x = some v →
      ∀ i : Inbound, i.SpeltApart X u v) : SpeltBooks X m' := by
  -- one of the two users is of the tenant the call is about, or neither is
  have hone : ∀ T' x x' u v, T' ≠ T → (m'.usersOf T).lookup x = some u →
      (m'.usersOf T').lookup x' = some v → ∀ i : Inbound, i.SpeltApart X u v := by
    intro T' x x' u v hT' hu hv i
    rw [hm'.others T' hT'] at hv
    rcases hm'.own x u hu with hold | ⟨w, hw, rfl⟩
    · exact h T T' x x' u v hT'.symm hold hv i
    · exact hus w hw T' x' v hT' hv i
  intro T₁ T₂ x x' u v hne hu hv i
  by_cases h₁ : T₁ = T
  · subst h₁
    exact hone T₂ x x' u v hne.symm hu hv i
  · by_cases h₂ : T₂ = T
    · subst h₂
      exact (hone T₁ x' x v u h₁ hv hu i).symm
    · rw [hm'.others T₁ h₁] at hu
      rw [hm'.others T₂ h₂] at hv
      exact h T₁ T₂ x x' u v hne hu hv i

theorem congr (h : SpeltBooks X m) (hsub : ∀ T x u, (m'.usersOf T).lookup x = some u →
    (m.usersOf T).lookup x = some u) : SpeltBooks X m' :=
  fun T T' x x' u v hne hu hv => h T T' x x' u v hne (hsub T x u hu) (hsub T' x' v hv)

/-- **One step.** -/
theorem step (h : SpeltBooks X m) {l : Env × Op} (hl : SpeltStep X m l) :
    SpeltBooks X (m.step X l) := by
  obtain ⟨env, op⟩ := l
  cases op with
  | setUsers T us => exact h.taken (Manager.takenFrom_setTenantUsers ..) (hl T us (Or.inl rfl))
  | addUsers T us => exact h.taken (Manager.takenFrom_addTenantUsers m T us) (hl T us (Or.inr rfl))
  | delete T =>
    refine h.congr fun T' x u hu => ?_
    rcases Manager.deleteTenant_cases X env m T with ⟨⟨err, heq⟩, -⟩ | hdel
    · rw [Manager.step, Manager.exec, heq] at hu
      exact hu
    · rw [Manager.step, Manager.exec, hdel.usersOf, Function.update_apply] at hu
      split_ifs at hu
      · cases hu
      · exact hu
  | _ =>
    refine h.congr fun T x u hu => ?_
    rw [(Manager.step_frame X env m _ rfl).1.usersOf] at hu
    exact hu

end SpeltBooks

/-- **Secrets are exclusive along every run whose users spell them
apart**: whoever of two tenants is live on an inbound, the secrets differ.
That takes no more than it has to: in any run in which nothing fails, users
of two tenants on one inbound have different secrets only if they spell
them apart there. -/
theorem secrets_exclusive_along_run (hX : X.Strict) {reg : Registry} {force : List String}
    (hpf : PrefixFree { T | reg.get T ≠ none }) :
    (∀ m, Runs.Path (Manager.step X) (fun m l => QuietStep m l ∧ SpeltStep X m l)
        (Manager.new reg force) m →
      ∀ x, m.live.core = some x → ∀ i ∈ x.config.inboundConfigs, ∀ T T' e e' a b, T ≠ T' →
        e ∈ (m.usersOf T).keys → e' ∈ (m.usersOf T').keys →
        x.process.live i.tag e = some a → x.process.live i.tag e' = some b →
        a.secret ≠ b.secret) ∧
    ∀ m, Runs.Path (Manager.step X) QuietStep (Manager.new reg force) m →
      ∀ x, m.live.core = some x → ∀ i ∈ x.config.inboundConfigs, ∀ T T' e e' u v a b, T ≠ T' →
        (m.usersOf T).lookup e = some u → (m.usersOf T').lookup e' = some v →
        x.process.live i.tag e = some a → x.process.live i.tag e' = some b →
        (a.secret ≠ b.secret ↔ i.SpeltApart X u v) := by
  have hrefined : ∀ m, Runs.Path (Manager.step X) QuietStep (Manager.new reg force) m →
      Refined X Set.univ m := fun m h =>
    Refined.of_path hX hpf (h.mono fun _ _ hl => ⟨hl, fun _ _ => trivial⟩)
  have hspelt : ∀ m, Runs.Path (Manager.step X) (fun m l => QuietStep m l ∧ SpeltStep X m l)
      (Manager.new reg force) m → SpeltBooks X m := by
    intro m h
    refine h.invariant (I := SpeltBooks X) (fun _ _ hm hl => hm.step hl.2) ?_
    intro T T' x x' u v _ hu
    cases hu
  refine ⟨fun m h x hx i hi T T' e e' a b hT he he' ha hb => ?_,
    fun m h x hx i hi T T' e e' u v a b hT hu hv ha hb =>
      (hrefined m h).secret_ne_iff hx hi hT hu hv ha hb⟩
  obtain ⟨u, hu⟩ := GoMap.mem_keys_iff.1 he
  obtain ⟨v, hv⟩ := GoMap.mem_keys_iff.1 he'
  have hm := hrefined m (h.mono fun _ _ hl => hl.1)
  exact (hm.secret_ne_iff hx hi hT hu hv ha hb).2 (hspelt m h T T' e e' u v hT hu hv i)

theorem Demo.speltApart {e e' p p' : String} (hp : p ≠ p') (i : Inbound) :
    i.SpeltApart X (Demo.user e p) (Demo.user e' p') := by
  intro raw raw' s hraw hraw' hs hs'
  unfold Protocol.spelling at hraw hraw'
  unfold Inbound.decode at hs hs'
  cases hi : i.protocol with
  | trojan =>
    simp only [hi] at hraw hraw' hs hs'
    obtain rfl : p = raw := Option.some.inj hraw
    obtain rfl : p' = raw' := Option.some.inj hraw'
    cases hs
    exact absurd (Secret.text.inj (Option.some.inj hs')).symm hp
  | _ =>
    rw [hi] at hraw
    cases hraw

/-- Two tenants with a user each on the inbound. -/
theorem secrets_exclusive_of_two :
    let m := Demo.run [.setUsers "a" [Demo.user "x" "one"], .setUsers "b" [Demo.user "y" "two"]]
      (Demo.node ["a", "b"])
    ∃ x a b, m.live.core = some x ∧ x.process.live "in" "ta.x" = some a ∧
      x.process.live "in" "tb.y" = some b ∧ a.secret ≠ b.secret := by
  intro m
  have hpush : SpeltStep Demo.externals (Manager.new (Demo.registry ["a", "b"]) [])
      (.calm, .applyConfig "config") := by
    rintro T us (h | h) <;> cases h
  have hfirst : SpeltStep Demo.externals (Demo.node ["a", "b"])
      (.calm, .setUsers "a" [Demo.user "x" "one"]) := by
    rintro T us - u - T' x v - hv
    cases hv
  have hsecond : SpeltStep Demo.externals (Demo.run [.setUsers "a" [Demo.user "x" "one"]]
      (Demo.node ["a", "b"])) (.calm, .setUsers "b" [Demo.user "y" "two"]) := by
    have htaken : Manager.TakenFrom (Demo.node ["a", "b"]) "a" [Demo.user "x" "one"] _ :=
      Manager.takenFrom_setTenantUsers Demo.externals .calm _ _ _
    rintro T us (hus | hus) u hu T' x v - hv i
    · cases hus
      obtain rfl := List.mem_singleton.1 hu
      by_cases hT : T' = "a"
      · subst hT
        rcases htaken.own x v hv with hold | ⟨w, hw, rfl⟩
        · cases hold
        · obtain rfl := List.mem_singleton.1 hw
          exact Demo.speltApart (by decide) i
      · cases (congrArg (AList.lookup x) (htaken.others T' hT)).symm.trans hv
    · cases hus
  have hpath : Runs.Path (Manager.step Demo.externals)
      (fun m l => QuietStep m l ∧ SpeltStep Demo.externals m l)
      (Manager.new (Demo.registry ["a", "b"]) []) m :=
    .snoc (Env.calm, Op.setUsers "b" [Demo.user "y" "two"])
      (.snoc (Env.calm, Op.setUsers "a" [Demo.user "x" "one"])
        (.snoc (Env.calm, Op.applyConfig "config") .refl ⟨Demo.quietStep _ rfl, hpush⟩)
        ⟨Demo.quietStep _ rfl, hfirst⟩) ⟨Demo.quietStep _ rfl, hsecond⟩
  refine ⟨_, _, _, rfl, rfl, rfl, ?_⟩
  exact (secrets_exclusive_along_run Demo.strict (Demo.prefixFree (by decide))).1 m hpath _ rfl _
    (List.mem_cons_of_mem _ (List.mem_cons_self ..)) "a" "b" "ta.x" "tb.y" _ _ (by decide)
    (by decide) (by decide) rfl rfl

namespace Demo

def vlessInbound : Inbound :=
  { inbound with protocol := .vless }

def uuids : Externals where
  uuidParse := Uuid.parse
  unmarshal := fun _ => some ⟨[vlessInbound]⟩
  accepts := externals.accepts
  table := .caseless

def vlessUser (email id : String) : User where
  email := email
  proxies := some ⟨none, some ⟨id, ""⟩, none, none, none⟩
  inbounds := ["in"]

end Demo

/-- **One UUID, spelt twice**: two tenants take it on, one in lower case
and one in upper case, and Xray serves both under the same secret. -/
theorem uuid_spelt_twice :
    let m := ((Manager.new (Demo.registry ["a", "b"]) []).applyConfig Demo.uuids .calm "config").1
    let r := m.setTenantUsers Demo.uuids .calm "a"
      [Demo.vlessUser "x" "6ba7b810-9dad-11d1-80b4-00c04fd430c8"]
    let r' := r.1.setTenantUsers Demo.uuids .calm "b"
      [Demo.vlessUser "y" "6BA7B810-9DAD-11D1-80B4-00C04FD430C8"]
    r.2 = none ∧ r'.2 = none ∧
      (∀ e ∈ ["ta.x", "tb.y"], (r'.1.live.core.bind fun x => x.process.live "in" e).map
        Account.secret = some (.uuid 0x6ba7b8109dad11d180b400c04fd430c8)) ∧
      r'.1.emailTo.lookup "ta.x" = some "a" ∧ r'.1.emailTo.lookup "tb.y" = some "b" := by
  decide +kernel

end NodeAgent
