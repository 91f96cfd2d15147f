import NodeAgent.Common.Runs
import NodeAgent.Xray.Model.Serialize
import NodeAgent.Xray.Startup
/-!
# A restart reproduces the live users

The clients an inbound keeps are of the kind its protocol and method call
for, under their own emails, and have the credentials that are live. Every
call keeps that, so what `ToBytes` writes out at any time is a list of the
live users: its type filters drop none of them.

A credential is an account up to the flow of a VLESS user, which an inbound
may impose over the API and which is no secret.
-/

namespace NodeAgent

open GoJson

variable {X : Externals} {env : Env} {x : Xray} {i : Inbound} {users : List User} {u : User}
variable {β : Type} {v : Account → β} {K : Set String}

/-! ## Every call keeps clients and live users in agreement -/

namespace Inbound.Kept

theorem synced (h : i.Kept K) (hu : u.email ∈ K) : (i.synced X u).Kept K := by
  refine of_clients (X := X) h (Inbound.bare_synced u i) fun e a ha => ?_
  rw [Inbound.lookup_synced] at ha
  split_ifs at ha with he
  · exact Or.inl ⟨u, he.symm, hu, ha⟩
  · exact Or.inr ha

theorem of_syncUsers (i : Inbound) (hus : ∀ u ∈ users, u.email ∈ K) :
    (i.syncUsers X.uuidParse users).Kept K := by
  intro e a ha
  rw [Inbound.lookup_syncUsers] at ha
  obtain ⟨u, hmem, rfl, hu⟩ := Batch.mem_of_written ha
  rw [Inbound.accepts_congr (Inbound.bare_syncUsers i users)]
  exact ⟨Inbound.accepts_of_accountOf hu, Inbound.getEmail_of_accountOf hu, hus u hmem⟩

end Inbound.Kept

namespace Xray.Agrees

theorem of_onTaken {x' : Xray} {g : Inbound → Inbound} (h : x.Agrees K v)
    (hg : ∀ i, (g i).bare = i.bare) (hconfig : x'.config = x.config.onTaken g)
    (hkept : ∀ i, i.Kept K → (g i).Kept K)
    (hlive : ∀ i ∈ x.config.inboundConfigs, i.exclude = false → ∀ e,
      (x'.process.live i.tag e).map v = (x'.config.clientsAt i.tag e).map v) : x'.Agrees K v := by
  have hmem : ∀ j ∈ x'.config.inboundConfigs, j.exclude = false →
      ∃ i ∈ x.config.inboundConfigs, i.exclude = false ∧ j = g i := by
    intro j hj hjex
    rw [hconfig] at hj
    obtain ⟨i, hi, rfl⟩ := List.mem_map.1 hj
    cases hex : i.exclude with
    | true =>
      rw [hex, if_pos rfl] at hjex
      exact absurd hjex (by rw [hex]; exact Bool.noConfusion)
    | false => exact ⟨i, hi, hex, if_neg Bool.false_ne_true⟩
  refine ⟨?_, fun j hj hjex => ?_, fun j hj hjex e => ?_⟩
  · rw [hconfig, Config.tags_congr (Config.shape_onTaken hg x.config)]
    exact h.distinct
  · obtain ⟨i, hi, hex, rfl⟩ := hmem j hj hjex
    exact hkept i (h.kept i hi hex)
  · obtain ⟨i, hi, hex, rfl⟩ := hmem j hj hjex
    rw [Inbound.tag_congr (hg i), hlive i hi hex e, hconfig,
      Config.clientsAt_onTaken hg h.distinct hi hex]

theorem syncUser (h : x.Agrees K v) (hv : x.config.Reads X v) (hK : Set.InjOn X.table.key K)
    (ha : env.AddsOk) (hr : env.RemovesOk) (hu : u.email ∈ K) :
    (x.syncUser X env u).1.Agrees K v := by
  refine h.of_onTaken (Inbound.bare_synced (X := X) u) (config_syncUser x u)
    (fun i hi => hi.synced hu) fun i hi hex e => ?_
  -- one user is a batch taken in order
  have hlive : ((x.syncInTurn X env [u]).process.live i.tag e).map v = _ :=
    h.live_syncInTurn hv hi hex e hK (by simpa using hu) ha hr
  have hclient : ((x.syncInTurn X env [u]).config.clientsAt i.tag e).map v = _ :=
    h.clientsAt_syncInTurn hv hi hex e
  exact hlive.trans hclient.symm

theorem updateUsers (h : x.Agrees K v) (hv : x.config.Reads X v) (hK : Set.InjOn X.table.key K)
    (ha : env.AddsOk) (hr : env.RemovesOk) (hus : ∀ u ∈ users, u.email ∈ K)
    (hnodup : (users.map User.email).Nodup) : (x.updateUsers X env users).1.Agrees K v := by
  have hconfig : (x.updateUsers X env users).1.config =
      x.config.onTaken (Inbound.batched X env users) := by
    rw [updateUsers_fst]
    exact updateConfigUsers_eq h.distinct users
  refine h.of_onTaken (Inbound.bare_batched users) hconfig (fun i hi => hi.batched hus)
    fun i hi hex e => ?_
  rw [h.live_updateUsers hv hi hex e hK hus ha hr, h.clientsAt_updateUsers hv hi hex e]
  exact (Batch.unmixed_of_nodup hnodup e).writesFirst_eq.symm

end Xray.Agrees

/-! ## What `ToBytes` makes of an inbound -/

/-- **A written inbound that lists the users live on it**: each of them
once, with the credential it has, and nobody else. -/
def WrittenInbound.Reproduces (w : WrittenInbound) (live : String → Option Account) : Prop :=
  ∃ accounts, (w.settings.bind fun m => m.lookup "clients") = some (.clients accounts) ∧
    (accounts.map Account.getEmail).Nodup ∧
    ∀ e c, (∃ a ∈ accounts, a.getEmail = e ∧ a.credential = c) ↔
      (live e).map Account.credential = some c

namespace FullInbound

variable {i j : FullInbound} {o : Order String}

theorem toBytes_cases (i : FullInbound) (o : Order String) :
    i.toBytes o = i ∨
      ∃ m, i.toBytes o = { i with settings := some m } ∧
        ∀ key, key ≠ "clients" → m.lookup key = i.settings.bind fun m => m.lookup key := by
  have hgetD : ∀ key, (i.settings.getD []).lookup key = i.settings.bind fun m => m.lookup key := by
    intro key
    cases i.settings <;> rfl
  have hput : ∀ (w : SettingValue) (key : String), key ≠ "clients" →
      (put "clients" w (i.settings.getD [])).lookup key =
        i.settings.bind fun m => m.lookup key := by
    intro w key hkey
    rw [lookup_put, if_neg hkey, hgetD]
  unfold toBytes
  split_ifs with hex hempty
  · exact Or.inl rfl
  · exact Or.inr ⟨_, rfl, hput _⟩
  · split
    · exact Or.inr ⟨_, rfl, fun key _ => hgetD key⟩
    · exact Or.inr ⟨_, rfl, hput _⟩

theorem inbound_toBytes (i : FullInbound) (o : Order String) :
    (i.toBytes o).inbound = i.inbound := by
  rcases i.toBytes_cases o with h | ⟨m, h, hm⟩
  · rw [h]
  · have hstring : ∀ key, key ≠ "clients" →
        settingString { i with settings := some m } key = i.settingString key := by
      intro key hkey
      unfold settingString
      rw [Option.bind_some, hm key hkey]
    rw [h]
    unfold inbound
    rw [hstring "method" (by decide), hstring "flow" (by decide)]

theorem toBytes_of_exclude (hex : i.exclude = true) : i.toBytes o = i :=
  if_pos hex

/-- **The clients written are those kept**: the type filter passes them
all. -/
theorem clients_toBytes (hex : i.exclude = false) (hkept : i.inbound.Kept K) :
    ((i.toBytes o).settings.bind fun m => m.lookup "clients") =
      some (.clients ((GoMap.range o i.clients).map Prod.snd)) := by
  have haccepts : ∀ p ∈ GoMap.range o i.clients, i.inbound.accepts p.2 = true := fun p hp =>
    (hkept p.1 p.2 (GoMap.mem_range.1 hp)).1
  have hfilter : ((GoMap.range o i.clients).map Prod.snd).filter i.inbound.accepts =
      (GoMap.range o i.clients).map Prod.snd := by
    refine List.filter_eq_self.2 fun a ha => ?_
    obtain ⟨p, hp, rfl⟩ := List.mem_map.1 ha
    exact haccepts p hp
  unfold toBytes
  rw [if_neg (by rw [hex]; exact Bool.false_ne_true)]
  split_ifs with hempty
  · have hrange : GoMap.range o i.clients = [] := by
      refine List.eq_nil_of_length_eq_zero ?_
      rw [← List.length_map Prod.fst, GoMap.range_keys, (o.perm _).length_eq, hempty]
    rw [Option.bind_some, lookup_put, if_pos rfl, hrange]
    rfl
  · split
    · -- a protocol without users has no clients
      rename_i name hprotocol
      cases hrange : GoMap.range o i.clients with
      | nil =>
        refine absurd ?_ hempty
        rw [← (o.perm i.clients.keys).length_eq, ← GoMap.range_keys, hrange]
        rfl
      | cons p l =>
        have hp := haccepts p (by rw [hrange]; exact List.mem_cons_self ..)
        have hother : i.inbound.protocol = .other name := hprotocol
        cases ha : p.2 <;> simp [ha, Inbound.accepts, hother] at hp
    · rw [Option.bind_some, lookup_put, if_pos rfl, hfilter]

theorem emails_range (hkept : i.inbound.Kept K) (o : Order String) :
    ((GoMap.range o i.clients).map Prod.snd).map Account.getEmail =
      (GoMap.range o i.clients).map Prod.fst := by
  rw [List.map_map]
  exact List.map_congr_left fun p hp => (hkept p.1 p.2 (GoMap.mem_range.1 hp)).2.1

theorem mem_range_clients (hkept : i.inbound.Kept K) {e : String} {a : Account} :
    (a ∈ (GoMap.range o i.clients).map Prod.snd ∧ a.getEmail = e) ↔
      i.clients.lookup e = some a := by
  constructor
  · rintro ⟨ha, rfl⟩
    obtain ⟨p, hp, rfl⟩ := List.mem_map.1 ha
    have hlookup := GoMap.mem_range.1 hp
    rw [(hkept p.1 p.2 hlookup).2.1]
    exact hlookup
  · intro h
    exact ⟨List.mem_map.2 ⟨(e, a), GoMap.mem_range.2 h, rfl⟩, (hkept e a h).2.1⟩

theorem listed_toBytes (hex : i.exclude = false) (hkept : i.inbound.Kept K) (e : String) :
    (i.toBytes o).listed e = i.clients.lookup e := by
  unfold listed
  rw [clients_toBytes hex hkept]
  show ((GoMap.range o i.clients).map Prod.snd).find? (fun a => a.getEmail = e) = _
  cases hfound : ((GoMap.range o i.clients).map Prod.snd).find? fun a => a.getEmail = e with
  | some a =>
    have hemail := List.find?_some hfound
    exact ((mem_range_clients hkept).1
      ⟨List.mem_of_find?_eq_some hfound, of_decide_eq_true hemail⟩).symm
  | none =>
    cases hlookup : i.clients.lookup e with
    | none => rfl
    | some a =>
      obtain ⟨ha, hemail⟩ := (mem_range_clients (o := o) hkept).2 hlookup
      exact absurd (decide_eq_true hemail) (List.find?_eq_none.1 hfound a ha)

/-- **An inbound whose clients are those live is written out with them.** -/
theorem reproduces_toBytes {live : String → Option Account} (hex : i.exclude = false)
    (hkept : i.inbound.Kept K)
    (hlive : ∀ e, (live e).map Account.credential =
      (i.clients.lookup e).map Account.credential) :
    (i.toBytes o).written.Reproduces live := by
  refine ⟨(GoMap.range o i.clients).map Prod.snd, clients_toBytes hex hkept, ?_, fun e c => ?_⟩
  · rw [emails_range hkept o]
    exact GoMap.range_nodup o i.clients
  · rw [hlive e]
    constructor
    · rintro ⟨a, ha, hemail, rfl⟩
      rw [(mem_range_clients hkept).1 ⟨ha, hemail⟩]
      rfl
    · intro h
      obtain ⟨a, ha, rfl⟩ := Option.map_eq_some_iff.1 h
      obtain ⟨hmem, hemail⟩ := (mem_range_clients (o := o) hkept).2 ha
      exact ⟨a, hmem, hemail, rfl⟩

/-- Two states of one inbound: alike but for the clients, and with the same
settings if it is left alone. -/
def Same (i j : FullInbound) : Prop :=
  j.inbound.bare = i.inbound.bare ∧ (i.exclude = true → j.settings = i.settings)

theorem Same.toBytes (h : i.Same j) (o : Order String) : i.Same (j.toBytes o) := by
  refine ⟨by rw [inbound_toBytes]; exact h.1, fun hex => ?_⟩
  have hjex : j.exclude = true := (Inbound.exclude_congr h.1).trans hex
  rw [toBytes_of_exclude hjex]
  exact h.2 hex

theorem inbound_replace {k : Inbound} (h : k.bare = i.inbound.bare) :
    inbound { i with clients := k.clients } = k := by
  have hclients : ∀ j : Inbound, { j.bare with clients := j.clients } = j := fun _ => rfl
  calc inbound { i with clients := k.clients } = { i.inbound.bare with clients := k.clients } := rfl
    _ = { k.bare with clients := k.clients } := by rw [h]
    _ = k := hclients k

end FullInbound

/-! ## Runs -/

namespace XrayBackend

variable {b : XrayBackend} {orders : String → Order String} {inbounds : List FullInbound}

theorem xray_replace (h : x.config.shape = b.xray.config.shape) : (b.replace x).xray = x := by
  have hzip : ∀ (l : List FullInbound) (l' : List Inbound),
      l'.map Inbound.bare = (l.map FullInbound.inbound).map Inbound.bare →
      (List.zipWith (fun i j => { i with clients := j.clients }) l l').map FullInbound.inbound =
        l' := by
    intro l
    induction l with
    | nil =>
      intro l' hl'
      rw [List.map_nil, List.map_nil, List.map_eq_nil_iff] at hl'
      rw [hl']
      rfl
    | cons i l ih =>
      rintro (_ | ⟨k, l'⟩) hl'
      · cases hl'
      · rw [List.map_cons, List.map_cons, List.map_cons, List.cons.injEq] at hl'
        rw [List.zipWith_cons_cons, List.map_cons, ih l' hl'.2,
          FullInbound.inbound_replace hl'.1]
  have hconfig : (b.replace x).xray.config = x.config :=
    congrArg Config.mk (hzip b.inbounds x.config.inboundConfigs h)
  show Xray.mk (b.replace x).xray.config x.process = x
  rw [hconfig]

theorem same_replace (h : List.Forall₂ FullInbound.Same inbounds b.inbounds)
    (hlen : x.config.inboundConfigs.length = b.inbounds.length) :
    List.Forall₂ FullInbound.Same inbounds (b.replace x).inbounds := by
  show List.Forall₂ _ _ (List.zipWith _ _ _)
  generalize x.config.inboundConfigs = l' at hlen
  generalize b.inbounds = l at h hlen
  induction h generalizing l' with
  | nil => exact .nil
  | @cons i j _ l hij _ ih =>
    rcases l' with _ | ⟨k, l'⟩
    · cases hlen
    · exact .cons hij (ih l' (Nat.succ.inj hlen))

/-- The inbounds as `ToBytes` leaves them. -/
def writtenInbounds (orders : String → Order String) (b : XrayBackend) : List FullInbound :=
  b.inbounds.map fun i => i.toBytes (orders i.tag)

/-- A process that serves the clients the settings list. -/
def served (inbounds : List FullInbound) : Process where
  live := fun tag email =>
    (inbounds.find? fun i => i.tag = tag ∧ i.exclude = false).bind fun i => i.listed email
  counters := ∅
  calls := 0

theorem start_eq (orders : String → Order String) (b : XrayBackend) :
    ∃ log, b.start orders =
      ⟨some log, b.writtenInbounds orders, served (b.writtenInbounds orders)⟩ := by
  rcases b with ⟨_ | log, inbounds, p⟩
  · exact ⟨_, rfl⟩
  · exact ⟨_, rfl⟩

/-- **`ToBytes` restores the log section it blanks.** -/
theorem toBytes_eq {log : LogConfig} (h : b.logConfig = some log) :
    b.toBytes orders =
      some ({ b with inbounds := b.writtenInbounds orders },
        ⟨{ log with accessLog := "", errorLog := "" },
          (b.writtenInbounds orders).map FullInbound.written⟩) := by
  rcases b with ⟨_, inbounds, p⟩
  obtain rfl : _ = some log := h
  rfl

theorem same_writtenInbounds (h : List.Forall₂ FullInbound.Same inbounds b.inbounds) :
    List.Forall₂ FullInbound.Same inbounds (b.writtenInbounds orders) :=
  List.forall₂_map_right_iff.2 (h.imp fun _ _ hij => hij.toBytes _)

/-- **A start through `ToBytes` is a start from the clients kept.** -/
theorem xray_start (hkept : ∀ i ∈ b.inbounds, i.exclude = false → i.inbound.Kept K) :
    (b.start orders).xray = b.xray.restart := by
  have hconfig : (b.inbounds.map fun i => i.toBytes (orders i.tag)).map FullInbound.inbound =
      b.inbounds.map FullInbound.inbound := by
    rw [List.map_map]
    exact List.map_congr_left fun i _ => i.inbound_toBytes _
  have hfixed : ∀ i : FullInbound, ∀ o, (i.toBytes o).tag = i.tag ∧
      (i.toBytes o).exclude = i.exclude := by
    intro i o
    exact ⟨congrArg Inbound.tag (i.inbound_toBytes o),
      congrArg Inbound.exclude (i.inbound_toBytes o)⟩
  have hlive : (served (b.writtenInbounds orders)).live = b.xray.config.servedClients := by
    funext tag email
    show ((b.inbounds.map fun i => i.toBytes (orders i.tag)).find? _).bind _ =
      ((b.inbounds.map FullInbound.inbound).find? _).bind _
    rw [List.find?_map, List.find?_map]
    have hsame : ((fun i : FullInbound => decide (i.tag = tag ∧ i.exclude = false)) ∘
        fun i => i.toBytes (orders i.tag)) =
          (fun i : Inbound => decide (i.tag = tag ∧ i.exclude = false)) ∘ FullInbound.inbound := by
      funext i
      simp only [Function.comp_apply, (hfixed i _).1, (hfixed i _).2]
      rfl
    rw [hsame]
    cases hfound : b.inbounds.find?
      ((fun i : Inbound => decide (i.tag = tag ∧ i.exclude = false)) ∘ FullInbound.inbound) with
    | none => rfl
    | some i =>
      have hi := List.mem_of_find?_eq_some hfound
      have hp := List.find?_some hfound
      have hex : i.exclude = false := (of_decide_eq_true hp).2
      rw [Option.map_some, Option.map_some, Option.bind_some, Option.bind_some,
        FullInbound.listed_toBytes hex (hkept i hi hex), (hkept i hi hex).served_eq]
      rfl
  obtain ⟨log, hstart⟩ := b.start_eq orders
  have hprocess : served (b.writtenInbounds orders) = .start b.xray.config :=
    congrArg (fun live => Process.mk live ∅ 0) hlive
  rw [hstart]
  show Xray.mk ⟨(b.inbounds.map fun i => i.toBytes (orders i.tag)).map FullInbound.inbound⟩
    (served (b.writtenInbounds orders)) = _
  rw [hconfig, hprocess]
  rfl

/-! ### The invariant -/

/-- **What every call keeps**: clients and live users agree on the
credentials, and the inbounds are those the backend was started with. -/
structure Sound (K : Set String) (inbounds : List FullInbound) (b : XrayBackend) : Prop where
  log : ∃ log, b.logConfig = some log
  agrees : b.xray.Agrees K Account.credential
  same : List.Forall₂ FullInbound.Same inbounds b.inbounds

/-- The Shadowsocks 2022 methods of the inbounds that take users are
Xray's. -/
def Methods (inbounds : List FullInbound) : Prop :=
  ∀ i ∈ inbounds, i.exclude = false → ∀ method, i.inbound.method2022 = some method →
    method ∈ methods2022

theorem exists_same {l : List FullInbound} {j : FullInbound}
    (h : List.Forall₂ FullInbound.Same inbounds l) (hj : j ∈ l) : ∃ i ∈ inbounds, i.Same j := by
  induction h with
  | nil => cases hj
  | @cons i k is ks hik _ ih =>
    rcases List.mem_cons.1 hj with rfl | hj
    · exact ⟨i, List.mem_cons_self .., hik⟩
    · obtain ⟨i', hi', hsame⟩ := ih hj
      exact ⟨i', List.mem_cons_of_mem _ hi', hsame⟩

theorem reads_of_same (hm : Methods inbounds)
    (h : List.Forall₂ FullInbound.Same inbounds b.inbounds) :
    b.xray.config.Reads X Account.credential := by
  refine Config.reads_credential fun k hk hex method hmethod => ?_
  obtain ⟨j, hj, rfl⟩ := List.mem_map.1 hk
  obtain ⟨i, hi, hij⟩ := exists_same h hj
  have hexi : i.exclude = false := (Inbound.exclude_congr hij.1).symm.trans hex
  exact hm i hi hexi method ((congrArg Inbound.method2022 hij.1).symm.trans hmethod)

theorem length_of_shape (h : x.config.shape = b.xray.config.shape) :
    x.config.inboundConfigs.length = b.inbounds.length := by
  have hlen := congrArg List.length h
  simpa [Config.shape, xray] using hlen

theorem Sound.replace (h : b.Sound K inbounds) (hshape : x.config.shape = b.xray.config.shape)
    (hx : x.Agrees K Account.credential) : (b.replace x).Sound K inbounds :=
  ⟨h.log, by rw [xray_replace hshape]; exact hx, same_replace h.same (length_of_shape hshape)⟩

theorem sound_start (hdistinct : b.xray.config.tags.Nodup)
    (hkept : ∀ i ∈ b.inbounds, i.exclude = false → i.inbound.Kept K)
    (hsame : List.Forall₂ FullInbound.Same inbounds b.inbounds) :
    (b.start orders).Sound K inbounds := by
  have hxray : (b.start orders).xray = b.xray.restart := xray_start hkept
  have hkept' : ∀ k ∈ b.xray.config.inboundConfigs, k.exclude = false → k.Kept K := by
    intro k hk hex
    obtain ⟨i, hi, rfl⟩ := List.mem_map.1 hk
    exact hkept i hi hex
  obtain ⟨log, hstart⟩ := b.start_eq orders
  refine ⟨⟨log, by rw [hstart]⟩, ?_, ?_⟩
  · rw [hxray]
    exact Xray.agrees_restart hdistinct hkept'
  · rw [hstart]
    exact same_writtenInbounds hsame

theorem sound_syncUsers_start (hdistinct : b.xray.config.tags.Nodup)
    (hsame : List.Forall₂ FullInbound.Same inbounds b.inbounds)
    (hus : ∀ u ∈ users, u.email ∈ K) (p : Process) :
    ((b.replace ⟨b.xray.config.syncUsers X.uuidParse users, p⟩).start orders).Sound K inbounds := by
  have hshape : (b.xray.config.syncUsers X.uuidParse users).shape = b.xray.config.shape :=
    Config.shape_onTaken (fun i => Inbound.bare_syncUsers i users) _
  have hxray := xray_replace (x := ⟨b.xray.config.syncUsers X.uuidParse users, p⟩) hshape
  refine sound_start ?_ (fun i hi hex => ?_) (same_replace hsame (length_of_shape hshape))
  · rw [hxray]
    show (b.xray.config.syncUsers X.uuidParse users).tags.Nodup
    rw [Config.tags_congr hshape]
    exact hdistinct
  · have hmem : i.inbound ∈ (b.xray.config.syncUsers X.uuidParse users).inboundConfigs := by
      rw [← congrArg (fun y => y.config.inboundConfigs) hxray]
      exact List.mem_map_of_mem hi
    obtain ⟨k, -, hk⟩ := List.mem_map.1 hmem
    rw [← hk]
    split_ifs at hk ⊢ with hkex
    · have hiex : i.inbound.exclude = true := hk ▸ hkex
      exact absurd (hiex.symm.trans hex) Bool.noConfusion
    · exact Inbound.Kept.of_syncUsers k hus

theorem Sound.kept (h : b.Sound K inbounds) : ∀ i ∈ b.inbounds, i.exclude = false →
    i.inbound.Kept K :=
  fun i hi hex => h.agrees.kept i.inbound (List.mem_map_of_mem hi) hex

end XrayBackend

/-- **A call that succeeds**: no call to the core fails, and a batch has
distinct emails. -/
structure XrayStep.Ok (s : XrayStep) : Prop where
  adds : s.env.AddsOk
  removes : s.env.RemovesOk
  emails : ∀ users, s.call = .updateUsers users → (users.map User.email).Nodup

namespace XrayBackend

variable {b : XrayBackend} {orders : String → Order String} {inbounds : List FullInbound}

/-- **One call.** -/
theorem Sound.step (h : b.Sound K inbounds) (hm : Methods inbounds)
    (hK : Set.InjOn X.table.key K) {s : XrayStep} (hs : s.Ok)
    (hnamed : ∀ u ∈ s.call.users, u.email ∈ K) : (b.step X s).Sound K inbounds := by
  have hreads : b.xray.config.Reads X Account.credential := reads_of_same hm h.same
  unfold XrayBackend.step
  split
  · rename_i user hcall
    rw [hcall] at hnamed
    exact h.replace (Xray.shape_syncUser _ _)
      (h.agrees.syncUser hreads hK hs.adds hs.removes (hnamed user (List.mem_singleton.2 rfl)))
  · rename_i users hcall
    rw [hcall] at hnamed
    exact sound_syncUsers_start h.agrees.distinct h.same hnamed _
  · rename_i users hcall
    rw [hcall] at hnamed
    refine h.replace ?_ (h.agrees.updateUsers hreads hK hs.adds hs.removes hnamed
      (hs.emails users hcall))
    rw [Xray.updateUsers_fst]
    show (Xray.updateConfigUsers X s.env b.xray.config users).shape = _
    rw [Xray.updateConfigUsers_eq h.agrees.distinct]
    exact Config.shape_onTaken (Inbound.bare_batched users) _
  · exact sound_start h.agrees.distinct h.kept h.same

/-- **A backend just started.** -/
theorem sound_new (hempty : ∀ i ∈ inbounds, i.clients = ∅)
    (hdistinct : ((inbounds.filter fun i => !i.exclude).map FullInbound.tag).Nodup)
    (log : Option LogConfig) {users : List User} (hus : ∀ u ∈ users, u.email ∈ K) :
    (new X orders log inbounds users).Sound K inbounds := by
  have htags : (⟨log, inbounds, .start ⟨[]⟩⟩ : XrayBackend).xray.config.tags.Nodup := by
    show (((inbounds.map FullInbound.inbound).filter fun i => !i.exclude).map Inbound.tag).Nodup
    rw [List.filter_map, List.map_map]
    exact hdistinct
  have hsame : List.Forall₂ FullInbound.Same inbounds inbounds :=
    List.forall₂_same.2 fun i _ => ⟨rfl, fun _ => rfl⟩
  unfold new
  dsimp only
  split_ifs
  · exact sound_syncUsers_start htags hsame hus _
  · refine sound_start htags (fun i hi _ e a ha => ?_) hsame
    have hclients : i.inbound.clients = ∅ := hempty i hi
    rw [hclients] at ha
    cases ha

/-- **A restart reproduces the live users.** After any run of calls that
succeed, from any start, with emails that Xray tells apart, `ToBytes` gives
every inbound that takes users the list of the users live on it, leaves the
settings of the others as they were when the backend was started, and
leaves the log section as it was. -/
theorem toBytes_reproduces_live (hempty : ∀ i ∈ inbounds, i.clients = ∅)
    (hdistinct : ((inbounds.filter fun i => !i.exclude).map FullInbound.tag).Nodup)
    (hm : Methods inbounds) (hK : Set.InjOn X.table.key K) (log : Option LogConfig)
    {users : List User} (hus : ∀ u ∈ users, u.email ∈ K)
    (hpath : Runs.Path (step X) (fun _ s => s.Ok ∧ ∀ u ∈ s.call.users, u.email ∈ K)
      (new X orders log inbounds users) b)
    (orders' : String → Order String) :
    ∃ b' written, b.toBytes orders' = some (b', written) ∧ b'.logConfig = b.logConfig ∧
      List.Forall₂
        (fun i w =>
          w.tag = i.tag ∧ w.protocol = i.protocol ∧
            (i.exclude = false → w.Reproduces (b.process.live i.tag)) ∧
            (i.exclude = true → w.settings = i.settings))
        inbounds written.inbounds := by
  have hsound : b.Sound K inbounds :=
    hpath.invariant (fun _ _ h hs => h.step hm hK hs.1 hs.2) (sound_new hempty hdistinct log hus)
  obtain ⟨logConfig, hlog⟩ := hsound.log
  refine ⟨_, _, toBytes_eq hlog, rfl, ?_⟩
  refine List.forall₂_map_right_iff.2 (List.forall₂_map_right_iff.2 ?_)
  -- each inbound is one of the start, and is written out from sound clients
  obtain ⟨hlength, hzip⟩ := List.forall₂_iff_zip.1 hsound.same
  refine List.forall₂_iff_zip.2 ⟨hlength, fun {i j} hij => ?_⟩
  have hj : j ∈ b.inbounds := (List.of_mem_zip hij).2
  obtain ⟨hbare, hsettings⟩ := hzip hij
  have hinbound := j.inbound_toBytes (orders' j.tag)
  have htag : j.tag = i.tag := Inbound.tag_congr hbare
  have hexclude : j.exclude = i.exclude := Inbound.exclude_congr hbare
  refine ⟨(congrArg Inbound.tag hinbound).trans htag, ?_, fun hex => ?_, fun hex => ?_⟩
  · have hprotocol : j.protocol = i.protocol := congrArg Inbound.protocol hbare
    exact (congrArg Inbound.protocol hinbound).trans hprotocol
  · have hjex : j.exclude = false := hexclude.trans hex
    rw [← htag]
    exact FullInbound.reproduces_toBytes hjex (hsound.kept j hj hjex)
      (hsound.agrees.live j.inbound (List.mem_map_of_mem hj) hjex)
  · rw [FullInbound.toBytes_of_exclude (hexclude.trans hex)]
    exact hsettings hex

end XrayBackend

namespace XrayDemo

def fullInbounds : List FullInbound :=
  [⟨"A", .trojan, none, false, ∅⟩,
    ⟨"B", .vless, some [("clients", .json (.arr []))], true, ∅⟩]

def onOff : XrayStep where
  env := .calm
  orders := fun _ => .reversed
  call := .updateUsers [user "w" ["A"], user "u" []]

theorem onOff_ok : onOff.Ok := by
  refine ⟨addsOk_calm, removesOk_calm, fun users h => ?_⟩
  obtain rfl : [user "w" ["A"], user "u" []] = users := XrayCall.updateUsers.inj h
  decide

end XrayDemo

open XrayDemo in
/-- A backend started with one user, after a batch. -/
theorem toBytes_reproduces_onOff :
    ∃ b' written,
      ((XrayBackend.new externals (fun _ => .given) none fullInbounds [user "u" ["A"]]).step
        externals onOff).toBytes (fun _ => .reversed) = some (b', written) ∧
      b'.logConfig =
        ((XrayBackend.new externals (fun _ => .given) none fullInbounds [user "u" ["A"]]).step
          externals onOff).logConfig ∧
      List.Forall₂
        (fun i w =>
          w.tag = i.tag ∧ w.protocol = i.protocol ∧
            (i.exclude = false → w.Reproduces
              (((XrayBackend.new externals (fun _ => .given) none fullInbounds
                [user "u" ["A"]]).step externals onOff).process.live i.tag)) ∧
            (i.exclude = true → w.settings = i.settings))
        fullInbounds written.inbounds := by
  refine XrayBackend.toBytes_reproduces_live ?_ (by decide) ?_ toldApart none (by decide)
    (.snoc onOff .refl ⟨onOff_ok, by decide⟩) _
  · intro i hi
    simp only [fullInbounds, List.mem_cons, List.not_mem_nil, or_false] at hi
    rcases hi with rfl | rfl <;> rfl
  · intro i hi hex method hmethod
    simp only [fullInbounds, List.mem_cons, List.not_mem_nil, or_false] at hi
    rcases hi with rfl | rfl
    · cases hmethod
    · cases hex

namespace XrayDemo

def putOn (email : String) : XrayStep where
  env := .calm
  orders := fun _ => .given
  call := .syncUser (user email ["A"])

theorem putOn_ok (email : String) : (putOn email).Ok :=
  ⟨addsOk_calm, removesOk_calm, nofun⟩

def twoCases : XrayBackend :=
  ((XrayBackend.new externals (fun _ => .given) none fullInbounds []).step
    externals (putOn "Bob")).step externals (putOn "bob")

end XrayDemo

open XrayDemo in
/-- A configuration that does not reproduce the live users: the second
user displaces the first in the core, where emails are told apart without
regard to case, and the configuration lists both. -/
theorem toBytes_lists_displaced :
    (putOn "Bob").Ok ∧ (putOn "bob").Ok ∧
      ∃ b' written w, twoCases.toBytes (fun _ => .given) = some (b', written) ∧
        w ∈ written.inbounds ∧ w.tag = "A" ∧ ¬ w.Reproduces (twoCases.process.live "A") := by
  refine ⟨putOn_ok _, putOn_ok _, _, _, _, rfl, List.mem_cons_self .., rfl, ?_⟩
  rintro ⟨accounts, hclients, -, hlive⟩
  obtain rfl : [Account.trojan ⟨"bob", 0⟩ "secret", .trojan ⟨"Bob", 0⟩ "secret"] = accounts :=
    SettingValue.clients.inj (Option.some.inj hclients)
  have hoff : twoCases.process.live "A" "Bob" = none := by decide +kernel
  have hon := (hlive "Bob" _).1 ⟨_, List.mem_cons_of_mem _ (List.mem_cons_self ..), rfl, rfl⟩
  rw [hoff] at hon
  cases hon

end NodeAgent
