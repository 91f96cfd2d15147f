import NodeAgent.Shared.Helpers.Directory
import NodeAgent.Shared.Helpers.Live
/-!
# The core refines the directory

If nothing fails, the core of a node is at all times what the manager's
books say it should be: on every inbound, exactly the users of the active
tenants that the inbound is for, each with the credential it has there,
as long as Xray tells their emails from each other. The proof follows the
directory through every operation: each one changes the live side to just
where the directory of the state it leaves is.
-/

namespace NodeAgent

variable {X : Externals} {env : Env} {m m' : Manager} {T e : String} {us : List User}
variable {K : Set String}

/-- **A step in which nothing fails**: no call to the core and no write to
the store. `ResetPeriod` comes with the reactivation that follows it, and
tenants can still be told apart. -/
structure QuietStep (m : Manager) (l : Env × Op) : Prop where
  adds : l.1.AddsOk
  removes : l.1.RemovesOk
  saves : ∀ T, l.1.save T = true
  apart : KeepsApart m l.2
  whole : ∀ T, l.2 ≠ .resetPeriod T
  renewed : ∀ T saved, l.2 = .reset T saved → saved = true

/-- The emails an operation gives a tenant. -/
def Op.named : Op → List String
  | .setUsers T us | .addUsers T us => us.map fun v => namespacedEmail T v.email
  | _ => []

/-- **The node is as its books say**: the indexes agree, and the core
serves the directory, with emails that are all from a set. -/
structure Refined (X : Externals) (K : Set String) (m : Manager) : Prop where
  coherent : Coherent m
  exact : m.live.Exact X K m.directory
  named : ∀ T, ∀ e ∈ (m.usersOf T).keys, e ∈ K

namespace Refined

theorem of_same (h : Refined X K m) (hc : Coherent m') (hlive : m'.live = m.live)
    (hof : m'.usersOf = m.usersOf) (hd : m'.directory = m.directory) : Refined X K m' :=
  ⟨hc, by rw [hlive, hd]; exact h.exact, by rw [hof]; exact h.named⟩

theorem of_none (hc : Coherent m) (hcore : m.live.core = none)
    (hK : ∀ T, ∀ e ∈ (m.usersOf T).keys, e ∈ K) : Refined X K m := by
  refine ⟨hc, fun x hx => ?_, hK⟩
  rw [hcore] at hx
  cases hx

theorem named_of_mem (h : Coherent m) (hK : ∀ T, ∀ e ∈ (m.usersOf T).keys, e ∈ K)
    {o : Order String} {p : String × User} (hp : p ∈ GoMap.range o (m.usersOf T)) : p.2.email ∈ K :=
  hK T _ (email_of_mem_range (h.email_eq T) hp)

theorem createTenant (h : Refined X K m) (saved : Bool) (p : Registry.CreateParams)
    (hpf : PrefixFree (insert p.id m.tenants)) :
    Refined X K { m with reg := (m.reg.createTenant saved p).1 } := by
  have hc := h.coherent.createTenant saved p hpf
  rcases Registry.createTenant_cases m.reg saved p with hsame | ⟨hnew, hget⟩
  · refine h.of_same hc rfl rfl (Manager.directory_congr ⟨rfl, rfl, rfl⟩ fun T => ?_)
    exact congrArg (Option.map Tenant.status) (hsame T)
  · -- the new tenant has no users
    have hempty : ∀ e, e ∉ (m.usersOf p.id).keys := fun e he =>
      h.coherent.registered p.id e he hnew
    refine h.of_same hc rfl rfl (funext fun e => ?_)
    refine h.coherent.directory_off hc ⟨fun T hT => ?_, fun _ _ => rfl⟩ (hempty e) (hempty e)
    show ((m.reg.createTenant saved p).1.get T).map Tenant.status = _
    rw [hget, if_neg hT]
    rfl

theorem suspendTenant (h : Refined X K m) (hr : env.RemovesOk) (hsave : env.save T = true)
    (reason : Reason) : Refined X K (m.suspendTenant X env T reason).1 := by
  have hframe := Manager.step_frame X env m (.suspend T reason) rfl
  have hc : Coherent (m.suspendTenant X env T reason).1 :=
    h.coherent.congr hframe.1 (hframe.2 rfl)
  have hstatus := fun T' => Manager.statusOf_suspend m (env.save T) T reason T'
  rcases Manager.suspendTenant_cases X env m T reason with ⟨⟨err, heq⟩, hbad⟩ | heq
  · have hnone : m.reg.get T = none := hbad.resolve_right (by simp [hsave])
    rw [heq] at hc ⊢
    refine h.of_same hc rfl rfl (Manager.directory_congr ⟨rfl, rfl, rfl⟩ fun T' => ?_)
    rw [hstatus]
    split_ifs with hT
    · rw [hT, Manager.statusOf, hnone]
      rfl
    · rfl
  · rw [heq] at hc ⊢
    refine ⟨hc, h.exact.removeAll hr (fun p hp => named_of_mem h.coherent h.named hp)
      (fun p hp => ?_) fun e he => ?_, h.named⟩
    · have hmem := email_of_mem_range (h.coherent.email_eq T) hp
      rw [hc.directory_of_mem (T := T) hmem, if_neg]
      refine fun hact => absurd ((hstatus T).symm.trans hact) ?_
      rw [if_pos rfl]
      cases m.statusOf T <;> simp
    · have hno := notMem_of_range (h.coherent.email_eq T) he
      exact h.coherent.directory_off hc
        ⟨fun T' hT => (hstatus T').trans (if_neg hT), fun _ _ => rfl⟩ hno hno

/-- **A reactivation puts the tenant's users back**, whatever of them the
core was serving before. -/
theorem resumed (h : Coherent m) {D : String → Option User} (hL : m.live.Exact X K D)
    (hK : ∀ T, ∀ e ∈ (m.usersOf T).keys, e ∈ K)
    (ha : env.AddsOk) (hr : env.RemovesOk) (hsave : env.save T = true)
    (hknown : m.reg.get T ≠ none)
    (hD : ∀ e, e ∉ (m.usersOf T).keys → m.directory e = D e) :
    Refined X K (m.resumeTenant X env T).1 := by
  obtain ⟨hsame, htenants⟩ := Manager.resumeTenant_frame X env m T
  have hc : Coherent (m.resumeTenant X env T).1 := h.congr hsame htenants
  have hstatus := fun T' => Manager.statusOf_resume m (env.save T) T T'
  rcases Manager.resumeTenant_cases X env m T with
    ⟨⟨err, heq⟩, hbad⟩ | ⟨done, rest, err, hl, hrest, -, heq⟩
  · rcases hbad with hnone | hfail
    · exact absurd hnone hknown
    · rw [hsave] at hfail
      cases hfail
  · rw [hrest ha, List.append_nil] at hl
    rw [heq, ← hl] at hc ⊢
    refine ⟨hc, hL.syncs ha hr T (fun u hu => ?_) (fun u hu => ?_) fun e he => ?_, hK⟩
    · obtain ⟨p, hp, rfl⟩ := List.mem_map.1 hu
      exact named_of_mem h hK hp
    · obtain ⟨p, hp, rfl⟩ := List.mem_map.1 hu
      have hlookup := GoMap.mem_range.1 hp
      rw [hc.directory_of_mem (T := T) (email_of_mem_range (h.email_eq T) hp), if_pos,
        (h.keyed T p.1 p.2 hlookup).1]
      · exact hlookup
      · refine (hstatus T).trans ?_
        rw [if_pos rfl, Manager.statusOf, Option.map_map]
        obtain ⟨t, ht⟩ := Option.ne_none_iff_exists'.1 hknown
        rw [ht]
        rfl
    · have hno : e ∉ (m.usersOf T).keys :=
        notMem_of_range (h.email_eq T) fun p hp => he p.2 (List.mem_map_of_mem hp)
      refine Eq.trans ?_ (hD e hno)
      exact h.directory_off hc
        ⟨fun T' hT => (hstatus T').trans (if_neg hT), fun _ _ => rfl⟩ hno hno

theorem resumeTenant (h : Refined X K m) (ha : env.AddsOk) (hr : env.RemovesOk)
    (hsave : env.save T = true) : Refined X K (m.resumeTenant X env T).1 := by
  by_cases hknown : m.reg.get T = none
  · obtain ⟨hsame, htenants⟩ := Manager.resumeTenant_frame X env m T
    have hc : Coherent (m.resumeTenant X env T).1 := h.coherent.congr hsame htenants
    rcases Manager.resumeTenant_cases X env m T with
      ⟨⟨err, heq⟩, -⟩ | ⟨done, rest, err, -, -, hyes, -⟩
    · rw [heq] at hc ⊢
      refine h.of_same hc rfl rfl (Manager.directory_congr ⟨rfl, rfl, rfl⟩ fun T' => ?_)
      rw [Manager.statusOf_resume]
      split_ifs with hT
      · rw [hT, Manager.statusOf, hknown]
        rfl
      · rfl
    · exact absurd hknown hyes
  · exact resumed h.coherent h.exact h.named ha hr hsave hknown fun _ _ => rfl

theorem resetTenant (h : Refined X K m) (ha : env.AddsOk) (hr : env.RemovesOk)
    (hsave : env.save T = true) : Refined X K (m.resetTenant X env T true).1 := by
  have hstatus := fun T' => Manager.statusOf_resetPeriod m true T T'
  have hc : Coherent { m with reg := (m.reg.resetPeriod true T).1 } :=
    h.coherent.congr ⟨rfl, rfl, rfl⟩ (Set.ext fun k =>
      Registry.get_modify_ne_none (f := Tenant.renewed) (fun _ => rfl) m.reg true T k)
  by_cases hknown : m.reg.get T = none
  · have hsame : Refined X K { m with reg := (m.reg.resetPeriod true T).1 } := by
      refine h.of_same hc rfl rfl (Manager.directory_congr ⟨rfl, rfl, rfl⟩ fun T' => ?_)
      rw [hstatus]
      split_ifs with hT
      · rw [hT, Manager.statusOf, hknown]
        rfl
      · rfl
    rcases Manager.resetTenant_cases X env m T true with ⟨⟨err, heq⟩, -⟩ | heq
    · rw [heq]
      exact hsame
    · rw [heq]
      exact hsame.resumeTenant ha hr hsave
  · rcases Manager.resetTenant_cases X env m T true with ⟨-, hnone | hfalse⟩ | heq
    · exact absurd hnone hknown
    · cases hfalse
    · -- the core still serves the directory from before the new period
      rw [heq]
      refine resumed hc (D := m.directory) h.exact h.named ha hr hsave ?_ fun e he => ?_
      · refine (Registry.get_modify_ne_none (f := Tenant.renewed) (fun _ => rfl) m.reg true T T).2 ?_
        exact hknown
      · exact h.coherent.directory_off hc
          ⟨fun T' hT => (hstatus T').trans (if_neg hT), fun _ _ => rfl⟩ he he

theorem deleteTenant (h : Refined X K m) (hr : env.RemovesOk) (hsave : env.save T = true) :
    Refined X K (m.deleteTenant X env T).1 := by
  have hc : Coherent (m.deleteTenant X env T).1 := h.coherent.deleteTenant X env T
  rcases Manager.deleteTenant_cases X env m T with ⟨⟨err, heq⟩, hbad⟩ | hdel
  · -- the write goes through, so the tenant is not known and has no users
    have hnone : m.reg.get T = none := hbad.resolve_right (by simp [hsave])
    have hempty : GoMap.range (env.order (.tenantUsers T)) (m.usersOf T) = [] := by
      refine List.eq_nil_iff_forall_not_mem.2 fun p hp => ?_
      exact h.coherent.registered T _ (email_of_mem_range (h.coherent.email_eq T) hp) hnone
    rw [heq, hempty]
    exact h
  · have hsame : Manager.SameBut T m (m.deleteTenant X env T).1 := by
      refine ⟨fun T' hT => ?_, fun T' hT => ?_⟩
      · rw [Manager.statusOf, hdel.get, if_neg hT]
        rfl
      · rw [hdel.usersOf, Function.update_of_ne hT]
    have hself : ∀ e, e ∉ ((m.deleteTenant X env T).1.usersOf T).keys := by
      intro e
      rw [hdel.usersOf, Function.update_self]
      simp
    refine ⟨hc, ?_, fun T' e he => ?_⟩
    · rw [hdel.live]
      refine h.exact.removeAll hr (fun p hp => named_of_mem h.coherent h.named hp)
        (fun p hp => ?_) fun e he => ?_
      · have hmem := email_of_mem_range (h.coherent.email_eq T) hp
        exact h.coherent.directory_dropped hc hsame hmem (hself _)
      · have hno := notMem_of_range (h.coherent.email_eq T) he
        exact h.coherent.directory_off hc hsame hno (hself e)
    · by_cases hT : T' = T
      · exact absurd he (hT ▸ hself e)
      · exact h.named T' e (hsame.usersOf T' hT ▸ he)

section Setting

variable {tn : Tenant} {gone done : List (String × User)}

theorem removed (h : Refined X K m) (hr : env.RemovesOk)
    (hset : Manager.Setting env m T us tn gone done []) :
    (m.live.removeAll X env gone).Exact X K fun e =>
      if e ∈ gone.map Prod.fst then none else m.directory e := by
  have hemail : ∀ p ∈ gone, p.2.email = p.1 := fun p hp =>
    h.coherent.email_eq T p.1 p.2 ((hset.mem_gone p).1 hp).1
  refine h.exact.removeAll hr (fun p hp => ?_) (fun p hp => ?_) fun e he =>
    if_neg fun hmem => ?_
  · rw [hemail p hp]
    exact h.named T p.1 (GoMap.mem_keys_iff.2 ⟨p.2, ((hset.mem_gone p).1 hp).1⟩)
  · rw [hemail p hp, if_pos (List.mem_map_of_mem hp)]
  · obtain ⟨p, hp, rfl⟩ := List.mem_map.1 hmem
    exact he p hp (hemail p hp)

theorem directory_off_newSet (h : Coherent m) (hc : Coherent m') (hsame : Manager.SameBut T m m')
    (hself : m'.usersOf T = m.newSet T us)
    (hset : Manager.Setting env m T us tn gone done []) (he : e ∉ (m.newSet T us).keys) :
    m'.directory e = if e ∈ gone.map Prod.fst then none else m.directory e := by
  split_ifs with hmem
  · have hin := (hset.mem_gone_keys_iff.1 hmem).1
    exact h.directory_dropped hc hsame hin (by rw [hself]; exact he)
  · have hno : e ∉ (m.usersOf T).keys := fun hin => hmem (hset.mem_gone_keys_iff.2 ⟨hin, he⟩)
    exact h.directory_off hc hsame hno (by rw [hself]; exact he)

theorem set_active (h : Refined X K m) (ha : env.AddsOk) (hr : env.RemovesOk)
    (hus : ∀ e ∈ (m.newSet T us).keys, e ∈ K) (hc : Coherent m')
    (hsame : Manager.SameBut T m m') (hself : m'.usersOf T = m.newSet T us)
    (hset : Manager.Setting env m T us tn gone done []) (hact : m'.statusOf T = some .active) :
    ((m.live.removeAll X env gone).syncs X env T (done.map Prod.snd)).Exact X K m'.directory := by
  have hfresh : GoMap.range (env.order .fresh) (m.newSet T us) = done := by
    rw [hset.fresh, List.append_nil]
  refine (h.removed hr hset).syncs ha hr T (fun u hu => ?_) (fun u hu => ?_) fun e he => ?_
  · obtain ⟨p, hp, rfl⟩ := List.mem_map.1 hu
    have hlookup := hset.lookup_of_mem_done hp
    exact (Coherent.keyed_newSet hlookup).1 ▸ hus p.1 (GoMap.mem_keys_iff.2 ⟨_, hlookup⟩)
  · obtain ⟨p, hp, rfl⟩ := List.mem_map.1 hu
    have hlookup := hset.lookup_of_mem_done hp
    have hemail := (Coherent.keyed_newSet hlookup).1
    have hmem : p.1 ∈ (m'.usersOf T).keys := by
      rw [hself]
      exact GoMap.mem_keys_iff.2 ⟨_, hlookup⟩
    rw [hemail, hc.directory_of_mem hmem, if_pos hact, hself, hlookup]
  · refine directory_off_newSet h.coherent hc hsame hself hset fun hin => ?_
    obtain ⟨u, hu⟩ := GoMap.mem_keys_iff.1 hin
    have hp : (e, u) ∈ done := by
      rw [← hfresh]
      exact GoMap.mem_range.2 hu
    exact he u (List.mem_map_of_mem hp) (Coherent.keyed_newSet hu).1

theorem set_inactive (h : Refined X K m) (hr : env.RemovesOk) (hc : Coherent m')
    (hsame : Manager.SameBut T m m') (hself : m'.usersOf T = m.newSet T us)
    (hset : Manager.Setting env m T us tn gone done []) (htenants : m'.tenants = m.tenants)
    (hstatus : m'.statusOf T = m.statusOf T) (hact : m.statusOf T ≠ some .active) :
    (m.live.removeAll X env gone).Exact X K m'.directory := by
  have hdir : m'.directory = fun e => if e ∈ gone.map Prod.fst then none else m.directory e := by
    funext e
    by_cases hnew : e ∈ (m.newSet T us).keys
    · obtain ⟨u, hu⟩ := GoMap.mem_keys_iff.1 hnew
      have hpre := (Coherent.keyed_newSet hu).2
      rw [hc.directory_of_inactive (htenants ▸ hset.mem_tenants) hpre (by rw [hstatus]; exact hact),
        h.coherent.directory_of_inactive hset.mem_tenants hpre hact, ite_self]
    · exact directory_off_newSet h.coherent hc hsame hself hset hnew
  rw [hdir]
  exact h.removed hr hset

/-- **A set replaced**: those who go are struck out, and if the tenant is
active the new set is entered. -/
theorem setTenantUsers (h : Refined X K m) (ha : env.AddsOk) (hr : env.RemovesOk)
    (hus : ∀ v ∈ us, namespacedEmail T v.email ∈ K) :
    Refined X K (m.setTenantUsers X env T us).1 := by
  have hnew : ∀ e ∈ (m.newSet T us).keys, e ∈ K := by
    intro e he
    obtain ⟨v, hv, rfl⟩ := Manager.mem_keys_newSet.1 he
    exact hus v hv
  rcases Manager.setTenantUsers_cases X env m T us with
    ⟨err, heq⟩ | ⟨tn, gone, done, rest, hset, ⟨err, -, -, -, hadd⟩ | ⟨rfl, heq⟩⟩
  · rw [heq]
    exact h
  · exact absurd ha hadd
  · have hc : Coherent { m.changed X env (tn.status = .active) T gone done with
        users := m.users.insert T (m.newSet T us) } := h.coherent.set_done hset _
    have hof := m.usersOf_insert T (m.newSet T us)
    have hsame : Manager.SameBut T m { m.changed X env (tn.status = .active) T gone done with
        users := m.users.insert T (m.newSet T us) } :=
      ⟨fun _ _ => rfl, fun T' hT => (congrFun hof T').trans (Function.update_of_ne hT ..)⟩
    have hself : Manager.usersOf { m.changed X env (tn.status = .active) T gone done with
        users := m.users.insert T (m.newSet T us) } T = m.newSet T us :=
      (congrFun hof T).trans (Function.update_self ..)
    rw [heq]
    refine ⟨hc, ?_, fun T' e he => ?_⟩
    swap
    · by_cases hT : T' = T
      · rw [hT, hself] at he
        exact hnew e he
      · exact h.named T' e (hsame.usersOf T' hT ▸ he)
    by_cases hact : tn.status = .active
    · have hsynced := set_active h ha hr hnew hc hsame hself hset (hact ▸ hset.statusOf_eq)
      simpa [Manager.changed, hact] using hsynced
    · have hno : m.statusOf T ≠ some .active := by
        rw [hset.statusOf_eq]
        simpa using hact
      have hremoved := set_inactive h hr hc hsame hself hset rfl rfl hno
      simpa [Manager.changed, hact] using hremoved

end Setting

theorem directory_takeOn (h : Coherent m) (hT : T ∈ m.tenants) {active : Bool}
    (hact : m.statusOf T = some .active ↔ active = true) (v : User)
    (hfree : m.takenByOther T (m.buildUser T v) = false) :
    (m.takeOn X env active T (m.buildUser T v)).directory =
      if active then Function.update m.directory (m.buildUser T v).email (some (m.buildUser T v))
      else m.directory := by
  have hc : Coherent (m.takeOn X env active T (m.buildUser T v)) := h.takeOn hT active v hfree
  have hof := Manager.usersOf_takeOn X env m active T (m.buildUser T v)
  have hself : Manager.usersOf (m.takeOn X env active T (m.buildUser T v)) T =
      (m.usersOf T).insert (m.buildUser T v).email (m.buildUser T v) := by
    rw [hof, Function.update_self]
  have hsame : Manager.SameBut T m (m.takeOn X env active T (m.buildUser T v)) :=
    ⟨fun _ _ => rfl, fun T' hT => by rw [hof, Function.update_of_ne hT]⟩
  funext e
  by_cases he : e = (m.buildUser T v).email
  · subst he
    have hin : (m.buildUser T v).email ∈
        (Manager.usersOf (m.takeOn X env active T (m.buildUser T v)) T).keys := by
      rw [hself]
      exact GoMap.mem_keys_iff.2 ⟨_, AList.lookup_insert _⟩
    rw [hc.directory_of_mem hin, hself, AList.lookup_insert]
    refine (if_congr hact rfl rfl).trans ?_
    cases active with
    | true =>
      show some (m.buildUser T v) = Function.update m.directory _ (some (m.buildUser T v)) _
      rw [Function.update_self]
    | false =>
      have hno : m.statusOf T ≠ some .active := fun hyes => by cases hact.1 hyes
      exact (h.directory_of_inactive hT (hasPrefix_namespacedEmail T v.email) hno).symm
  · -- an email other than the user's stands for whom it stood for
    have hlookup : (Manager.usersOf (m.takeOn X env active T (m.buildUser T v)) T).lookup e =
        (m.usersOf T).lookup e := by
      rw [hself, AList.lookup_insert_ne he]
    have hrest : (m.takeOn X env active T (m.buildUser T v)).directory e = m.directory e := by
      by_cases hold : e ∈ (m.usersOf T).keys
      · have hnew : e ∈ (Manager.usersOf (m.takeOn X env active T (m.buildUser T v)) T).keys := by
          rw [GoMap.mem_keys_iff, hlookup]
          exact GoMap.mem_keys_iff.1 hold
        rw [hc.directory_of_mem hnew, h.directory_of_mem hold, hlookup]
        rfl
      · refine h.directory_off hc hsame hold fun hnew => hold ?_
        rw [GoMap.mem_keys_iff, hlookup] at hnew
        exact GoMap.mem_keys_iff.2 hnew
    rw [hrest]
    split_ifs
    · rw [Function.update_of_ne he]
    · rfl

/-- **A user merged in**: entered, if the tenant is active. -/
theorem takeOn (h : Refined X K m) (ha : env.AddsOk) (hr : env.RemovesOk) (hT : T ∈ m.tenants)
    {active : Bool} (hact : m.statusOf T = some .active ↔ active = true) (v : User)
    (hfree : m.takenByOther T (m.buildUser T v) = false)
    (hv : namespacedEmail T v.email ∈ K) :
    Refined X K (m.takeOn X env active T (m.buildUser T v)) := by
  refine ⟨h.coherent.takeOn hT active v hfree, ?_, fun T' e he => ?_⟩
  · rw [directory_takeOn h.coherent hT hact v hfree]
    cases active with
    | true => exact h.exact.syncUser ha hr T _ hv
    | false => exact h.exact
  · rw [Manager.usersOf_takeOn, Function.update_apply] at he
    split_ifs at he with hT'
    · rw [← AList.mem_keys, AList.mem_insert, AList.mem_keys] at he
      rcases he with rfl | he
      · exact hv
      · exact h.named T e he
    · exact h.named T' e he

/-- **A merge**, wherever a refused credential stops it. -/
theorem addTenantUsers (h : Refined X K m) (ha : env.AddsOk) (hr : env.RemovesOk)
    (hus : ∀ v ∈ us, namespacedEmail T v.email ∈ K) :
    Refined X K (m.addTenantUsers X env T us).1 := by
  rcases Manager.addTenantUsers_cases X env m T us with ⟨err, heq⟩ | ⟨tn, hget, heq⟩
  · rw [heq]
    exact h
  · have hopen : Refined X K (m.opened T) := by
      refine h.of_same (h.coherent.opened T) rfl (m.usersOf_opened T) (funext fun e => ?_)
      unfold Manager.directory
      rw [Manager.usersOf_opened]
      rfl
    have hact : (m.opened T).statusOf T = some .active ↔ decide (tn.status = .active) = true := by
      rw [Manager.active_iff_of_get (m := m.opened T) hget, decide_eq_true_iff]
    rw [heq]
    exact (Manager.mergeUsers_rule (m := m.opened T) (I := fun m' => Refined X K m' ∧ T ∈ m'.tenants ∧
        (m'.statusOf T = some .active ↔ decide (tn.status = .active) = true))
      (fun m' v hv hm' hfree => ⟨hm'.1.takeOn ha hr hm'.2.1 hm'.2.2 v hfree (hus v hv), hm'.2⟩)
      ⟨hopen, Manager.mem_tenants_of_get hget, hact⟩).1

/-- **A config push enters everyone anew.** -/
theorem applyConfig (hX : X.Strict) (h : Refined X K m) (ha : env.AddsOk) (hr : env.RemovesOk)
    (configJSON : String) : Refined X K (m.applyConfig X env configJSON).1 := by
  have hc : Coherent (m.applyConfig X env configJSON).1 := by
    obtain ⟨hsame, hreg⟩ := Manager.applyConfig_frame X env m configJSON
    exact h.coherent.congr hsame (by rw [Manager.tenants, Manager.tenants, hreg])
  rcases Manager.applyConfig_cases X env m configJSON with ⟨err, heq⟩ | ⟨x, hx, heq⟩
  · rw [heq] at hc ⊢
    exact of_none hc rfl h.named
  · have hfresh : Live.Exact X K (fun _ => none) { m.live with core := some x } := by
      intro y hy
      obtain rfl := Option.some.inj hy
      exact Xray.Exact.of_fresh hX hx
    have hin : ∀ T e u, m.statusOf T = some .active → (m.usersOf T).lookup e = some u →
        m.directory u.email = some u := by
      intro T e u hact hu
      rw [(h.coherent.keyed T e u hu).1]
      exact h.coherent.directory_eq_some_iff.2 ⟨T, hact, hu⟩
    -- an active tenant with users is one the loop goes through
    have hkeys : ∀ T e u, (m.usersOf T).lookup e = some u → T ∈ m.users.keys := by
      intro T e u hu
      by_contra hno
      rw [Manager.usersOf, GoMap.notMem_keys_iff.1 hno] at hu
      cases hu
    obtain ⟨L, err, hres, hL⟩ := Manager.addTenantsToCore_exact (E := m.directory) ha hr
      ((env.order .tenants).run m.users.keys)
      { m with live := { m.live with core := some x }, config := configJSON } hfresh
      (fun T e u hu => h.named T _ (h.coherent.email_eq T e u hu ▸ GoMap.mem_keys_iff.2 ⟨u, hu⟩))
      (fun T _ hact e u hu => hin T e u hact hu) (fun e he => by
        rw [Option.eq_none_iff_forall_ne_some]
        intro u hu
        obtain ⟨T, hact, hlookup⟩ := h.coherent.directory_eq_some_iff.1 hu
        exact he T (Order.mem_run.2 (hkeys T e u hlookup)) hact e u hlookup
          (h.coherent.keyed T e u hlookup).1)
    rw [heq, hres] at hc ⊢
    exact ⟨hc, hL, h.named⟩

theorem enforce (h : Refined X K m) (hr : env.RemovesOk) (now : Int64) :
    Refined X K (m.enforce X env now) := by
  have hc : Coherent (m.enforce X env now) :=
    h.coherent.congr (Manager.enforce_frame X env m now).1 (Manager.enforce_frame X env m now).2
  have hstatus : ∀ T, (m.enforce X env now).statusOf T = some .active ↔
      ∃ t, m.reg.get T = some t ∧ t.status = .active ∧ ¬ t.Due now := by
    intro T
    rw [Manager.enforce_eq]
    show ((m.reg.enforce (env.order .byID) env.enforceSave now).1.get T).map Tenant.status = _ ↔ _
    rw [Registry.get_enforce, Option.map_map, Option.map_eq_some_iff]
    exact exists_congr fun t => and_congr_right fun _ => Tenant.enforced_active_iff
  have hof : ∀ T, (m.enforce X env now).usersOf T = m.usersOf T :=
    (Manager.enforce_frame X env m now).1.usersOf
  have hlive : (m.enforce X env now).live = m.live.removeAll X env
      (((m.reg.enforce (env.order .byID) env.enforceSave now).2.map fun c => c.tenant.id).flatMap
        fun id => GoMap.range (env.order (.tenantUsers id)) (m.usersOf id)) := by
    rw [Manager.enforce_eq]
  have hid := Registry.mem_enforce_iff m.reg (env.order .byID) env.enforceSave now
  refine ⟨hc, ?_, fun T e he => h.named T e (hof T ▸ he)⟩
  rw [hlive]
  refine h.exact.removeAll hr (fun p hp => ?_) (fun p hp => ?_) fun e he => ?_
  · obtain ⟨T, -, hp⟩ := List.mem_flatMap.1 hp
    exact named_of_mem h.coherent h.named hp
  · -- a user that is removed is of a tenant no longer active
    obtain ⟨T, hT, hp⟩ := List.mem_flatMap.1 hp
    obtain ⟨t, ht, hdue⟩ := (hid T).1 hT
    have hmem : p.2.email ∈ ((m.enforce X env now).usersOf T).keys := by
      rw [hof]
      exact email_of_mem_range (h.coherent.email_eq T) hp
    rw [hc.directory_of_mem hmem, if_neg]
    rw [hstatus]
    rintro ⟨t', ht', -, hno⟩
    obtain rfl := Option.some.inj (ht.symm.trans ht')
    exact hno hdue
  · -- an email that is not removed stands for whom it stood for: its tenant was not due
    refine Option.ext fun u => hc.directory_eq_some_iff.trans
      (Iff.trans (exists_congr fun T => ?_) h.coherent.directory_eq_some_iff.symm)
    rw [hof, hstatus]
    refine and_congr_left fun hu => ?_
    constructor
    · rintro ⟨t, ht, hact, -⟩
      rw [Manager.statusOf, ht, Option.map_some, hact]
    · intro hact
      obtain ⟨t, ht, hact⟩ := Option.map_eq_some_iff.1 hact
      refine ⟨t, ht, hact, fun hdue => ?_⟩
      exact he (e, u) (List.mem_flatMap.2 ⟨T, (hid T).2 ⟨t, ht, hdue⟩, GoMap.mem_range.2 hu⟩)
        (h.coherent.keyed T e u hu).1

theorem collectAndEnforce (h : Refined X K m) (hr : env.RemovesOk) (now : Int64) :
    Refined X K (m.collectAndEnforce X env now).1 := by
  have haccount : ∀ stats, Refined X K (m.account env stats).1 := by
    intro stats
    obtain ⟨hsame, htenants⟩ := Manager.account_frame env m stats
    refine h.of_same (h.coherent.congr hsame htenants) (by rw [Manager.account_eq])
      (funext hsame.usersOf) ?_
    exact Manager.directory_congr hsame fun T => Manager.statusOf_account env m stats T
  -- no core; no answer; a usage refused; all billed
  rcases Manager.collectAndEnforce_cases X env m now with
    ⟨-, heq⟩ | ⟨-, ⟨-, heq⟩ | ⟨-, ⟨err, -, heq⟩ | ⟨-, heq⟩⟩⟩
  · rw [heq]; exact h
  · rw [heq]; exact h.enforce hr now
  · rw [heq]; exact haccount _
  · rw [heq]; exact (haccount _).enforce hr now

/-- **One step.** -/
theorem step (hX : X.Strict) (h : Refined X K m) {l : Env × Op} (hl : QuietStep m l)
    (hnamed : ∀ e ∈ l.2.named, e ∈ K) : Refined X K (m.step X l) := by
  obtain ⟨env, op⟩ := l
  cases op with
  | createTenant p => exact h.createTenant (env.save p.id) p (hl.apart p rfl)
  | setQuota id q c exp =>
    have hframe := Manager.step_frame X env m (.setQuota id q c exp) rfl
    refine h.of_same (h.coherent.congr hframe.1 (hframe.2 rfl)) rfl rfl ?_
    exact Manager.directory_congr hframe.1 fun T =>
      Manager.statusOf_setQuota m (env.save id) id q c exp T
  | resetPeriod id => exact absurd rfl (hl.whole id)
  | suspend id reason => exact h.suspendTenant hl.removes (hl.saves id) reason
  | resume id => exact h.resumeTenant hl.adds hl.removes (hl.saves id)
  | reset id saved =>
    obtain rfl := hl.renewed id saved rfl
    exact h.resetTenant hl.adds hl.removes (hl.saves id)
  | delete id => exact h.deleteTenant hl.removes (hl.saves id)
  | setUsers id us =>
    exact h.setTenantUsers hl.adds hl.removes fun v hv => hnamed _ (List.mem_map_of_mem hv)
  | addUsers id us =>
    exact h.addTenantUsers hl.adds hl.removes fun v hv => hnamed _ (List.mem_map_of_mem hv)
  | applyConfig c => exact h.applyConfig hX hl.adds hl.removes c
  | restartCore =>
    show Refined X K (m.restartCore X env).1
    unfold Manager.restartCore
    split
    · exact h
    · exact h.applyConfig hX hl.adds hl.removes m.config
  | stop => exact of_none (h.coherent.congr ⟨rfl, rfl, rfl⟩ rfl) rfl h.named
  | poll now => exact h.collectAndEnforce hl.removes now
  | coreRestart =>
    refine ⟨h.coherent.congr ⟨rfl, rfl, rfl⟩ rfl, fun y hy => ?_, h.named⟩
    obtain ⟨x, hx, rfl⟩ := Option.map_eq_some_iff.1 hy
    exact (h.exact x hx).restart
  | traffic email up down =>
    refine ⟨h.coherent.congr ⟨rfl, rfl, rfl⟩ rfl, fun y hy => ?_, h.named⟩
    obtain ⟨x, hx, rfl⟩ := Option.map_eq_some_iff.1 hy
    obtain ⟨hsane, hlisted, hlive, hkept⟩ := h.exact x hx
    exact ⟨hsane, hlisted, hlive, hkept⟩

/-- **A whole run**, from a manager without users. -/
theorem of_path (hX : X.Strict) {reg : Registry} {force : List String}
    (hpf : PrefixFree { T | reg.get T ≠ none })
    (h : Runs.Path (Manager.step X) (fun m l => QuietStep m l ∧
      ∀ e ∈ l.2.named, e ∈ K) (Manager.new reg force) m) : Refined X K m :=
  h.invariant (fun _ _ hm hl => hm.step hX hl.1 hl.2)
    (of_none (Agree.of_empty hpf (fun _ => rfl) fun _ => rfl) rfl
      fun _ _ he => absurd he (List.not_mem_nil))

end Refined

/-- **The core refines the books.** Along every run in which nothing fails
and Xray tells the emails of the users apart, whenever the core runs, an
email is live on an inbound with a credential if and only if it is a user's
of an active tenant that the inbound accepts with that credential. In
particular a tenant that is reactivated, or reset, has the users back that
are in its set, and that set is the one it had. -/
theorem core_refines_books (hX : X.Strict) {reg : Registry} {force : List String}
    (hpf : PrefixFree { T | reg.get T ≠ none }) (hK : Set.InjOn X.table.key K)
    (h : Runs.Path (Manager.step X) (fun m l => QuietStep m l ∧ ∀ e ∈ l.2.named, e ∈ K)
      (Manager.new reg force) m) :
    (∀ x, m.live.core = some x → ∀ i ∈ x.config.inboundConfigs, ∀ e c,
      (x.process.live i.tag e).map Account.credential = some c ↔
        ∃ T u, m.statusOf T = some .active ∧ (m.usersOf T).lookup e = some u ∧
          (i.isActiveInbound u.inbounds (setupUserAccount X.uuidParse u)).map Account.credential =
            some c) ∧
    (∀ env T reason, (m.step X (env, .suspend T reason)).users = m.users) ∧
    ∀ env T op, op = .resume T ∨ op = .reset T true → QuietStep m (env, op) →
      m.reg.get T ≠ none → (m.step X (env, op)).users = m.users ∧
        ∀ x, (m.step X (env, op)).live.core = some x → ∀ i ∈ x.config.inboundConfigs,
          ∀ e u, (m.usersOf T).lookup e = some u →
            (x.process.live i.tag e).map Account.credential =
              (i.isActiveInbound u.inbounds (setupUserAccount X.uuidParse u)).map
                Account.credential := by
  have hm := Refined.of_path hX hpf h
  refine ⟨fun x hx i hi e c => ?_, fun env T reason => ?_, fun env T op hop hl hknown => ?_⟩
  · rw [(hm.exact x hx).live_of_injOn hK hi e, Option.map_bind, Option.bind_eq_some_iff]
    constructor
    · rintro ⟨u, hu, hcred⟩
      obtain ⟨T, hact, hlookup⟩ := hm.coherent.directory_eq_some_iff.1 hu
      exact ⟨T, u, hact, hlookup, hcred⟩
    · rintro ⟨T, u, hact, hlookup, hcred⟩
      exact ⟨u, hm.coherent.directory_eq_some_iff.2 ⟨T, hact, hlookup⟩, hcred⟩
  · exact (Manager.step_frame X env m (.suspend T reason) rfl).1.users
  · have hnext : Refined X K (m.step X (env, op)) := hm.step hX hl fun e he => by
      rcases hop with rfl | rfl <;> exact absurd he (List.not_mem_nil)
    have husers : (m.step X (env, op)).users = m.users := by
      rcases hop with rfl | rfl
      · exact (Manager.step_frame X env m (.resume T) rfl).1.users
      · exact (Manager.step_frame X env m (.reset T true) rfl).1.users
    have hact : (m.step X (env, op)).statusOf T = some .active := by
      obtain ⟨t, ht⟩ := Option.ne_none_iff_exists'.1 hknown
      rcases hop with rfl | rfl
      · refine (Manager.statusOf_resumeTenant X env m T T).trans ?_
        rw [if_pos rfl, Manager.statusOf, ht]
        rfl
      · refine (Manager.statusOf_resetTenant X env m T true).trans ?_
        rw [Manager.statusOf, ht]
        rfl
    refine ⟨husers, fun x hx i hi e u hu => ?_⟩
    have hlookup : ((m.step X (env, op)).usersOf T).lookup e = some u := by
      rw [Manager.usersOf, husers]
      exact hu
    have hd := hnext.coherent.directory_eq_some_iff.2 ⟨T, hact, hlookup⟩
    rw [(hnext.exact x hx).live_of_injOn hK hi e, hd, Option.bind_some]
    rfl

theorem Demo.strict : Demo.externals.Strict := by
  have haccepts : ∀ c, Demo.externals.accepts c = true →
      (c.inboundConfigs.map Inbound.tag).Nodup ∧ ∀ i ∈ c.inboundConfigs, i.method = none := by
    intro c hc
    have hc' : (decide ((c.inboundConfigs.map Inbound.tag).Nodup) &&
      c.inboundConfigs.all fun i => i.method.isNone) = true := hc
    rw [Bool.and_eq_true, decide_eq_true_eq, List.all_eq_true] at hc'
    exact ⟨hc'.1, fun i hi => Option.isNone_iff_eq_none.1 (hc'.2 i hi)⟩
  refine ⟨fun c hc => (haccepts c hc).1, fun c hc i hi method hm => ?_⟩
  rw [Inbound.method2022, (haccepts c hc).2 i hi] at hm
  cases hm

def Demo.plain : Op → Bool
  | .createTenant _ | .resetPeriod _ | .reset _ _ => false
  | _ => true

theorem Demo.quietStep (m : Manager) {op : Op} (hop : Demo.plain op = true) :
    QuietStep m (.calm, op) := by
  refine ⟨fun _ => rfl, fun _ => rfl, fun _ => rfl, fun p hp => ?_, fun T hT => ?_,
    fun T saved hT => ?_⟩
  · obtain rfl : op = _ := hp
    cases hop
  · obtain rfl : op = _ := hT
    cases hop
  · obtain rfl : op = _ := hT
    cases hop

theorem Demo.quietRun (ids names : List String) (ops : List Op)
    (hops : (ops.all fun op => Demo.plain op && op.named.all (· ∈ names)) = true) :
    Runs.Path (Manager.step Demo.externals)
      (fun m l => QuietStep m l ∧ ∀ e ∈ l.2.named, e ∈ { e | e ∈ names })
      (Manager.new (Demo.registry ids) []) (Demo.run ops (Demo.node ids)) := by
  refine Demo.path_run (.snoc (Env.calm, Op.applyConfig "config") .refl
    ⟨Demo.quietStep _ rfl, fun e he => absurd he (List.not_mem_nil)⟩) fun m op hop => ?_
  have hop' := List.all_eq_true.1 hops op hop
  rw [Bool.and_eq_true, List.all_eq_true] at hop'
  exact ⟨Demo.quietStep m hop'.1, fun e he => of_decide_eq_true (hop'.2 e he)⟩

/-- A user of a tenant that was suspended and reactivated is live with its
password, also after the core has been started again. -/
theorem live_after_resume_and_restart :
    let m := Demo.run [.setUsers "a" [Demo.user "x" "one"], .suspend "a" .manual, .resume "a",
      .coreRestart] (Demo.node ["a"])
    ∃ x, m.live.core = some x ∧
      (x.process.live "in" "ta.x").map Account.credential = some (.trojan ⟨"ta.x", 0⟩ "one") := by
  have hapart : Set.InjOn Demo.externals.table.key { e | e ∈ ["ta.x"] } := by
    intro e he e' he' _
    exact (List.mem_singleton.1 he).trans (List.mem_singleton.1 he').symm
  have hpath := Demo.quietRun ["a"] ["ta.x"] [.setUsers "a" [Demo.user "x" "one"],
    .suspend "a" .manual, .resume "a", .coreRestart] (by decide)
  have hrun := (core_refines_books Demo.strict (Demo.prefixFree (by decide)) hapart hpath).1
  refine ⟨_, rfl, (hrun _ rfl _ (List.mem_cons_of_mem _ (List.mem_cons_self ..)) "ta.x" _).2 ?_⟩
  exact ⟨"a", _, by decide, rfl, rfl⟩

/-- **A tenant that takes another's user off**: neither prefix is the start
of the other, nothing fails, and the second tenant's user is the first's to
Xray. The same can happen to two users of one tenant. -/
theorem live_user_displaced :
    let m := Demo.run [.setUsers "a" [Demo.user "x" "one"], .setUsers "A" [Demo.user "x" "two"]]
      (Demo.node ["a", "A"])
    let m' := Demo.run [.setUsers "a" [Demo.user "Bob" "one", Demo.user "bob" "two"]]
      (Demo.node ["a"])
    (PrefixFree { T | (Demo.registry ["a", "A"]).get T ≠ none } ∧
      Runs.Path (Manager.step Demo.externals) QuietStep
        (Manager.new (Demo.registry ["a", "A"]) []) m) ∧
    (m.statusOf "a" = some .active ∧ (m.usersOf "a").keys = ["ta.x"] ∧
      m.live.on "in" "ta.x" = none ∧ (m.live.on "in" "tA.x").isSome = true) ∧
    (m'.usersOf "a").keys = ["ta.bob", "ta.Bob"] ∧ m'.live.on "in" "ta.bob" = none ∧
      (m'.live.on "in" "ta.Bob").isSome = true := by
  refine ⟨⟨Demo.prefixFree (by decide), ?_⟩, by decide +kernel, by decide +kernel⟩
  exact (Demo.quietRun ["a", "A"] ["ta.x", "tA.x"] _ (by decide)).mono fun m l hl => hl.1

end NodeAgent
