import NodeAgent.Shared.Helpers.Settle
/-!
# Taking a user off the core

A user without inbounds is one the core is to drop: the node's own
removals are syncs of that kind. A panel that sends such a user over
`AddTenantUsers` or `SetTenantUsers` gets that, unless the node forces
users on inbounds of its own, for then an empty list is replaced like any
other. So it is exact to say that a revocation reaches the core where no
forced inbound has an account for the user, as long as the removals are not
refused; and if they may be, where the user was never on the core at all.
(A list in which Xray takes another user for this one can take it off by
chance.)
-/

namespace NodeAgent

open History

variable {X : Externals} {env : Env}

/-- The two ways a panel sends users. -/
inductive Push
  /-- `SetTenantUsers`, the whole set. -/
  | set
  /-- `AddTenantUsers`, one after another. -/
  | add

namespace Manager

variable {m : Manager} {T : String} {us : List User} {u : User} {kind : Push}

/-- A panel sends users. -/
def push (X : Externals) (env : Env) (m : Manager) (T : String) (us : List User) :
    Push → Manager × Option ManagerErr
  | .set => m.setTenantUsers X env T us
  | .add => m.addTenantUsers X env T us

/-- The credentials of the users let them through. -/
def Accepts (m : Manager) (T : String) (us : List User) : Push → Prop
  | .set => m.Admissible T (m.newSet T us)
  | .add => ∀ v ∈ us, m.takenByOther T (m.buildUser T v) = false

/-- The users a call syncs, as they are applied to the core. -/
def synced (m : Manager) (T : String) (us : List User) : Push → List User
  | .set => (GoMap.range .given (m.newSet T us)).map Prod.snd
  | .add => us.map (m.buildUser T)

variable (X env) in
theorem push_ok_iff (ha : env.AddsOk) (hT : m.reg.get T ≠ none) :
    (m.push X env T us kind).2 = none ↔ m.Accepts T us kind := by
  cases kind with
  | set =>
    have h := setTenantUsers_ok_iff X m T us ha
    exact h.trans (and_iff_right hT)
  | add =>
    have h := addTenantUsers_ok_iff X m T us ha
    exact h.trans (and_iff_right hT)

theorem free_of_mergeUsers_ok {m : Manager} {active : Bool}
    (h : (m.mergeUsers X env active T us).2 = none) :
    ∀ u ∈ us, m.takenByOther T (m.buildUser T u) = false := by
  induction us generalizing m with
  | nil => exact fun u hu => absurd hu (List.not_mem_nil)
  | cons u us ih =>
    rcases mergeUsers_cons X env active T u us m with
      ⟨-, heq⟩ | ⟨hfree, heq | ⟨⟨err, heq⟩, -⟩⟩
    · rw [heq] at h
      cases h
    · rw [heq] at h
      intro v hv
      rcases List.mem_cons.1 hv with rfl | hv
      · exact hfree
      · have hown := hasPrefix_namespacedEmail T u.email
        have hv' := ih h v hv
        rw [buildUser_takeOn, takenByOther_takeOn hown hfree] at hv'
        exact hv'
    · rw [heq] at h
      cases h

theorem accepts_of_ok (h : (m.push X env T us kind).2 = none) : m.Accepts T us kind := by
  cases kind with
  | set =>
    by_contra hno
    obtain ⟨err, heq⟩ := setTenantUsers_refused X env (Or.inr hno)
    have h' : (m.setTenantUsers X env T us).2 = none := h
    rw [heq] at h'
    cases h'
  | add =>
    have h' : (m.addTenantUsers X env T us).2 = none := h
    rcases addTenantUsers_cases X env m T us with ⟨err, heq⟩ | ⟨tn, -, heq⟩
    · rw [heq] at h'
      cases h'
    · rw [heq] at h'
      exact fun v hv => free_of_mergeUsers_ok h' v hv

/-! ## What a call that succeeds has synced -/

theorem addFresh_ok {l : List (String × User)} {m : Manager}
    (h : (m.addFresh X env true T l).2 = none) :
    Live.SyncsOk X env T (l.map Prod.snd) m.live := by
  induction l generalizing m with
  | nil => trivial
  | cons p l ih =>
    obtain ⟨email, u⟩ := p
    rw [addFresh] at h
    split at h
    · rename_i m' heq
      have hstate : m'.live = (m.live.syncUser X env T u).1 := by
        have hfst := congrArg (fun r => r.1.live) heq
        exact hfst.symm
      have hok : (m.live.syncUser X env T u).2 = [] := congrArg Prod.snd heq
      refine ⟨hok, ?_⟩
      rw [← hstate]
      exact ih h
    · cases h

theorem mergeUsers_ok {m : Manager} (h : (m.mergeUsers X env true T us).2 = none) :
    Live.SyncsOk X env T (us.map (m.buildUser T)) m.live ∧
      (m.mergeUsers X env true T us).1.live = m.live.syncs X env T (us.map (m.buildUser T)) := by
  induction us generalizing m with
  | nil => exact ⟨trivial, rfl⟩
  | cons u us ih =>
    rw [mergeUsers] at h ⊢
    by_cases htaken : m.takenByOther T (m.buildUser T u) = true
    · rw [if_pos htaken] at h
      cases h
    · rw [if_neg htaken] at h ⊢
      cases hsync : ((m.record T (m.buildUser T u)).index T (m.buildUser T u).email
          (m.buildUser T u)).syncIf X env true T (m.buildUser T u) with
      | mk m' failed =>
        rw [hsync] at h
        have hm' : m' = (((m.record T (m.buildUser T u)).index T (m.buildUser T u).email
            (m.buildUser T u)).syncIf X env true T (m.buildUser T u)).1 := by rw [hsync]
        have hlive' : m'.live = (m.live.syncUser X env T (m.buildUser T u)).1 := by
          rw [hm']
          rfl
        have hbuild : m'.buildUser T = m.buildUser T := by
          rw [hm']
          rfl
        have hfailed : (m.live.syncUser X env T (m.buildUser T u)).2 = failed :=
          congrArg Prod.snd hsync
        cases failed with
        | cons tag failed => cases h
        | nil =>
          obtain ⟨hrest, hlive⟩ := ih h
          rw [hbuild, hlive'] at hrest hlive
          exact ⟨⟨hfailed, hrest⟩, hlive⟩

/-- **What a call for an active tenant that succeeds has done to the
core**: removals, and then syncs none of which reported an error. -/
structure Pushed (X : Externals) (env : Env) (m : Manager) (T : String) (us : List User)
    (kind : Push) (gone : List (String × User)) (vs : List User) : Prop where
  live : (m.push X env T us kind).1.live = (m.live.removeAll X env gone).syncs X env T vs
  ok : Live.SyncsOk X env T vs (m.live.removeAll X env gone)
  last : ∀ e, latest (fun u => u.email = e) vs = (m.newSet T us).lookup e
  mem : ∀ w, w ∈ vs ↔ w ∈ m.synced T us kind

theorem pushed_set {tn : Tenant} (hget : m.reg.get T = some tn) (hact : tn.status = .active)
    (h : (m.setTenantUsers X env T us).2 = none) :
    Pushed X env m T us .set (m.stale env T (m.newSet T us))
      ((GoMap.range (env.order .fresh) (m.newSet T us)).map Prod.snd) := by
  have hmem : ∀ w, w ∈ (GoMap.range (env.order .fresh) (m.newSet T us)).map Prod.snd ↔
      w ∈ m.synced T us .set := fun w => by
    simp only [synced, List.mem_map, Prod.exists, GoMap.mem_range]
  have hlatest : ∀ e, latest (fun u => u.email = e)
      ((GoMap.range (env.order .fresh) (m.newSet T us)).map Prod.snd) =
        (m.newSet T us).lookup e :=
    latest_range (fun x u hu => (Coherent.keyed_newSet hu).1) _
  have hdropped : (m.dropStale X env (m.newSet T us)
      (GoMap.range (env.order .stale) (m.usersOf T))).live =
        m.live.removeAll X env (m.stale env T (m.newSet T us)) := by
    rw [dropStale_eq]
    rfl
  -- the loop over the new set got through, so each of its syncs did
  suffices hlive : (m.setTenantUsers X env T us).1.live =
      (m.live.removeAll X env (m.stale env T (m.newSet T us))).syncs X env T
        ((GoMap.range (env.order .fresh) (m.newSet T us)).map Prod.snd) ∧
      Live.SyncsOk X env T ((GoMap.range (env.order .fresh) (m.newSet T us)).map Prod.snd)
        (m.live.removeAll X env (m.stale env T (m.newSet T us))) from
    ⟨hlive.1, hlive.2, hlatest, hmem⟩
  rw [← hdropped]
  simp only [setTenantUsers, hget, hact, decide_true] at h ⊢
  cases hcheck : checkBatch m.creds (tenantPrefix T)
      (GoMap.range (env.order .batch) (m.newSet T us)) with
  | error err =>
    rw [hcheck] at h
    cases h
  | ok b =>
    rw [hcheck] at h
    obtain ⟨done, rest, hfresh, hres, hrest, -⟩ := addFresh_spec X env true T
      (GoMap.range (env.order .fresh) (m.newSet T us))
      (m.dropStale X env (m.newSet T us) (GoMap.range (env.order .stale) (m.usersOf T)))
    cases hloop : (m.dropStale X env (m.newSet T us)
        (GoMap.range (env.order .stale) (m.usersOf T))).addFresh X env true T
          (GoMap.range (env.order .fresh) (m.newSet T us)) with
    | mk m' err =>
      simp only [hloop] at h hres hrest ⊢
      cases err with
      | some err => cases h
      | none =>
        obtain rfl := hrest rfl
        rw [List.append_nil] at hfresh
        refine ⟨?_, addFresh_ok (by rw [hloop])⟩
        rw [hres, hfresh]
        rfl

theorem exists_pushed {tn : Tenant} (hget : m.reg.get T = some tn) (hact : tn.status = .active)
    (h : (m.push X env T us kind).2 = none) :
    ∃ gone vs, Pushed X env m T us kind gone vs := by
  cases kind with
  | set => exact ⟨_, _, pushed_set hget hact h⟩
  | add =>
    have h' : (m.addTenantUsers X env T us).2 = none := h
    have hopen : m.addTenantUsers X env T us = (m.opened T).mergeUsers X env true T us := by
      simp only [addTenantUsers, hget, hact, decide_true]
      rfl
    rw [hopen] at h'
    obtain ⟨hok, hlive⟩ := mergeUsers_ok h'
    refine ⟨[], us.map (m.buildUser T), ?_, hok, fun e => ?_, fun w => Iff.rfl⟩
    · show (m.addTenantUsers X env T us).1.live = _
      rw [hopen]
      exact hlive
    · rw [lookup_newSet_eq, incoming, List.map_map]
      rfl

/-! ## Whether a revocation reaches the core -/

/-- **No inbound keeps the user**: a forced one has no account for it where
it is the one to decide at its tag, and it is not live where no inbound
takes users. -/
structure Revocable (X : Externals) (m : Manager) (T : String) (u : User) : Prop where
  unforced : ∀ tag i, Inbound.lastAt (m.live.shape.getD []) tag = some i →
    tag ∈ m.forceInbounds → i.accountOf X (withInbounds (m.buildUser T u) [tag]) = none
  elsewhere : ∀ tag, tag ∉ m.live.tags → m.live.on tag (namespacedEmail T u.email) = none

/-- **The user is nowhere, and no entry of the call puts it anywhere.** -/
structure NeverOn (X : Externals) (m : Manager) (T : String) (us : List User) (kind : Push)
    (u : User) : Prop where
  off : ∀ tag, m.live.on tag (namespacedEmail T u.email) = none
  unserved : ∀ w ∈ m.synced T us kind, w.email = namespacedEmail T u.email →
    ∀ i ∈ m.live.shape.getD [], i.exclude = false → i.accountOf X w = none

theorem inbounds_buildUser (m : Manager) (T : String) (hempty : u.inbounds = []) :
    (m.buildUser T u).inbounds = m.forceInbounds := by
  show (if 0 < m.forceInbounds.length then m.forceInbounds else u.inbounds) = _
  split_ifs with h
  · rfl
  · rw [hempty, List.eq_nil_of_length_eq_zero (Nat.eq_zero_of_not_pos h)]

theorem accountOf_eq_none_iff (i : Inbound) (w : User) :
    i.accountOf X w = none ↔
      (i.tag ∈ w.inbounds → i.accountOf X (withInbounds w [i.tag]) = none) := by
  by_cases htag : i.tag ∈ w.inbounds
  · have hsame : i.accountOf X (withInbounds w [i.tag]) = i.accountOf X w := by
      unfold Inbound.accountOf Inbound.isActiveInbound
      rw [if_pos htag, if_pos (show i.tag ∈ (withInbounds w [i.tag]).inbounds from
        List.mem_singleton_self i.tag)]
      rfl
    rw [hsame]
    exact ⟨fun h _ => h, fun h => h htag⟩
  · refine iff_of_true ?_ fun h => absurd h htag
    unfold Inbound.accountOf Inbound.isActiveInbound
    rw [if_neg htag]

theorem lookup_newSet_last (m : Manager) (T : String)
    (hlast : latest (fun v => v.email = u.email) us = some u) :
    (m.newSet T us).lookup (namespacedEmail T u.email) = some (m.buildUser T u) := by
  have hsame : ((fun w : User => decide (w.email = namespacedEmail T u.email)) ∘ m.buildUser T) =
      fun v : User => decide (v.email = u.email) := by
    funext v
    show decide (tenantPrefix T ++ v.email = tenantPrefix T ++ u.email) = _
    simp
  rw [lookup_newSet_eq, incoming, List.map_map]
  show latest _ (us.map (m.buildUser T)) = _
  rw [latest_map, hsame, hlast]
  rfl

variable {tn : Tenant} {gone : List (String × User)} {vs : List User}

theorem email_of_mem_synced {w : User} (hw : w ∈ m.synced T us kind) :
    ∃ v ∈ us, w.email = namespacedEmail T v.email := by
  cases kind with
  | set =>
    obtain ⟨p, hp, rfl⟩ := List.mem_map.1 hw
    obtain ⟨v, hv, -, heq⟩ := lookup_newSet (GoMap.mem_range.1 hp)
    exact ⟨v, hv, by rw [heq]; rfl⟩
  | add =>
    obtain ⟨v, hv, rfl⟩ := List.mem_map.1 hw
    exact ⟨v, hv, rfl⟩

/-- **The last user synced that is this one to Xray decides**, where no
removal was refused. If it has the email, it is the one sent. -/
theorem Pushed.exists_last (h : Pushed X env m T us kind gone vs) (hr : env.RemovesLand)
    (hlast : latest (fun v => v.email = u.email) us = some u) :
    ∃ w ∈ m.synced T us kind,
      X.table.key (namespacedEmail T u.email) = X.table.key w.email ∧
      (w.email = namespacedEmail T u.email → w = m.buildUser T u) ∧
      ∀ tag, (m.push X env T us kind).1.live.on tag (namespacedEmail T u.email) =
        ((m.live.settled X w tag).map fun a => w.leaves a (namespacedEmail T u.email)).getD
          (m.live.on tag (namespacedEmail T u.email)) := by
  have hthin := Live.thinned_removeAll X env m.live gone
  have hself := (h.last _).trans (lookup_newSet_last m T hlast)
  have hform : ∀ w : User, decide (w.email = namespacedEmail T u.email) = true →
      decide (X.table.key (namespacedEmail T u.email) = X.table.key w.email) = true := fun w hw =>
    decide_eq_true (congrArg _ (of_decide_eq_true hw).symm)
  cases hw : latest (fun w => X.table.key (namespacedEmail T u.email) = X.table.key w.email) vs with
  | none =>
    have hno := latest_eq_none_iff.1 hw _ (mem_of_latest hself).1
    exact absurd (hform _ (mem_of_latest hself).2) hno
  | some w =>
    obtain ⟨hmem, hkey⟩ := mem_of_latest hw
    refine ⟨w, (h.mem w).1 hmem, of_decide_eq_true hkey, fun he => ?_, fun tag => ?_⟩
    · exact Option.some.inj ((latest_of_imp hw (decide_eq_true he) hform).symm.trans hself)
    · rw [h.live, Live.on_syncs_of_ok hr h.ok, hw, Option.bind_some,
        Live.settled_congr hthin.shape]
      cases hsettled : m.live.settled X w tag with
      | some a => rfl
      | none =>
        refine hthin.untaken tag _ ((Live.lastAt_eq_none_iff m.live tag).1 ?_)
        simpa [Live.settled] using hsettled

theorem accountOf_forced_iff (hempty : u.inbounds = []) {tag : String} {i : Inbound}
    (hi : Inbound.lastAt (m.live.shape.getD []) tag = some i) :
    i.accountOf X (m.buildUser T u) = none ↔ (tag ∈ m.forceInbounds →
      i.accountOf X (withInbounds (m.buildUser T u) [tag]) = none) := by
  obtain ⟨-, rfl, -⟩ := Inbound.lastAt_eq_some hi
  rw [accountOf_eq_none_iff, inbounds_buildUser m T hempty]

/-- **Where no removal was refused, the user is off the core if no inbound
keeps it.** -/
theorem Pushed.off_of_revocable (h : Pushed X env m T us kind gone vs) (hr : env.RemovesLand)
    (hempty : u.inbounds = []) (hlast : latest (fun v => v.email = u.email) us = some u)
    (hrev : Revocable X m T u) (tag : String) :
    (m.push X env T us kind).1.live.on tag (namespacedEmail T u.email) = none := by
  obtain ⟨w, -, -, hself, hon⟩ := h.exists_last hr hlast
  rw [hon, Live.settled]
  cases hi : Inbound.lastAt (m.live.shape.getD []) tag with
  | none => exact hrev.elsewhere tag ((Live.lastAt_eq_none_iff m.live tag).1 hi)
  | some i =>
    -- another user of its form leaves it nothing
    simp only [Option.map_some, Option.getD_some, User.leaves]
    split_ifs with he
    · rw [hself he.symm, (accountOf_forced_iff hempty hi).2 (hrev.unforced tag i hi)]
      rfl
    · rfl

/-- **And only then**, if no other user of the list is this one to Xray. -/
theorem Pushed.revocable_of_off (h : Pushed X env m T us kind gone vs) (hr : env.RemovesLand)
    (hempty : u.inbounds = []) (hlast : latest (fun v => v.email = u.email) us = some u)
    (halone : ∀ v ∈ us, X.table.key (namespacedEmail T u.email) =
      X.table.key (namespacedEmail T v.email) → v.email = u.email)
    (hoff : ∀ tag, (m.push X env T us kind).1.live.on tag (namespacedEmail T u.email) = none) :
    Revocable X m T u := by
  obtain ⟨w, hw, hkey, hself, hon⟩ := h.exists_last hr hlast
  obtain ⟨v, hv, hwv⟩ := email_of_mem_synced hw
  obtain rfl : w = m.buildUser T u := by
    refine hself ?_
    rw [hwv] at hkey ⊢
    rw [halone v hv hkey]
  simp only [hon] at hoff
  refine ⟨fun tag i hi => (accountOf_forced_iff hempty hi).1 ?_, fun tag htag => ?_⟩
  · have hleft := hoff tag
    rw [Live.settled, hi, Option.map_some, Option.map_some, Option.getD_some] at hleft
    exact Option.map_eq_none_iff.1 ((User.leaves_self (m.buildUser T u) _).symm.trans hleft)
  · have hleft := hoff tag
    rw [Live.settled, (Live.lastAt_eq_none_iff m.live tag).2 htag] at hleft
    exact hleft

theorem Pushed.off_of_neverOn (h : Pushed X env m T us kind gone vs)
    (hnever : NeverOn X m T us kind u) (tag : String) :
    (m.push X env T us kind).1.live.on tag (namespacedEmail T u.email) = none := by
  have hthin := Live.thinned_removeAll X env m.live gone
  rw [h.live]
  refine Live.off_syncs (fun w hw he => ?_) (fun tag => ?_) tag
  · rw [hthin.shape]
    exact hnever.unserved w ((h.mem w).1 hw) he
  · by_contra hon
    exact hthin.less tag _ hon (hnever.off tag)

/-- Any other one is left on by refused removals, if no other user of the
list is this one to Xray. -/
theorem Pushed.neverOn_of_off (h : Pushed X env m T us kind gone vs) (ha : env.AddsOk)
    (hr : env.RemovesRefused)
    (halone : ∀ v ∈ us, X.table.key (namespacedEmail T u.email) =
      X.table.key (namespacedEmail T v.email) → v.email = u.email)
    (hoff : ∀ tag, (m.push X env T us kind).1.live.on tag (namespacedEmail T u.email) = none) :
    NeverOn X m T us kind u := by
  have hthin := Live.thinned_removeAll X env m.live gone
  have hform : ∀ w ∈ vs, X.table.key (namespacedEmail T u.email) = X.table.key w.email →
      namespacedEmail T u.email = w.email := by
    intro w hw hkey
    obtain ⟨v, hv, hwv⟩ := email_of_mem_synced ((h.mem w).1 hw)
    rw [hwv] at hkey ⊢
    rw [halone v hv hkey]
  obtain ⟨hkept, hserved⟩ := Live.on_syncs_of_refused ha hr T hform (m.live.removeAll X env gone)
  rw [← h.live] at hkept hserved
  rw [hthin.shape] at hserved
  refine ⟨fun tag => ?_, fun w hw he i hi hin => ?_⟩
  · by_contra hon
    exact hkept tag (by rwa [hthin.refused hr]) (hoff tag)
  · by_contra hacc
    exact hserved w ((h.mem w).2 hw) he i hi hin hacc (hoff i.tag)

end Manager

/-- **When a revocation reaches the core.** A panel sends a user of an
active tenant with an empty list of inbounds, as the last entry for its
email, and the call succeeds. If no removal is refused, the user is then
live on no inbound if no inbound keeps it: none of those the node forces
users on has an account for it. If removals may be refused, the user is
off whatever comes of them if it was never on. If Xray takes no other user
of the list for this one, both are exact. -/
theorem revocation_reaches_iff (X : Externals) {m : Manager} {T : String} {tn : Tenant}
    (hget : m.reg.get T = some tn) (hact : tn.status = .active) {us : List User} {u : User}
    (hempty : u.inbounds = []) (hlast : latest (fun v => v.email = u.email) us = some u)
    (kind : Push) :
    (∀ env : Env, env.RemovesLand → (m.push X env T us kind).2 = none → Manager.Revocable X m T u →
      ∀ tag, (m.push X env T us kind).1.live.on tag (namespacedEmail T u.email) = none) ∧
    ((m.Accepts T us kind → Manager.NeverOn X m T us kind u) →
      ∀ env : Env, (m.push X env T us kind).2 = none →
        ∀ tag, (m.push X env T us kind).1.live.on tag (namespacedEmail T u.email) = none) ∧
    ((∀ v ∈ us, X.table.key (namespacedEmail T u.email) =
        X.table.key (namespacedEmail T v.email) → v.email = u.email) →
      (∀ env : Env, env.RemovesLand → (m.push X env T us kind).2 = none →
        ((∀ tag, (m.push X env T us kind).1.live.on tag (namespacedEmail T u.email) = none) ↔
          Manager.Revocable X m T u)) ∧
      ((∀ env : Env, (m.push X env T us kind).2 = none →
          ∀ tag, (m.push X env T us kind).1.live.on tag (namespacedEmail T u.email) = none) ↔
        (m.Accepts T us kind → Manager.NeverOn X m T us kind u))) := by
  have hreaches : ∀ env : Env, env.RemovesLand → (m.push X env T us kind).2 = none →
      Manager.Revocable X m T u →
      ∀ tag, (m.push X env T us kind).1.live.on tag (namespacedEmail T u.email) = none := by
    intro env hr hok hrev
    obtain ⟨gone, vs, hpushed⟩ := Manager.exists_pushed hget hact hok
    exact hpushed.off_of_revocable hr hempty hlast hrev
  have hnever : (m.Accepts T us kind → Manager.NeverOn X m T us kind u) →
      ∀ env : Env, (m.push X env T us kind).2 = none →
        ∀ tag, (m.push X env T us kind).1.live.on tag (namespacedEmail T u.email) = none := by
    intro hnever env hok
    obtain ⟨gone, vs, hpushed⟩ := Manager.exists_pushed hget hact hok
    exact hpushed.off_of_neverOn (hnever (Manager.accepts_of_ok hok))
  refine ⟨hreaches, hnever, fun halone => ⟨fun env hr hok => ⟨fun hoff => ?_, hreaches env hr hok⟩,
    fun hoff haccepts => ?_, hnever⟩⟩
  · obtain ⟨gone, vs, hpushed⟩ := Manager.exists_pushed hget hact hok
    exact hpushed.revocable_of_off hr hempty hlast halone hoff
  · -- the surroundings in which every removal is refused and nothing else goes wrong
    have hok := (Manager.push_ok_iff X { Env.calm with remove := fun _ => .refused }
      (fun _ => rfl) (by simp [hget])).2 haccepts
    obtain ⟨gone, vs, hpushed⟩ := Manager.exists_pushed hget hact hok
    exact hpushed.neverOn_of_off (fun _ => rfl) (fun _ => rfl) halone (hoff _ hok)

/-! ## A forced inbound -/

namespace Demo

def forced : Manager :=
  { node ["a"] with forceInbounds := ["in"] }

def revoked : User :=
  { user "u" "secret" with inbounds := [] }

end Demo

/-- **A revocation that does not reach the core**: the user is sent with no
inbounds, the call succeeds, and it is live on the forced one, by either
way of sending it. -/
theorem revoked_user_live :
    let m := Demo.forced
    (m.reg.get "a").map Tenant.status = some .active ∧ Demo.revoked.inbounds = [] ∧
      ((m.push Demo.externals .calm "a" [Demo.revoked] .add).2 = none ∧
        ((m.push Demo.externals .calm "a" [Demo.revoked] .add).1.live.on "in" "ta.u").isSome) ∧
      (m.push Demo.externals .calm "a" [Demo.revoked] .set).2 = none ∧
        ((m.push Demo.externals .calm "a" [Demo.revoked] .set).1.live.on "in" "ta.u").isSome := by
  decide +kernel

/-- On a node that forces nothing, a user that was live is taken off. -/
theorem revocation_reaches_unforced :
    let m := Demo.run [.addUsers "a" [Demo.user "u" "secret"]] (Demo.node ["a"])
    (m.live.on "in" "ta.u").isSome ∧
      ∀ tag, (m.push Demo.externals .calm "a" [Demo.revoked] .add).1.live.on tag
        (namespacedEmail "a" Demo.revoked.email) = none := by
  intro m
  have hget : m.reg.get "a" = some (Demo.tenant "a") := by decide +kernel
  have hreaches := (@revocation_reaches_iff Demo.externals m "a" (Demo.tenant "a") hget rfl
    [Demo.revoked] Demo.revoked rfl rfl .add).1 .calm (fun _ => Rpc.noConfusion) (by decide +kernel)
  -- the one sync there has been put the user on an inbound of the node
  have hplaced := Demo.placed_syncUser ["a"] "a" (m.buildUser "a" (Demo.user "u" "secret"))
  refine ⟨by decide +kernel, hreaches ⟨fun tag i _ htag => ?_, fun tag htag => ?_⟩⟩
  · have hnone : m.forceInbounds = [] := rfl
    rw [hnone] at htag
    exact absurd htag (List.not_mem_nil)
  · by_contra hon
    exact htag (hplaced tag _ hon).1

end NodeAgent
