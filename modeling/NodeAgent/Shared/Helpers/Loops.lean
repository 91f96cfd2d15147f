import NodeAgent.Shared.Model.Run
import NodeAgent.Xray.Helpers.Sync
/-!
# The loops over users, in closed form

The manager changes its indexes and the core one user at a time, and a
failing sync ends a loop where it stands. Here each loop is given as what
it has done to the whole state: which users it got through, and the
indexes as bulk erasures and insertions of theirs. The cases an operation
can end in are stated once, and everything about runs is proved from them.
-/

namespace NodeAgent

open GoStrings

variable {X : Externals} {env : Env}

/-! ## The live side -/

/-- Sync users one after another, whatever comes of it. -/
def Live.syncs (X : Externals) (env : Env) (tenantID : String) (us : List User) (L : Live) :
    Live :=
  us.foldl (fun L u => (L.syncUser X env tenantID u).1) L

theorem Live.syncs_rule {I : Live → Prop} {T : String} {us : List User}
    (hstep : ∀ u ∈ us, ∀ L, I L → I (L.syncUser X env T u).1) {L : Live} (hL : I L) :
    I (L.syncs X env T us) :=
  List.foldlRecOn us _ hL fun L hL u hu => hstep u hu L hL

variable (X env) in
theorem Live.syncAll_spec (T : String) (l : List (String × User)) (L : Live) :
    ∃ done rest, l = done ++ rest ∧
      (Live.syncAll X env T l L).1 = L.syncs X env T (done.map Prod.snd) ∧
      ((Live.syncAll X env T l L).2 = none → rest = []) := by
  induction l generalizing L with
  | nil => exact ⟨[], [], rfl, rfl, fun _ => rfl⟩
  | cons p l ih =>
    obtain ⟨email, u⟩ := p
    rw [Live.syncAll]
    split
    · rename_i L' heq
      obtain ⟨done, rest, rfl, h₁, h₂⟩ := ih L'
      refine ⟨(email, u) :: done, rest, rfl, ?_, h₂⟩
      rw [h₁, Live.syncs, Live.syncs, List.map_cons, List.foldl_cons, heq]
    · rename_i L' failed _ heq
      refine ⟨[(email, u)], l, rfl, ?_, fun h => by cases h⟩
      show L' = (L.syncUser X env T u).1
      rw [heq]

theorem Live.syncUser_ok (ha : env.AddsOk) (L : Live) (T : String) (u : User) :
    (L.syncUser X env T u).2 = [] := by
  unfold Live.syncUser
  cases L.core with
  | none => rfl
  | some x => exact Xray.syncUser_ok ha x u

theorem Live.syncAll_ok (ha : env.AddsOk) (T : String) (l : List (String × User)) (L : Live) :
    (Live.syncAll X env T l L).2 = none := by
  induction l generalizing L with
  | nil => rfl
  | cons p l ih =>
    obtain ⟨email, u⟩ := p
    have hok := Live.syncUser_ok (X := X) ha L T u
    rw [Live.syncAll]
    split
    · exact ih _
    · rename_i L' failed hne heq
      rw [heq] at hok
      exact absurd hok hne

theorem Live.removeAll_of_none {L : Live} (h : L.core = none) (l : List (String × User)) :
    L.removeAll X env l = L := by
  induction l with
  | nil => rfl
  | cons p l ih =>
    have hone : L.removeFromCore X env p.2 = L := by simp [Live.removeFromCore, h]
    rw [Live.removeAll, List.foldl_cons, hone]
    exact ih

/-! ## The indexes -/

theorem email_of_mem_range {s : GoMap String User} (hs : ∀ x u, s.lookup x = some u → u.email = x)
    {o : Order String} {p : String × User} (hp : p ∈ GoMap.range o s) : p.2.email ∈ s.keys := by
  have hlookup := GoMap.mem_range.1 hp
  rw [hs p.1 p.2 hlookup]
  exact GoMap.mem_keys_iff.2 ⟨_, hlookup⟩

theorem notMem_of_range {s : GoMap String User} (hs : ∀ x u, s.lookup x = some u → u.email = x)
    {o : Order String} {e : String} (he : ∀ p ∈ GoMap.range o s, p.2.email ≠ e) : e ∉ s.keys := by
  intro hmem
  obtain ⟨u, hu⟩ := GoMap.mem_keys_iff.1 hmem
  exact he (e, u) (GoMap.mem_range.2 hu) (hs e u hu)

/-- Index the credentials of a list of users. -/
def indexAll (creds : GoMap String String) (l : List (String × User)) : GoMap String String :=
  l.foldl (fun creds p => GoMap.insertKeys creds (userCredentials p.2) p.1) creds

theorem lookup_indexAll (l : List (String × User)) (creds : GoMap String String) (c : String) :
    (∃ p ∈ l, c ∈ userCredentials p.2 ∧ (indexAll creds l).lookup c = some p.1) ∨
      (∀ p ∈ l, c ∉ userCredentials p.2) ∧ (indexAll creds l).lookup c = creds.lookup c := by
  induction l generalizing creds with
  | nil => exact Or.inr ⟨fun _ h => absurd h (List.not_mem_nil), rfl⟩
  | cons p l ih =>
    rcases ih (GoMap.insertKeys creds (userCredentials p.2) p.1) with ⟨q, hq, hc, h⟩ | ⟨hno, h⟩
    · exact Or.inl ⟨q, List.mem_cons_of_mem _ hq, hc, h⟩
    · rw [GoMap.lookup_insertKeys] at h
      by_cases hc : c ∈ userCredentials p.2
      · rw [if_pos hc] at h
        exact Or.inl ⟨p, List.mem_cons_self .., hc, h⟩
      · rw [if_neg hc] at h
        refine Or.inr ⟨fun q hq => ?_, h⟩
        rcases List.mem_cons.1 hq with rfl | hq
        · exact hc
        · exact hno q hq

namespace Manager

theorem forget_eq (l : List (String × User)) (m : Manager) :
    m.forget l =
      { m with
        emailTo := GoMap.eraseKeys m.emailTo (l.map Prod.fst)
        lastSeen := GoMap.eraseKeys m.lastSeen (l.map Prod.fst)
        creds := GoMap.eraseKeys m.creds (l.flatMap fun p => userCredentials p.2) } := by
  induction l generalizing m with
  | nil => rfl
  | cons p l ih =>
    have hstep : m.forget (p :: l) = Manager.forget
        { m with
          emailTo := m.emailTo.erase p.1
          lastSeen := m.lastSeen.erase p.1
          creds := GoMap.eraseKeys m.creds (userCredentials p.2) } l := rfl
    rw [hstep, ih]
    simp only [GoMap.eraseKeys, List.map_cons, List.foldl_cons, List.flatMap_cons,
      List.foldl_append]

theorem dropStale_eq (kept : GoMap String User) (old : List (String × User)) (m : Manager) :
    m.dropStale X env kept old =
      { m.forget (old.filter fun p => kept.lookup p.1 = none) with
        live := m.live.removeAll X env (old.filter fun p => kept.lookup p.1 = none) } := by
  induction old generalizing m with
  | nil => rfl
  | cons p old ih =>
    cases hk : kept.lookup p.1 with
    | some u =>
      have hstep : m.dropStale X env kept (p :: old) = m.dropStale X env kept old := by
        simp [dropStale, hk]
      rw [hstep, ih, List.filter_cons, if_neg (by simp [hk])]
    | none =>
      have hstep : m.dropStale X env kept (p :: old) =
          (m.dropUser X env p.1 p.2).dropStale X env kept old := by
        simp [dropStale, hk]
      rw [hstep, ih, List.filter_cons, if_pos (by simp [hk]), forget_eq, forget_eq]
      simp only [dropUser, GoMap.eraseKeys, List.map_cons, List.foldl_cons,
        List.flatMap_cons, List.foldl_append, Live.removeAll]

/-- The state after stale users have been dropped and others indexed and,
for an active tenant, synced. -/
def changed (X : Externals) (env : Env) (m : Manager) (active : Bool) (tenantID : String)
    (gone done : List (String × User)) : Manager :=
  { m with
    live :=
      let L := m.live.removeAll X env gone
      if active then L.syncs X env tenantID (done.map Prod.snd) else L
    emailTo := GoMap.insertKeys (GoMap.eraseKeys m.emailTo (gone.map Prod.fst))
      (done.map Prod.fst) tenantID
    lastSeen := GoMap.eraseKeys m.lastSeen (gone.map Prod.fst)
    creds := indexAll (GoMap.eraseKeys m.creds (gone.flatMap fun p => userCredentials p.2)) done }

variable (X env) in
theorem addFresh_spec (active : Bool) (T : String) (l : List (String × User)) (m : Manager) :
    ∃ done rest, l = done ++ rest ∧
      (m.addFresh X env active T l).1 = m.changed X env active T [] done ∧
      ((m.addFresh X env active T l).2 = none → rest = []) ∧
      ((m.addFresh X env active T l).2 ≠ none →
        active = true ∧ m.live.core ≠ none ∧ ¬ env.AddsOk) := by
  induction l generalizing m with
  | nil =>
    refine ⟨[], [], rfl, ?_, fun _ => rfl, fun h => absurd rfl h⟩
    cases active <;> rfl
  | cons p l ih =>
    obtain ⟨email, u⟩ := p
    rw [addFresh]
    split
    · -- this user got through
      rename_i m' heq
      obtain ⟨done, rest, rfl, h₁, h₂, h₃⟩ := ih m'
      refine ⟨(email, u) :: done, rest, rfl, ?_, h₂, fun h => ?_⟩
      · have hm' : m' = ((m.index T email u).syncIf X env active T u).1 := by rw [heq]
        rw [h₁, hm']
        cases active <;> rfl
      · obtain ⟨hact, hcore, hadd⟩ := h₃ h
        refine ⟨hact, fun hnone => hcore ?_, hadd⟩
        have hm' : m' = ((m.index T email u).syncIf X env active T u).1 := by rw [heq]
        rw [hm', hact]
        simp [syncIf, index, Live.syncUser, hnone]
    · -- this one failed: it is indexed, and partly synced, like those before it
      rename_i m' failed hne heq
      refine ⟨[(email, u)], l, rfl, ?_, (fun h => by cases h), fun _ => ?_⟩
      · have hm' : m' = ((m.index T email u).syncIf X env active T u).1 := by rw [heq]
        show m' = _
        rw [hm']
        cases active <;> rfl
      · have hfailed : ((m.index T email u).syncIf X env active T u).2 ≠ [] := by
          rw [heq]; exact hne
        cases active with
        | false => exact absurd rfl hfailed
        | true =>
          refine ⟨rfl, fun hnone => hfailed ?_, fun ha => hfailed ?_⟩
          · simp [syncIf, index, Live.syncUser, hnone]
          · exact Live.syncUser_ok ha _ T u

/-! ## Replacing a user set -/

theorem foldlM_ok {ε α β : Type} {f : β → α → Except ε β} {l : List α} {b b' : β}
    (h : l.foldlM f b = .ok b') : ∀ a ∈ l, ∃ b₁ b₂, f b₁ a = .ok b₂ := by
  induction l generalizing b with
  | nil => exact fun _ h => absurd h (List.not_mem_nil)
  | cons a l ih =>
    rw [List.foldlM_cons] at h
    cases hf : f b a with
    | error e => rw [hf] at h; cases h
    | ok b₁ =>
      rw [hf] at h
      intro a' ha'
      rcases List.mem_cons.1 ha' with rfl | ha'
      · exact ⟨b, b₁, hf⟩
      · exact ih h a' ha'

/-- **A batch that passes the check takes no other tenant's
credential**, as far as the prefix of the owner tells. -/
theorem checkBatch_ok {creds b : GoMap String String} {ownPrefix : String}
    {batch : List (String × User)} (h : checkBatch creds ownPrefix batch = .ok b) :
    ∀ p ∈ batch, ∀ c ∈ userCredentials p.2, ∀ owner, creds.lookup c = some owner →
      hasPrefix owner ownPrefix = true := by
  intro p hp c hc owner howner
  obtain ⟨b₁, b₂, h₁⟩ := foldlM_ok h p hp
  obtain ⟨b₃, b₄, h₂⟩ := foldlM_ok h₁ c hc
  by_contra hno
  have htaken : ((creds.lookup c).any fun owner => !hasPrefix owner ownPrefix) = true := by
    simpa [howner] using hno
  unfold checkCredential at h₂
  simp only [htaken, if_true] at h₂
  split at h₂
  · split_ifs at h₂
  · cases h₂

/-- The users of a list as they are applied, under their emails. -/
def incoming (m : Manager) (T : String) (us : List User) : List (String × User) :=
  us.map fun u => (namespacedEmail T u.email, m.buildUser T u)

theorem newSet_eq (m : Manager) (T : String) (us : List User) :
    m.newSet T us = GoMap.insertAll ∅ (m.incoming T us) := by
  unfold newSet GoMap.insertAll incoming
  rw [List.foldl_map]

theorem mem_incoming_keys {m : Manager} {T x : String} {us : List User} :
    x ∈ (m.incoming T us).map Prod.fst ↔ ∃ u ∈ us, namespacedEmail T u.email = x := by
  simp only [incoming, List.map_map, List.mem_map, Function.comp_apply]

theorem lookup_newSet {m : Manager} {T x : String} {us : List User} {u : User}
    (h : (m.newSet T us).lookup x = some u) :
    ∃ v ∈ us, x = namespacedEmail T v.email ∧ u = m.buildUser T v := by
  rw [newSet_eq] at h
  rcases GoMap.mem_of_lookup_insertAll h with hmem | hempty
  · obtain ⟨v, hv, heq⟩ := List.mem_map.1 hmem
    obtain ⟨rfl, rfl⟩ := Prod.mk.inj heq
    exact ⟨v, hv, rfl, rfl⟩
  · cases hempty

theorem mem_keys_newSet {m : Manager} {T x : String} {us : List User} :
    x ∈ (m.newSet T us).keys ↔ ∃ v ∈ us, x = namespacedEmail T v.email := by
  rw [newSet_eq, GoMap.mem_keys_insertAll, mem_incoming_keys]
  simp [eq_comm]

/-- A `SetTenantUsers` that passed its checks: the tenant it found, the
users it drops, and the users of the new set it gets through. -/
structure Setting (env : Env) (m : Manager) (T : String) (us : List User) (tn : Tenant)
    (gone done rest : List (String × User)) : Prop where
  found : m.reg.get T = some tn
  free : ∀ x u, (m.newSet T us).lookup x = some u → ∀ c ∈ userCredentials u, ∀ owner,
    m.creds.lookup c = some owner → hasPrefix owner (tenantPrefix T) = true
  mem_gone : ∀ p, p ∈ gone ↔
    (m.usersOf T).lookup p.1 = some p.2 ∧ (m.newSet T us).lookup p.1 = none
  fresh : GoMap.range (env.order .fresh) (m.newSet T us) = done ++ rest

namespace Setting

variable {m : Manager} {T x : String} {us : List User} {tn : Tenant}
variable {gone done rest : List (String × User)}

theorem lookup_of_mem_done (h : Setting env m T us tn gone done rest) {p : String × User}
    (hp : p ∈ done) : (m.newSet T us).lookup p.1 = some p.2 := by
  have hmem : p ∈ GoMap.range (env.order .fresh) (m.newSet T us) := by
    rw [h.fresh]
    exact List.mem_append_left _ hp
  exact GoMap.mem_range.1 hmem

theorem mem_gone_keys_iff (h : Setting env m T us tn gone done rest) :
    x ∈ gone.map Prod.fst ↔ x ∈ (m.usersOf T).keys ∧ x ∉ (m.newSet T us).keys := by
  constructor
  · intro hx
    obtain ⟨p, hp, rfl⟩ := List.mem_map.1 hx
    obtain ⟨h₁, h₂⟩ := (h.mem_gone p).1 hp
    exact ⟨GoMap.mem_keys_iff.2 ⟨_, h₁⟩, GoMap.notMem_keys_iff.2 h₂⟩
  · rintro ⟨hold, hnew⟩
    obtain ⟨u, hu⟩ := GoMap.mem_keys_iff.1 hold
    exact List.mem_map.2 ⟨(x, u), (h.mem_gone (x, u)).2 ⟨hu, GoMap.notMem_keys_iff.1 hnew⟩, rfl⟩

end Setting

variable (X env) in
/-- **The ways a `SetTenantUsers` ends**: refused with nothing changed;
stopped by a failing sync, with the recorded set still the old one; or
done, with the new set recorded. -/
theorem setTenantUsers_cases (m : Manager) (T : String) (us : List User) :
    (∃ err, m.setTenantUsers X env T us = (m, some err)) ∨
      ∃ tn gone done rest, Setting env m T us tn gone done rest ∧
        ((∃ err, m.setTenantUsers X env T us =
            (m.changed X env (tn.status = .active) T gone done, some err) ∧
            tn.status = .active ∧ m.live.core ≠ none ∧ ¬ env.AddsOk) ∨
          rest = [] ∧ m.setTenantUsers X env T us =
            ({ m.changed X env (tn.status = .active) T gone done with
                users := m.users.insert T (m.newSet T us) }, none)) := by
  unfold setTenantUsers
  cases hget : m.reg.get T with
  | none => exact Or.inl ⟨_, rfl⟩
  | some tn =>
    simp only
    cases hcheck : checkBatch m.creds (tenantPrefix T)
        (GoMap.range (env.order .batch) (m.newSet T us)) with
    | error err => exact Or.inl ⟨err, rfl⟩
    | ok b =>
      refine Or.inr ?_
      obtain ⟨done, rest, hfresh, hres, hrest, hfail⟩ :=
        addFresh_spec X env (tn.status = .active) T
          (GoMap.range (env.order .fresh) (m.newSet T us))
          (m.dropStale X env (m.newSet T us)
            (GoMap.range (env.order .stale) (m.usersOf T)))
      refine ⟨tn, (GoMap.range (env.order .stale) (m.usersOf T)).filter
        (fun p => (m.newSet T us).lookup p.1 = none), done, rest, ⟨hget, ?_, ?_, hfresh⟩, ?_⟩
      · intro x u hu c hc owner howner
        exact checkBatch_ok hcheck (x, u) (GoMap.mem_range.2 hu) c hc owner howner
      · intro p
        simp only [List.mem_filter, GoMap.mem_range, decide_eq_true_eq]
      · -- dropping and then indexing is `changed` in one go
        rw [dropStale_eq, forget_eq] at hres hrest hfail ⊢
        simp only
        split
        · rename_i m' err heq
          rw [heq] at hres hfail
          obtain ⟨hact, hcore, hadd⟩ := hfail (by simp)
          refine Or.inl ⟨err, ?_, by simpa using hact, fun hnone => hcore ?_, hadd⟩
          · rw [show m' = _ from hres]
            rfl
          · simp only [Live.removeAll_of_none hnone, hnone]
        · rename_i m' heq
          rw [heq] at hres hrest
          refine Or.inr ⟨hrest rfl, ?_⟩
          rw [show m' = _ from hres]
          rfl

/-! ## Merging into a user set -/

theorem usersOf_insert (m : Manager) (T : String) (s : GoMap String User) :
    usersOf { m with users := m.users.insert T s } = Function.update m.usersOf T s := by
  funext T'
  show ((m.users.insert T s).lookup T').getD ∅ = _
  rw [GoMap.lookup_insert_eq, Function.update_apply]
  split_ifs <;> rfl

/-- The state after one user has been recorded, indexed and, for an active
tenant, synced. -/
def takeOn (X : Externals) (env : Env) (active : Bool) (tenantID : String) (m : Manager)
    (u : User) : Manager :=
  { m with
    live := if active then (m.live.syncUser X env tenantID u).1 else m.live
    users := m.users.insert tenantID ((m.usersOf tenantID).insert u.email u)
    emailTo := m.emailTo.insert u.email tenantID
    creds := GoMap.insertKeys m.creds (userCredentials u) u.email }

variable (X env) in
theorem usersOf_takeOn (m : Manager) (active : Bool) (T : String) (u : User) :
    (m.takeOn X env active T u).usersOf =
      Function.update m.usersOf T ((m.usersOf T).insert u.email u) :=
  usersOf_insert m T _

variable (X env) in
theorem mergeUsers_cons (active : Bool) (T : String) (u : User) (us : List User) (m : Manager) :
    m.takenByOther T (m.buildUser T u) = true ∧
        m.mergeUsers X env active T (u :: us) = (m, some .credentialInUse) ∨
      m.takenByOther T (m.buildUser T u) = false ∧
        (m.mergeUsers X env active T (u :: us) =
            (m.takeOn X env active T (m.buildUser T u)).mergeUsers X env active T us ∨
          (∃ err, m.mergeUsers X env active T (u :: us) =
            (m.takeOn X env active T (m.buildUser T u), some err)) ∧ ¬ env.AddsOk) := by
  rw [mergeUsers]
  by_cases htaken : m.takenByOther T (m.buildUser T u) = true
  · rw [if_pos htaken]
    exact Or.inl ⟨htaken, rfl⟩
  · rw [if_neg htaken]
    refine Or.inr ⟨by simpa using htaken, ?_⟩
    have hstate : ((((m.record T (m.buildUser T u)).index T (m.buildUser T u).email
        (m.buildUser T u)).syncIf X env active T (m.buildUser T u))).1 =
          m.takeOn X env active T (m.buildUser T u) := by
      cases active <;> rfl
    split
    · rename_i m' heq
      refine Or.inl ?_
      rw [heq] at hstate
      rw [show m' = _ from hstate]
    · rename_i m' failed hne heq
      refine Or.inr ⟨⟨.syncUser (m.buildUser T u).email failed, ?_⟩, fun ha => hne ?_⟩
      · rw [heq] at hstate
        rw [show m' = _ from hstate]
      · cases active with
        | false =>
          have h := congrArg Prod.snd heq
          exact h.symm
        | true =>
          have h := congrArg Prod.snd heq
          exact h.symm.trans (Live.syncUser_ok ha _ T _)

/-- **What every admission of one of the users keeps, the loop keeps**,
wherever it stops. -/
theorem mergeUsers_rule {I : Manager → Prop} {active : Bool} {T : String} {us : List User}
    (hstep : ∀ m u, u ∈ us → I m → m.takenByOther T (m.buildUser T u) = false →
      I (m.takeOn X env active T (m.buildUser T u)))
    {m : Manager} (hm : I m) : I (m.mergeUsers X env active T us).1 := by
  induction us generalizing m with
  | nil => exact hm
  | cons u us ih =>
    have hrest : ∀ m v, v ∈ us → I m → m.takenByOther T (m.buildUser T v) = false →
        I (m.takeOn X env active T (m.buildUser T v)) :=
      fun m v hv => hstep m v (List.mem_cons_of_mem _ hv)
    have hhead := hstep m u (List.mem_cons_self ..) hm
    rcases mergeUsers_cons X env active T u us m with ⟨-, h⟩ | ⟨hfree, h | ⟨⟨err, h⟩, -⟩⟩
    · rw [h]; exact hm
    · rw [h]; exact ih hrest (hhead hfree)
    · rw [h]; exact hhead hfree

/-- The state of a tenant's set once it exists. -/
def opened (m : Manager) (T : String) : Manager :=
  { m with users := m.users.insert T (m.usersOf T) }

@[simp] theorem usersOf_opened (m : Manager) (T : String) :
    (m.opened T).usersOf = m.usersOf := by
  rw [opened, usersOf_insert, Function.update_eq_self]

variable (X env) in
theorem addTenantUsers_cases (m : Manager) (T : String) (us : List User) :
    (∃ err, m.addTenantUsers X env T us = (m, some err)) ∨
      ∃ tn, m.reg.get T = some tn ∧ m.addTenantUsers X env T us =
        (m.opened T).mergeUsers X env (tn.status = .active) T us := by
  unfold addTenantUsers
  cases hget : m.reg.get T with
  | none => exact Or.inl ⟨_, rfl⟩
  | some tn => exact Or.inr ⟨tn, rfl, rfl⟩

end Manager

end NodeAgent
