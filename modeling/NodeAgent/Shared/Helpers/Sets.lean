import NodeAgent.Shared.Helpers.Cases
import NodeAgent.Shared.Namespace
import Mathlib.Data.List.TakeWhile
/-!
# What the two ways of changing a user set come to

`SetTenantUsers` and `AddTenantUsers` are loops with checks in them. Where
no add fails, each is a pure function of the set and the list: which lists
it takes (`setTenantUsers_ok_iff`, `addTenantUsers_ok_iff`), and which
users and indexes it leaves (`setTenantUsers_eq`, `addTenantUsers_eq`).
-/

namespace NodeAgent

open GoStrings

variable {X : Externals} {env : Env}

/-- A credential carried by some user of a set. -/
def CarriedIn (s : GoMap String User) (c : String) : Prop :=
  ∃ x u, s.lookup x = some u ∧ c ∈ userCredentials u

namespace Manager

variable {m : Manager} {T : String} {us : List User}

/-! ## The credential check -/

/-- The emails and credentials of a batch, in the order of the check. -/
def pairsOf (batch : List (String × User)) : List (String × String) :=
  batch.flatMap fun p => (userCredentials p.2).map fun c => (p.1, c)

theorem mem_pairsOf {batch : List (String × User)} {q : String × String} :
    q ∈ pairsOf batch ↔ ∃ p ∈ batch, p.1 = q.1 ∧ q.2 ∈ userCredentials p.2 := by
  obtain ⟨e, c⟩ := q
  simp only [pairsOf, List.mem_flatMap, List.mem_map, Prod.mk.injEq]
  constructor
  · rintro ⟨p, hp, d, hd, he, rfl⟩
    exact ⟨p, hp, he, hd⟩
  · rintro ⟨p, hp, he, hc⟩
    exact ⟨p, hp, c, hc, he, rfl⟩

theorem checkBatch_eq (creds : GoMap String String) (ownPrefix : String)
    (batch : List (String × User)) :
    checkBatch creds ownPrefix batch = (pairsOf batch).foldlM
      (fun seen q => checkCredential creds ownPrefix q.1 seen q.2) ∅ := by
  unfold checkBatch pairsOf
  generalize (∅ : GoMap String String) = seen
  induction batch generalizing seen with
  | nil => rfl
  | cons p batch ih =>
    simp only [List.foldlM_cons, List.flatMap_cons, List.foldlM_append, List.foldlM_map, ih]

/-- A credential of another tenant, as far as the prefix of its owner
tells. -/
def taken (creds : GoMap String String) (ownPrefix cred : String) : Bool :=
  (creds.lookup cred).any fun owner => !hasPrefix owner ownPrefix

variable {creds : GoMap String String}

theorem taken_eq_false_iff {ownPrefix cred : String} :
    taken creds ownPrefix cred = false ↔
      ∀ owner, creds.lookup cred = some owner → hasPrefix owner ownPrefix = true := by
  unfold taken
  cases creds.lookup cred with
  | none => simp
  | some owner => simp

theorem checkCredential_ok_iff {creds seen b : GoMap String String} {ownPrefix e c : String} :
    checkCredential creds ownPrefix e seen c = .ok b ↔
      taken creds ownPrefix c = false ∧ (∀ e', seen.lookup c = some e' → e' = e) ∧
        b = seen.insert c e := by
  have htaken : ((creds.lookup c).any fun owner => !hasPrefix owner ownPrefix) =
    taken creds ownPrefix c := rfl
  unfold checkCredential
  simp only [htaken]
  cases hseen : seen.lookup c with
  | none =>
    by_cases ht : taken creds ownPrefix c = true
    · simp [ht]
    · simp [Bool.eq_false_iff.2 ht, eq_comm]
  | some e' =>
    by_cases he : e' = e
    · by_cases ht : taken creds ownPrefix c = true
      · simp [he, ht]
      · simp [he, Bool.eq_false_iff.2 ht, eq_comm]
    · simp [he]

theorem foldlM_check_cons_iff {ownPrefix : String}
    {q : String × String} {pairs : List (String × String)} {seen : GoMap String String} :
    (∃ b, (q :: pairs).foldlM
        (fun seen q => checkCredential creds ownPrefix q.1 seen q.2) seen = .ok b) ↔
      taken creds ownPrefix q.2 = false ∧ (∀ e, seen.lookup q.2 = some e → e = q.1) ∧
        ∃ b, pairs.foldlM (fun seen q => checkCredential creds ownPrefix q.1 seen q.2)
          (seen.insert q.2 q.1) = .ok b := by
  simp only [List.foldlM_cons]
  cases hq : checkCredential creds ownPrefix q.1 seen q.2 with
  | error err =>
    refine ⟨fun ⟨b, hb⟩ => (nomatch hb), fun ⟨ht, hs, _⟩ => ?_⟩
    have hok := (checkCredential_ok_iff (b := seen.insert q.2 q.1)).2 ⟨ht, hs, rfl⟩
    cases hq.symm.trans hok
  | ok seen' =>
    obtain ⟨ht, hs, rfl⟩ := checkCredential_ok_iff.1 hq
    exact ⟨fun h => ⟨ht, hs, h⟩, fun h => h.2.2⟩

theorem foldlM_check_ok_iff {ownPrefix : String}
    (pairs : List (String × String)) (seen : GoMap String String) :
    (∃ b, pairs.foldlM (fun seen q => checkCredential creds ownPrefix q.1 seen q.2) seen = .ok b) ↔
      (∀ q ∈ pairs, taken creds ownPrefix q.2 = false) ∧
        (∀ q ∈ pairs, ∀ e, seen.lookup q.2 = some e → e = q.1) ∧
        ∀ q ∈ pairs, ∀ r ∈ pairs, q.2 = r.2 → q.1 = r.1 := by
  induction pairs generalizing seen with
  | nil => exact ⟨fun _ => by simp, fun _ => ⟨seen, rfl⟩⟩
  | cons q pairs ih =>
    rw [foldlM_check_cons_iff, ih]
    constructor
    · rintro ⟨ht, hs, htaken, hseen, hpairs⟩
      -- a later pair with the same credential finds the first one's email
      have hfirst : ∀ r ∈ pairs, q.2 = r.2 → q.1 = r.1 := by
        intro r hr heq
        refine hseen r hr q.1 ?_
        rw [GoMap.lookup_insert_eq, if_pos heq.symm]
      refine ⟨?_, ?_, ?_⟩
      · exact List.forall_mem_cons.2 ⟨ht, htaken⟩
      · refine List.forall_mem_cons.2 ⟨hs, fun r hr e he => ?_⟩
        by_cases heq : q.2 = r.2
        · rw [← heq] at he
          rw [hs e he, hfirst r hr heq]
        · refine hseen r hr e ?_
          rw [GoMap.lookup_insert_eq, if_neg (Ne.symm heq), he]
      · intro r hr r' hr' heq
        rcases List.mem_cons.1 hr with hrq | hr <;> rcases List.mem_cons.1 hr' with hrq' | hr'
        · rw [hrq, hrq']
        · rw [hrq] at heq ⊢
          exact hfirst r' hr' heq
        · rw [hrq'] at heq ⊢
          exact (hfirst r hr heq.symm).symm
        · exact hpairs r hr r' hr' heq
    · rintro ⟨htaken, hseen, hpairs⟩
      refine ⟨htaken q (by simp), hseen q (by simp), fun r hr => htaken r (by simp [hr]),
        fun r hr e he => ?_, fun r hr r' hr' => hpairs r (by simp [hr]) r' (by simp [hr'])⟩
      rw [GoMap.lookup_insert_eq] at he
      split_ifs at he with heq
      · rw [← Option.some.inj he]
        exact hpairs q (by simp) r (by simp [hr]) heq.symm
      · exact hseen r (by simp [hr]) e he

/-- **A set a tenant can have**: none of its credentials is another
tenant's, and no two of its users share one. -/
structure Admissible (m : Manager) (T : String) (s : GoMap String User) : Prop where
  own : ∀ x u, s.lookup x = some u → ∀ c ∈ userCredentials u, ∀ owner,
    m.creds.lookup c = some owner → hasPrefix owner (tenantPrefix T) = true
  distinct : ∀ x u y v, s.lookup x = some u → s.lookup y = some v →
    ∀ c ∈ userCredentials u, c ∈ userCredentials v → x = y

/-- **The check of a new set lets the admissible ones through**, in any
order. -/
theorem checkBatch_ok_iff (m : Manager) (T : String) (o : Order String) (s : GoMap String User) :
    (∃ b, checkBatch m.creds (tenantPrefix T) (GoMap.range o s) = .ok b) ↔ m.Admissible T s := by
  rw [checkBatch_eq, foldlM_check_ok_iff]
  constructor
  · rintro ⟨htaken, -, hpairs⟩
    refine ⟨fun x u hu c hc => taken_eq_false_iff.1 (htaken (x, c) (mem_pairsOf.2 ?_)),
      fun x u y v hu hv c hc hc' => hpairs (x, c) (mem_pairsOf.2 ?_) (y, c) (mem_pairsOf.2 ?_) rfl⟩
    · exact ⟨(x, u), GoMap.mem_range.2 hu, rfl, hc⟩
    · exact ⟨(x, u), GoMap.mem_range.2 hu, rfl, hc⟩
    · exact ⟨(y, v), GoMap.mem_range.2 hv, rfl, hc'⟩
  · intro h
    refine ⟨fun q hq => ?_, fun q _ e he => by simp at he, fun q hq r hr heq => ?_⟩
    · obtain ⟨p, hp, -, hc⟩ := mem_pairsOf.1 hq
      exact taken_eq_false_iff.2 (h.own p.1 p.2 (GoMap.mem_range.1 hp) q.2 hc)
    · obtain ⟨p, hp, hpq, hc⟩ := mem_pairsOf.1 hq
      obtain ⟨p', hp', hpr, hc'⟩ := mem_pairsOf.1 hr
      rw [← hpq, ← hpr]
      exact h.distinct p.1 p.2 p'.1 p'.2 (GoMap.mem_range.1 hp) (GoMap.mem_range.1 hp') q.2 hc
        (heq ▸ hc')

/-! ## Replacing the set -/

/-- The users of the set that a new one has not, in the order they are
dropped. -/
def stale (env : Env) (m : Manager) (T : String) (s : GoMap String User) : List (String × User) :=
  (GoMap.range (env.order .stale) (m.usersOf T)).filter fun p => s.lookup p.1 = none

theorem mem_stale {s : GoMap String User} {p : String × User} :
    p ∈ m.stale env T s ↔ (m.usersOf T).lookup p.1 = some p.2 ∧ s.lookup p.1 = none := by
  simp only [stale, List.mem_filter, GoMap.mem_range, decide_eq_true_eq]

/-- A tenant's set replaced: users dropped, others indexed and synced, and
the set recorded. -/
def replaced (X : Externals) (env : Env) (m : Manager) (active : Bool) (T : String)
    (gone done : List (String × User)) (s : GoMap String User) : Manager :=
  { m.changed X env active T gone done with users := m.users.insert T s }

theorem usersOf_replaced (m : Manager) (active : Bool) (T : String)
    (gone done : List (String × User)) (s : GoMap String User) :
    (m.replaced X env active T gone done s).usersOf = Function.update m.usersOf T s :=
  usersOf_insert m T s

/-- **Which lists `SetTenantUsers` takes, and what it then leaves**, where
no add fails. -/
theorem setTenantUsers_eq (ha : env.AddsOk) {tn : Tenant} (hget : m.reg.get T = some tn)
    (hs : m.Admissible T (m.newSet T us)) :
    m.setTenantUsers X env T us =
      (m.replaced X env (tn.status = .active) T (m.stale env T (m.newSet T us))
        (GoMap.range (env.order .fresh) (m.newSet T us)) (m.newSet T us), none) := by
  obtain ⟨b, hb⟩ := (m.checkBatch_ok_iff T (env.order .batch) (m.newSet T us)).2 hs
  obtain ⟨done, rest, hfresh, hres, hrest, hfail⟩ :=
    addFresh_spec X env (tn.status = .active) T
      (GoMap.range (env.order .fresh) (m.newSet T us))
      (m.dropStale X env (m.newSet T us) (GoMap.range (env.order .stale) (m.usersOf T)))
  have hnone : ((m.dropStale X env (m.newSet T us)
      (GoMap.range (env.order .stale) (m.usersOf T))).addFresh X env (tn.status = .active) T
        (GoMap.range (env.order .fresh) (m.newSet T us))).2 = none := by
    by_contra hsome
    exact (hfail hsome).2.2 ha
  obtain rfl := hrest hnone
  rw [List.append_nil] at hfresh
  subst hfresh
  simp only [setTenantUsers, hget, hb]
  rw [dropStale_eq, forget_eq] at hres hnone ⊢
  simp only
  split
  · next heq => rw [heq] at hnone; cases hnone
  · next m' heq =>
      rw [heq] at hres
      rw [show m' = _ from hres]
      rfl

variable (X) in
theorem setTenantUsers_refused (env : Env) (h : m.reg.get T = none ∨
    ¬ m.Admissible T (m.newSet T us)) :
    ∃ err, m.setTenantUsers X env T us = (m, some err) := by
  unfold setTenantUsers
  cases hget : m.reg.get T with
  | none => exact ⟨_, rfl⟩
  | some tn =>
    simp only
    cases hcheck : checkBatch m.creds (tenantPrefix T)
        (GoMap.range (env.order .batch) (m.newSet T us)) with
    | error err => exact ⟨err, rfl⟩
    | ok b =>
      have hs := (m.checkBatch_ok_iff T (env.order .batch) (m.newSet T us)).1 ⟨b, hcheck⟩
      rcases h with h | h
      · cases hget.symm.trans h
      · exact absurd hs h

variable (X m T us) in
theorem setTenantUsers_ok_iff (ha : env.AddsOk) :
    (m.setTenantUsers X env T us).2 = none ↔
      m.reg.get T ≠ none ∧ m.Admissible T (m.newSet T us) := by
  constructor
  · intro h
    by_contra hno
    rw [not_and_or, not_not] at hno
    obtain ⟨err, heq⟩ := setTenantUsers_refused X env hno
    rw [heq] at h
    cases h
  · rintro ⟨hget, hs⟩
    obtain ⟨tn, hget⟩ := Option.ne_none_iff_exists'.1 hget
    rw [setTenantUsers_eq ha hget hs]

/-! ## Merging into the set -/

/-- The users of a list that `AddTenantUsers` gets to: those before the
first whose credential is another tenant's. -/
def mergeable (m : Manager) (T : String) (us : List User) : List User :=
  us.takeWhile fun u => !m.takenByOther T (m.buildUser T u)

theorem takenByOther_takeOn {u : User} (hu : hasPrefix u.email (tenantPrefix T) = true)
    (hfree : m.takenByOther T u = false) (active : Bool) (v : User) :
    (m.takeOn X env active T u).takenByOther T v = m.takenByOther T v := by
  unfold takenByOther at hfree ⊢
  refine List.any_congr rfl fun c => ?_
  show ((GoMap.insertKeys m.creds (userCredentials u) u.email).lookup c).any _ = _
  rw [GoMap.lookup_insertKeys]
  split_ifs with hc
  · have hno := List.any_eq_false.1 hfree c hc
    cases howner : m.creds.lookup c with
    | none => simp [hu]
    | some owner =>
      have hown : hasPrefix owner (tenantPrefix T) = true := by
        by_contra hother
        have hne : owner ≠ u.email := fun h => hother (h ▸ hu)
        simp [howner, hne, Bool.eq_false_iff.2 hother] at hno
      simp [hu, hown]
  · rfl

theorem buildUser_takeOn (u v : User) (active : Bool) :
    (m.takeOn X env active T u).buildUser T v = m.buildUser T v := rfl

theorem mergeable_takeOn {u : User} (hfree : m.takenByOther T (m.buildUser T u) = false)
    (active : Bool) (us : List User) :
    (m.takeOn X env active T (m.buildUser T u)).mergeable T us = m.mergeable T us := by
  have hu : hasPrefix (m.buildUser T u).email (tenantPrefix T) = true :=
    hasPrefix_namespacedEmail T u.email
  have hsame : ∀ v, (m.takeOn X env active T (m.buildUser T u)).takenByOther T (m.buildUser T v) =
      m.takenByOther T (m.buildUser T v) :=
    fun v => takenByOther_takeOn hu hfree active (m.buildUser T v)
  simp only [mergeable, buildUser_takeOn, hsame]

theorem mergeUsers_eq (ha : env.AddsOk) (active : Bool) (T : String) (us : List User)
    (m : Manager) :
    m.mergeUsers X env active T us =
      ((m.mergeable T us).foldl (fun m u => m.takeOn X env active T (m.buildUser T u)) m,
        if m.mergeable T us = us then none else some .credentialInUse) := by
  induction us generalizing m with
  | nil => rfl
  | cons u us ih =>
    rcases mergeUsers_cons X env active T u us m with ⟨htaken, h⟩ | ⟨hfree, h | ⟨-, hbad⟩⟩
    · have hnil : m.mergeable T (u :: us) = [] :=
        List.takeWhile_cons_of_neg (by simp [htaken])
      rw [h, hnil]
      rfl
    · have hcons : m.mergeable T (u :: us) = u :: m.mergeable T us :=
        List.takeWhile_cons_of_pos (by simp [hfree])
      rw [h, ih, mergeable_takeOn hfree, hcons]
      simp
    · exact absurd ha hbad

theorem takeOn_replaced (active : Bool) (done : List (String × User)) (s : GoMap String User)
    (u : User) :
    (m.replaced X env active T [] done s).takeOn X env active T u =
      m.replaced X env active T [] (done ++ [(u.email, u)]) (s.insert u.email u) := by
  have husers : (m.replaced X env active T [] done s).usersOf T = s := by
    rw [usersOf_replaced, Function.update_self]
  have htwice : ((m.users.insert T s).insert T (s.insert u.email u)) =
      m.users.insert T (s.insert u.email u) := AList.insert_insert _
  unfold takeOn
  rw [husers]
  simp only [replaced, changed, htwice, indexAll, Live.syncs, GoMap.insertKeys, List.map_append,
    List.foldl_append, List.map_cons, List.map_nil, List.foldl_cons, List.foldl_nil]
  cases active <;> rfl

theorem foldl_takeOn (active : Bool) (us : List User) (done : List (String × User))
    (s : GoMap String User) :
    us.foldl (fun m u => m.takeOn X env active T (m.buildUser T u))
        (m.replaced X env active T [] done s) =
      m.replaced X env active T [] (done ++ m.incoming T us)
        (GoMap.insertAll s (m.incoming T us)) := by
  induction us generalizing done s with
  | nil => rw [incoming, List.map_nil, List.append_nil]; rfl
  | cons u us ih =>
    have hbuild : (m.replaced X env active T [] done s).buildUser T u = m.buildUser T u := rfl
    rw [List.foldl_cons, hbuild, takeOn_replaced, ih, List.append_assoc]
    rfl

/-- **Which lists `AddTenantUsers` takes, and what it leaves**, where no
add fails: it always takes on the users it gets to. -/
theorem addTenantUsers_eq (ha : env.AddsOk) {tn : Tenant} (hget : m.reg.get T = some tn)
    (us : List User) :
    m.addTenantUsers X env T us =
      (m.replaced X env (tn.status = .active) T [] (m.incoming T (m.mergeable T us))
        (GoMap.insertAll (m.usersOf T) (m.incoming T (m.mergeable T us))),
        if m.mergeable T us = us then none else some .credentialInUse) := by
  have hopen : m.addTenantUsers X env T us =
      (m.opened T).mergeUsers X env (tn.status = .active) T us := by
    simp only [addTenantUsers, hget]
    rfl
  have hmergeable : (m.opened T).mergeable T us = m.mergeable T us := rfl
  have hopened : m.opened T = m.replaced X env (tn.status = .active) T [] [] (m.usersOf T) := by
    unfold opened replaced changed
    split_ifs <;> rfl
  rw [hopen, mergeUsers_eq ha, hmergeable, hopened, foldl_takeOn, List.nil_append]

variable (X m T us) in
theorem addTenantUsers_ok_iff (ha : env.AddsOk) :
    (m.addTenantUsers X env T us).2 = none ↔
      m.reg.get T ≠ none ∧ ∀ u ∈ us, m.takenByOther T (m.buildUser T u) = false := by
  cases hget : m.reg.get T with
  | none => simp [addTenantUsers, hget]
  | some tn =>
    rw [addTenantUsers_eq ha hget]
    simp [mergeable, List.takeWhile_eq_self_iff]

/-! ## Whatever comes of it -/

/-- **What a call about one tenant's users can do to the sets**: nothing to
the others', and to its own only bring in users the call names. -/
structure TakenFrom (m : Manager) (T : String) (us : List User) (m' : Manager) : Prop where
  reg : m'.reg = m.reg
  others : ∀ T', T' ≠ T → m'.usersOf T' = m.usersOf T'
  own : ∀ x u, (m'.usersOf T).lookup x = some u →
    (m.usersOf T).lookup x = some u ∨ ∃ v ∈ us, u = m.buildUser T v

theorem takenFrom_self (m : Manager) (T : String) (us : List User) : TakenFrom m T us m :=
  ⟨rfl, fun _ _ => rfl, fun _ _ h => Or.inl h⟩

variable (X env) in
theorem takenFrom_setTenantUsers (m : Manager) (T : String) (us : List User) :
    TakenFrom m T us (m.setTenantUsers X env T us).1 := by
  rcases setTenantUsers_cases X env m T us with
    ⟨err, heq⟩ | ⟨tn, gone, done, rest, -, ⟨err, heq, -⟩ | ⟨-, heq⟩⟩
  · rw [heq]
    exact takenFrom_self m T us
  · -- the set is recorded last, so this is the old one
    rw [heq]
    exact ⟨rfl, fun _ _ => rfl, fun _ _ h => Or.inl h⟩
  · rw [heq]
    have hof := m.usersOf_insert T (m.newSet T us)
    refine ⟨rfl, fun T' hT => (congrFun hof T').trans (Function.update_of_ne hT ..),
      fun x u hu => ?_⟩
    have hself := (congrFun hof T).trans (Function.update_self ..)
    obtain ⟨v, hv, -, heq⟩ := lookup_newSet ((congrArg (AList.lookup x) hself).symm.trans hu)
    exact Or.inr ⟨v, hv, heq⟩

theorem takenFrom_addTenantUsers (m : Manager) (T : String) (us : List User) :
    TakenFrom m T us (m.addTenantUsers X env T us).1 := by
  rcases addTenantUsers_cases X env m T us with ⟨err, heq⟩ | ⟨tn, -, heq⟩
  · rw [heq]
    exact takenFrom_self m T us
  · rw [heq]
    have hopen : TakenFrom m T us (m.opened T) :=
      ⟨rfl, fun T' _ => congrFun (usersOf_opened m T) T',
        fun x u hu => Or.inl (by rwa [usersOf_opened] at hu)⟩
    refine (mergeUsers_rule (m := m.opened T)
      (I := fun m' => TakenFrom m T us m' ∧ m'.forceInbounds = m.forceInbounds)
      (fun m' v hv hm' _ => ⟨⟨hm'.1.reg, fun T' hT => ?_, fun x u hu => ?_⟩, hm'.2⟩)
      ⟨hopen, rfl⟩).1
    · rw [usersOf_takeOn, Function.update_of_ne hT, hm'.1.others T' hT]
    · rw [usersOf_takeOn, Function.update_self, GoMap.lookup_insert_eq] at hu
      split_ifs at hu
      · refine Or.inr ⟨v, hv, (Option.some.inj hu).symm.trans ?_⟩
        rw [buildUser, buildUser, hm'.2]
      · exact hm'.1.own x u hu

/-! ## Deleting the set -/

theorem deleteTenant_eq {t : Tenant} (hget : m.reg.get T = some t) (hsave : env.save T = true) :
    m.deleteTenant X env T =
      ({ m.forget (GoMap.range (env.order .stale) (m.usersOf T)) with
          reg := m.reg.drop t T
          live := m.live.removeAll X env
            (GoMap.range (env.order (.tenantUsers T)) (m.usersOf T))
          users := m.users.erase T }, none) := by
  have hdrop : m.reg.delete (env.save T) T = (m.reg.drop t T, none) := by
    have hlookup : m.reg.byID.lookup T = some t := hget
    simp only [Registry.delete, hlookup, hsave, if_true]
  simp only [deleteTenant, removeTenantFromCore, hdrop, forget_eq]
  rfl

variable (X) in
theorem deleteTenant_refused (h : m.reg.get T = none ∨ env.save T = false) :
    ∃ err, m.deleteTenant X env T = (m.removeTenantFromCore X env T, some err) := by
  have hfail : ∃ err, m.reg.delete (env.save T) T = (m.reg, some err) := by
    rcases Registry.delete_cases m.reg (env.save T) T with ⟨herr, -⟩ | ⟨hok, hknown, -⟩
    · exact herr
    · have hsave := h.resolve_left hknown
      obtain ⟨t, ht⟩ := Option.ne_none_iff_exists'.1 hknown
      have hlookup : m.reg.byID.lookup T = some t := ht
      simp [Registry.delete, hlookup, hsave] at hok
  obtain ⟨err, herr⟩ := hfail
  refine ⟨.registry err, ?_⟩
  simp only [deleteTenant, removeTenantFromCore, herr]

end Manager

end NodeAgent
