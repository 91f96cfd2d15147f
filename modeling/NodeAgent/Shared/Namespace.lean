import NodeAgent.Shared.Model.Manager
import NodeAgent.Xray.Helpers.Stats
import Mathlib.Data.Set.Insert
/-!
# Whose email is it?

The emails of all tenants share one core, and the manager tells them apart
by the prefix `t<ID>.`. That works for a set of tenants exactly when no
prefix is the start of another: ids are arbitrary, and one that holds a
dot can begin with another followed by a dot. The stats of a tenant come
by way of the names of the counters besides, so they are its users' only
where these are read back.
-/

namespace NodeAgent

open GoStrings

/-- **No tenant's prefix is the start of another's.** -/
def PrefixFree (S : Set String) : Prop :=
  ∀ T ∈ S, ∀ T' ∈ S, hasPrefix (tenantPrefix T') (tenantPrefix T) = true → T = T'

variable {S : Set String} {T T' x : String}

@[simp] theorem hasPrefix_namespacedEmail (T e : String) :
    hasPrefix (namespacedEmail T e) (tenantPrefix T) = true :=
  hasPrefix_append _ _

theorem PrefixFree.eq_of_hasPrefix (hS : PrefixFree S) (hT : T ∈ S) (hT' : T' ∈ S)
    (h : hasPrefix x (tenantPrefix T) = true) (h' : hasPrefix x (tenantPrefix T') = true) :
    T = T' := by
  rcases hasPrefix_total h h' with hle | hle
  · exact (hS T' hT' T hT hle).symm
  · exact hS T hT T' hT' hle

theorem PrefixFree.mono {S' : Set String} (hS : PrefixFree S) (h : S' ⊆ S) : PrefixFree S' :=
  fun T hT T' hT' => hS T (h hT) T' (h hT')

theorem namespacedEmail_ne_empty (T e : String) : namespacedEmail T e ≠ "" := by
  intro h
  have hlist := congrArg String.toList h
  simp [namespacedEmail, tenantPrefix] at hlist

/-- A counter of the core, and the user it counts for. -/
structure OwnedRow where
  tenantID : String
  email : String
  link : Direction
  value : Int64

/-- The row the core answers with. -/
def OwnedRow.counter (r : OwnedRow) : QueryStat :=
  ⟨counterName (namespacedEmail r.tenantID r.email) r.link, r.value⟩

/-- The row as the customer should get it. -/
def OwnedRow.ofCustomer (r : OwnedRow) : Stat :=
  ⟨r.email, r.link.name, "traffic", r.value⟩

/-- **Isolation of a set of tenants**, in every place the manager decides
by the prefix whose email it has; in the stats, for the emails of a set. -/
structure Isolated (S E : Set String) : Prop where
  /-- No email is two tenants'. -/
  distinct : ∀ T ∈ S, ∀ T' ∈ S, T ≠ T' → ∀ e e', namespacedEmail T e ≠ namespacedEmail T' e'
  /-- An email starts with no prefix but its own tenant's. -/
  own : ∀ T ∈ S, ∀ T' ∈ S, ∀ e,
    hasPrefix (namespacedEmail T' e) (tenantPrefix T) = true → T' = T
  /-- Whatever the counters of the core, the stats of a tenant are those of
  its users, under the emails the customer used. -/
  stats : ∀ (m : Manager) (env : Env) (x : Xray) (rows : List OwnedRow), ∀ T ∈ S,
    (∀ r ∈ rows, r.tenantID ∈ S ∧ r.email ∈ E) → m.live.core = some x → env.stats = true →
    env.rows.run x.process.queryStats = rows.map OwnedRow.counter →
    m.getTenantUserStats env T =
      (rows.filter fun r => r.tenantID = T).map OwnedRow.ofCustomer
  /-- A credential of another tenant's user is refused, in a batch … -/
  refusedInBatch : ∀ T ∈ S, ∀ T' ∈ S, T ≠ T' → ∀ (creds batch : GoMap String String)
    (email cred e : String), creds.lookup cred = some (namespacedEmail T' e) →
    ∃ err, Manager.checkCredential creds (tenantPrefix T) email batch cred = .error err
  /-- … and in a merge. -/
  refusedInMerge : ∀ T ∈ S, ∀ T' ∈ S, T ≠ T' → ∀ (m : Manager) (u : User) (cred e : String),
    cred ∈ userCredentials (m.buildUser T u) →
    m.creds.lookup cred = some (namespacedEmail T' e) →
    m.takenByOther T (m.buildUser T u) = true

/-- **Picking rows by prefix is picking them by owner**, where the emails
are read back. -/
theorem filter_rows (hS : PrefixFree S) (hT : T ∈ S) {rows : List OwnedRow}
    (hrows : ∀ r ∈ rows, r.tenantID ∈ S ∧ Parseable (namespacedEmail r.tenantID r.email)) :
    ((buildStatResponse (rows.map OwnedRow.counter)).filter fun s =>
        hasPrefix s.name (tenantPrefix T)).map
        (fun s => { s with name := trimPrefix s.name (tenantPrefix T) }) =
      (rows.filter fun r => r.tenantID = T).map OwnedRow.ofCustomer := by
  induction rows with
  | nil => rfl
  | cons r rows ih =>
    have hrest := ih fun r' hr' => hrows r' (List.mem_cons_of_mem _ hr')
    obtain ⟨hr, hp⟩ := hrows r (List.mem_cons_self ..)
    have hread : buildStatResponse ((r :: rows).map OwnedRow.counter) =
        ⟨namespacedEmail r.tenantID r.email, r.link.name, "traffic", r.value⟩ ::
          buildStatResponse (rows.map OwnedRow.counter) := by
      simp [buildStatResponse, OwnedRow.counter,
        parseStatName_counterName hp (namespacedEmail_ne_empty _ _)]
    rw [hread]
    by_cases hown : r.tenantID = T
    · subst hown
      have htrim : trimPrefix (namespacedEmail r.tenantID r.email)
          (tenantPrefix r.tenantID) = r.email := trimPrefix_append _ _
      simp only [List.filter_cons, hasPrefix_namespacedEmail, if_true, decide_true,
        List.map_cons, htrim]
      rw [hrest]
      rfl
    · have hpre : hasPrefix (namespacedEmail r.tenantID r.email) (tenantPrefix T) = false := by
        rw [Bool.eq_false_iff]
        intro h
        exact hown (hS.eq_of_hasPrefix hr hT (hasPrefix_namespacedEmail _ _) h)
      simp only [List.filter_cons, hpre, hown, decide_false]
      exact hrest

/-- **Isolated users have names that are read back**: a core that counts for
one of them alone shows it. -/
theorem Isolated.parseable {E : Set String} (h : Isolated S E) (hT : T ∈ S) {e : String}
    (he : e ∈ E) : Parseable (namespacedEmail T e) := by
  let p : Process := (Process.start ⟨[]⟩).carry (namespacedEmail T e) 0 0
  let m : Manager := { Manager.new (.newRegistry .given ∅) [] with
    live := ⟨some ⟨⟨[]⟩, p⟩, fun _ => none⟩ }
  have hquery : p.queryStats = [⟨counterName (namespacedEmail T e) .uplink, 0⟩,
      ⟨counterName (namespacedEmail T e) .downlink, 0⟩] := by
    have hlookup : AList.lookup (namespacedEmail T e) p.counters = some (0, 0) :=
      AList.lookup_insert _
    have hkeys : p.counters.keys = [namespacedEmail T e] := rfl
    simp [Process.queryStats, GoMap.range, Order.given, hkeys, hlookup]
  have hstats := h.stats m .calm ⟨⟨[]⟩, p⟩ [⟨T, e, .uplink, 0⟩, ⟨T, e, .downlink, 0⟩] T hT
    (by simp [hT, he]) rfl rfl hquery
  have hmem : (⟨e, "uplink", "traffic", 0⟩ : Stat) ∈ m.getTenantUserStats .calm T := by
    rw [hstats]
    simp [OwnedRow.ofCustomer, Direction.name]
  obtain ⟨s, hs, hname⟩ := List.mem_map.1 hmem
  obtain ⟨hs, hpre⟩ := List.mem_filter.1 hs
  obtain ⟨row, hrow, hparse⟩ := List.mem_filterMap.1 hs
  obtain ⟨q, hq, rfl⟩ := Option.map_eq_some_iff.1 hparse
  -- what follows the prefix in the name is the email
  have hemail : q.1 = namespacedEmail T e := by
    have htrim : trimPrefix q.1 (tenantPrefix T) = e := congrArg Stat.name hname
    rw [namespacedEmail, ← htrim]
    exact (append_trimPrefix hpre).symm
  obtain ⟨d, hd⟩ : ∃ d, row.name = counterName (namespacedEmail T e) d := by
    have hrow : row ∈ p.queryStats := hrow
    rw [hquery] at hrow
    rcases List.mem_cons.1 hrow with rfl | hrow
    · exact ⟨.uplink, rfl⟩
    · rw [List.mem_singleton.1 hrow]
      exact ⟨.downlink, rfl⟩
  rw [hd, ← Prod.eta q, ← Prod.eta q.2, hemail] at hq
  exact parseable_of_parseStatName hq

/-- **Isolation holds for a set of tenants exactly when their prefixes are
prefix-free and the emails of their users on the node are parseable.** -/
theorem isolated_iff (S E : Set String) :
    Isolated S E ↔ PrefixFree S ∧ ∀ T ∈ S, ∀ e ∈ E, Parseable (namespacedEmail T e) := by
  constructor
  · intro h
    refine ⟨fun T hT T' hT' hpre => ?_, fun T hT e he => h.parseable hT he⟩
    refine (h.own T hT T' hT' "" ?_).symm
    -- the email that is empty but for the prefix already starts with both
    have hempty : namespacedEmail T' "" = tenantPrefix T' := by
      rw [namespacedEmail, ← String.toList_inj, String.toList_append]
      exact List.append_nil _
    rw [hempty]
    exact hpre
  · rintro ⟨hS, hparse⟩
    have hown : ∀ T ∈ S, ∀ T' ∈ S, ∀ e,
        hasPrefix (namespacedEmail T' e) (tenantPrefix T) = true → T' = T :=
      fun T hT T' hT' e h => hS.eq_of_hasPrefix hT' hT (hasPrefix_namespacedEmail _ _) h
    have hother : ∀ T ∈ S, ∀ T' ∈ S, T ≠ T' → ∀ e,
        hasPrefix (namespacedEmail T' e) (tenantPrefix T) = false := by
      intro T hT T' hT' hne e
      rw [Bool.eq_false_iff]
      exact fun h => hne (hown T hT T' hT' e h).symm
    have hdistinct : ∀ T ∈ S, ∀ T' ∈ S, T ≠ T' → ∀ e e',
        namespacedEmail T e ≠ namespacedEmail T' e' := by
      intro T hT T' hT' hne e e' heq
      refine hne (hown T hT T' hT' e' ?_).symm
      rw [← heq]
      exact hasPrefix_namespacedEmail _ _
    refine ⟨hdistinct, hown, ?_, ?_, ?_⟩
    · intro m env x rows T hT hrows hcore hstats hquery
      unfold Manager.getTenantUserStats Xray.getUsersStats
      simp only [hcore, hstats, if_true, hquery]
      exact filter_rows hS hT fun r hr => ⟨(hrows r hr).1, hparse _ (hrows r hr).1 _ (hrows r hr).2⟩
    · intro T hT T' hT' hne creds batch email cred e howner
      unfold Manager.checkCredential
      simp only [howner, Option.any_some, hother T hT T' hT' hne e, Bool.not_false, if_true]
      split
      · split_ifs
        · exact ⟨_, rfl⟩
        · exact ⟨_, rfl⟩
      · exact ⟨_, rfl⟩
    · intro T hT T' hT' hne m u cred e hcred howner
      have hemail : namespacedEmail T' e ≠ (m.buildUser T u).email :=
        (hdistinct T hT T' hT' hne u.email e).symm
      refine List.any_eq_true.2 ⟨cred, hcred, ?_⟩
      simp [howner, hemail, hother T hT T' hT' hne e]

/-- Two tenants a registry takes on, one after the other, whose users can
have the same email on the node; and a user of the first whose counters
are read under another name. -/
theorem namespacedEmail_collision :
    let r := Registry.newRegistry .given ∅
    let p : Registry.CreateParams := ⟨"a", "key-1", 100, 0, 0, 1⟩
    let q : Registry.CreateParams := ⟨"a.b", "key-2", 100, 0, 0, 1⟩
    (r.createTenant true p).2 = .ok p.tenant ∧
      ((r.createTenant true p).1.createTenant true q).2 = .ok q.tenant ∧
      p.id ≠ q.id ∧ namespacedEmail p.id "b.x" = namespacedEmail q.id "x" ∧
      hasPrefix (namespacedEmail q.id "x") (tenantPrefix p.id) = true ∧
      (∀ E, ¬ Isolated {p.id, q.id} E) ∧ ¬ Isolated {p.id} {"x>>>y"} := by
  refine ⟨by decide +kernel, by decide +kernel, by decide, by decide, by decide, ?_, ?_⟩
  · intro E h
    exact h.distinct "a" (by simp) "a.b" (by simp) (by decide) "b.x" "x" (by decide)
  · intro h
    exact absurd (h.parseable rfl rfl) (by decide)

end NodeAgent
