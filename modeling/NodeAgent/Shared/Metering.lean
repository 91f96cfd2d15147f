import NodeAgent.Shared.Helpers.Cases
import NodeAgent.Shared.Namespace
/-!
# Whose traffic is it?

From a user's counters to its tenant's usage there are two readings by
name: the counter's name is split to find the email, and the email looked
up to find the tenant. Every user that is taken on is in the second index;
the first reading finds the user exactly when its email is parseable.
-/

namespace NodeAgent

variable {X : Externals} {env : Env} {m m' : Manager} {T : String} {us : List User} {u : User}

/-- What the rows of an answer add up to under a name. -/
def reading (rows : List QueryStat) (name : String) : Int64 :=
  ((Manager.currentOf (buildStatResponse rows)).lookup name).getD 0

/-- **The traffic counted under an email goes to its user and tenant**, and
to nobody else. -/
structure Metered (m : Manager) (T email : String) : Prop where
  /-- The email is read back from the names of its counters. -/
  readBack : ∀ d : Direction,
    parseStatName (counterName email d) = some (email, "traffic", d.name)
  /-- A row of its counters counts for the email and for no other name. -/
  attributed : ∀ (d : Direction) (v : Int64) (rows : List QueryStat) (name : String),
    reading (⟨counterName email d, v⟩ :: rows) name =
      (if name = email then v else 0) + reading rows name
  /-- The email is indexed to its tenant. -/
  indexed : m.emailTo.lookup email = some T
  /-- What its reading shows is added to that tenant and to no other. -/
  billed : ∀ (current : GoMap String Int64) (T' : String),
    m.share current T' email =
      if T' = T then Manager.trafficDelta (m.last email) ((current.lookup email).getD 0) else 0

/-! ## The index -/

theorem lookup_emailTo_of_mergeUsers {active : Bool} (hu : u ∈ us)
    (h : (m.mergeUsers X env active T us).2 = none) :
    (m.mergeUsers X env active T us).1.emailTo.lookup (namespacedEmail T u.email) = some T := by
  -- an admission only ever indexes emails to this tenant
  have hkeep : ∀ (us : List User) (m : Manager),
      m.emailTo.lookup (namespacedEmail T u.email) = some T →
      (m.mergeUsers X env active T us).1.emailTo.lookup (namespacedEmail T u.email) = some T := by
    intro us m hm
    refine Manager.mergeUsers_rule
      (I := fun m => m.emailTo.lookup (namespacedEmail T u.email) = some T)
      (fun m v _ hm _ => ?_) hm
    show (m.emailTo.insert _ T).lookup _ = some T
    rw [GoMap.lookup_insert_eq]
    split_ifs
    · rfl
    · exact hm
  induction us generalizing m with
  | nil => exact absurd hu (List.not_mem_nil)
  | cons v us ih =>
    rcases Manager.mergeUsers_cons X env active T v us m with
      ⟨-, heq⟩ | ⟨-, heq | ⟨⟨err, heq⟩, -⟩⟩
    · rw [heq] at h; cases h
    · rw [heq] at h ⊢
      rcases List.mem_cons.1 hu with rfl | hu
      · exact hkeep us _ (AList.lookup_insert _)
      · exact ih hu h
    · rw [heq] at h; cases h

/-- **A user taken on is in the index.** -/
theorem lookup_emailTo_of_admitted (hu : u ∈ us)
    (h : m.setTenantUsers X env T us = (m', none) ∨ m.addTenantUsers X env T us = (m', none)) :
    m'.emailTo.lookup (namespacedEmail T u.email) = some T := by
  rcases h with h | h
  · rcases Manager.setTenantUsers_cases X env m T us with
      ⟨err, heq⟩ | ⟨tn, gone, done, rest, hset, ⟨err, heq, -⟩ | ⟨rfl, heq⟩⟩
    · rw [h] at heq; cases heq
    · rw [h] at heq; cases heq
    · have hm' := congrArg Prod.fst (h.symm.trans heq)
      have hdone : namespacedEmail T u.email ∈ done.map Prod.fst := by
        have hkeys := GoMap.range_keys (env.order .fresh) (m.newSet T us)
        rw [hset.fresh, List.append_nil] at hkeys
        rw [hkeys, Order.mem_run]
        exact Manager.mem_keys_newSet.2 ⟨u, hu, rfl⟩
      simp only at hm'
      rw [hm']
      show (GoMap.insertKeys _ (done.map Prod.fst) T).lookup _ = some T
      rw [GoMap.lookup_insertKeys, if_pos hdone]
  · rcases Manager.addTenantUsers_cases X env m T us with ⟨err, heq⟩ | ⟨tn, -, heq⟩
    · rw [h] at heq; cases heq
    · have hres := lookup_emailTo_of_mergeUsers hu (h.symm.trans heq ▸ rfl :
        ((m.opened T).mergeUsers X env (tn.status = .active) T us).2 = none)
      rw [← heq, h] at hres
      exact hres

/-! ## The two readings together -/

theorem reading_cons {email : String} (hp : Parseable email) (hne : email ≠ "") (d : Direction)
    (v : Int64) (rows : List QueryStat) (name : String) :
    reading (⟨counterName email d, v⟩ :: rows) name =
      (if name = email then v else 0) + reading rows name := by
  have htotal : ∀ rows, reading rows name = Manager.total (buildStatResponse rows) name := by
    intro rows
    rw [reading, Manager.lookup_currentOf]
    split_ifs with hmem
    · rfl
    · have hnil : ((buildStatResponse rows).filter fun s => s.name = name) = [] := by
        rw [List.filter_eq_nil_iff]
        intro s hs heq
        exact hmem (List.mem_map.2 ⟨s, hs, by simpa using heq⟩)
      simp [Manager.total, hnil]
  have hcons : buildStatResponse (⟨counterName email d, v⟩ :: rows) =
      [⟨email, d.name, "traffic", v⟩] ++ buildStatResponse rows := by
    simp [buildStatResponse, parseStatName_counterName hp hne]
  rw [htotal, htotal, hcons, Manager.total_append]
  congr 1
  by_cases hn : name = email
  · simp [Manager.total, hn]
  · have hn' : ¬ email = name := fun h => hn h.symm
    simp [Manager.total, hn, hn']

/-- **The traffic of a user that was taken on is metered exactly when its
email on the node is parseable.** -/
theorem metered_iff_parseable
    (h : m.setTenantUsers X env T us = (m', none) ∨ m.addTenantUsers X env T us = (m', none))
    (hu : u ∈ us) :
    Metered m' T (namespacedEmail T u.email) ↔ Parseable (namespacedEmail T u.email) := by
  have hindex := lookup_emailTo_of_admitted hu h
  constructor
  · intro hmet
    exact parseable_of_parseStatName (hmet.readBack .uplink)
  · intro hp
    have hne := namespacedEmail_ne_empty T u.email
    refine ⟨parseStatName_counterName hp hne, reading_cons hp hne, hindex, fun current T' => ?_⟩
    rw [Manager.share, hindex]
    by_cases hT : T' = T
    · rw [if_pos hT, hT, if_pos rfl]
    · rw [if_neg hT, if_neg fun heq => hT (Option.some.inj heq).symm]

/-- A user whose email has a separator in it is taken on and carries a
hundred bytes, and no poll ever bills them. -/
theorem metered_separator_in_email :
    let m := Demo.node ["a"]
    let m₁ := Demo.run [.setUsers "a" [Demo.user "x>>>y" "secret"]] m
    let m₂ := Demo.run [.traffic "ta.x>>>y" 60 40, .poll 1] m₁
    m.setTenantUsers Demo.externals .calm "a" [Demo.user "x>>>y" "secret"] = (m₁, none) ∧
      (∃ x, m₂.live.core = some x ∧ x.process.counted "ta.x>>>y" = some 100) ∧
      m₂.emailTo.lookup "ta.x>>>y" = some "a" ∧
      (m₂.reg.get "a").map Tenant.usedBytes = some 0 ∧
      ¬ Metered m₁ "a" "ta.x>>>y" := by
  refine ⟨rfl, ⟨_, rfl, by decide⟩, by decide, by decide, fun h => ?_⟩
  exact absurd (h.readBack .uplink) (by decide)

/-- A plain email is metered. -/
theorem metered_plain_email :
    Metered (Demo.run [.setUsers "a" [Demo.user "x" "secret"]] (Demo.node ["a"])) "a" "ta.x" :=
  (@metered_iff_parseable Demo.externals .calm (Demo.node ["a"]) _ "a" [Demo.user "x" "secret"]
    (Demo.user "x" "secret") (Or.inl rfl) (by simp)).2 (by decide)

end NodeAgent
