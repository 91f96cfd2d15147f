import NodeAgent.Shared.Helpers.Loops
import NodeAgent.Xray.Helpers.Start
/-!
# Who is live, and for whom

What syncs and removals do to the set of live users, seen through two
questions only: is an email live on an inbound, and for which tenant was
it last put there? `Placed` bounds the answers by a relation `own` between
tenants and emails. A sync for a tenant keeps the bound if the tenant owns
the email; a removal takes the email out of it.
-/

namespace NodeAgent

variable {X : Externals} {env : Env}

namespace Live

/-- The account an email has on an inbound. -/
def on (L : Live) (tag email : String) : Option Account :=
  L.core.bind fun x => x.process.live tag email

/-- The tags of the inbounds. -/
def tags (L : Live) : List String :=
  (L.core.map fun x => x.config.tags).getD []

/-- **Everyone live was put there for a tenant that owns the email.** -/
def Placed (own : String → String → Prop) (L : Live) : Prop :=
  ∀ tag email, L.on tag email ≠ none →
    tag ∈ L.tags ∧ ∃ T, L.placedFor email = some T ∧ own T email

variable {own own' : String → String → Prop} {L : Live} {T : String} {u : User}

theorem Placed.mono (h : L.Placed own) (himp : ∀ T e, own T e → own' T e) : L.Placed own' := by
  intro tag email hon
  obtain ⟨htag, T, hT, hown⟩ := h tag email hon
  exact ⟨htag, T, hT, himp T email hown⟩

theorem Placed.of_none (h : L.core = none) : L.Placed own := by
  intro tag email hon
  simp [on, h] at hon

theorem Placed.of_fresh {x : Xray} (hx : x.Fresh X) (h : L.core = some x) : L.Placed own := by
  intro tag email hon
  simp [on, h, hx.live] at hon

theorem spares_syncUser (L : Live) (T : String) (u : User) (tag : String) {e : String}
    (he : e ≠ u.email) :
    X.table.Spares u.email e (L.on tag e) ((L.syncUser X env T u).1.on tag e) := by
  cases hcore : L.core with
  | none => exact Or.inl (by simp [Live.syncUser, on, hcore])
  | some x => simpa [Live.syncUser, on, hcore] using (Xray.syncUser_frame X env x u).2.1 tag e he

/-- **A sync for an owner.** -/
theorem Placed.syncUser (h : L.Placed own) (hown : own T u.email) :
    (L.syncUser X env T u).1.Placed own := by
  cases hcore : L.core with
  | none =>
    have hsame : (L.syncUser X env T u).1 = L := by simp [Live.syncUser, hcore]
    rw [hsame]
    exact h
  | some x =>
    have hL' : (L.syncUser X env T u).1 = ⟨some (x.syncUser X env u).1,
        fun e => if e = u.email then some T else L.placedFor e⟩ := by
      simp [Live.syncUser, hcore]
    obtain ⟨-, hother, hself⟩ := Xray.syncUser_frame X env x u
    have htags : (x.syncUser X env u).1.config.tags = x.config.tags :=
      Config.tags_congr (Xray.shape_syncUser x u)
    have hLtags : L.tags = x.config.tags := by simp [tags, hcore]
    have hLon : ∀ t e, L.on t e = x.process.live t e := fun t e => by simp [on, hcore]
    rw [hL']
    intro tag email hon
    replace hon : (x.syncUser X env u).1.process.live tag email ≠ none := hon
    show tag ∈ (x.syncUser X env u).1.config.tags ∧ ∃ T',
      (if email = u.email then some T else L.placedFor email) = some T' ∧ own T' email
    rw [htags]
    by_cases he : email = u.email
    · subst he
      refine ⟨?_, T, if_pos rfl, hown⟩
      rcases hself tag hon with htag | hbefore
      · exact htag
      · rw [← hLtags]
        exact (h tag u.email (by rw [hLon]; exact hbefore)).1
    · rw [(hother tag email he).eq_of_ne_none hon] at hon
      obtain ⟨htag, T', hT', hown'⟩ := h tag email (by rw [hLon]; exact hon)
      exact ⟨hLtags ▸ htag, T', by rw [if_neg he, hT'], hown'⟩

theorem Placed.syncs {us : List User} (h : L.Placed own) (hown : ∀ u ∈ us, own T u.email) :
    (L.syncs X env T us).Placed own :=
  Live.syncs_rule (I := Live.Placed own) (fun u hu _ hL => hL.syncUser (hown u hu)) h

/-- **A removal**, where the calls succeed: the email is off every inbound
of the configuration, with those Xray does not tell from it, and that is
all. -/
theorem on_removeFromCore (hr : env.RemovesOk) (L : Live) (u : User) (tag e : String) :
    (L.removeFromCore X env u).on tag e =
      if X.table.key e = X.table.key u.email ∧ tag ∈ L.tags then none else L.on tag e := by
  cases hcore : L.core with
  | none => simp [Live.removeFromCore, on, hcore]
  | some x =>
    obtain ⟨tags, hmem, heq⟩ := Xray.updateUsers_removal X env (withInbounds u []) rfl x
    have hon' : (L.removeFromCore X env u).on tag e =
        (tags.foldl (Xray.removeAt X env u.email) x).process.live tag e := by
      rw [Live.removeFromCore, hcore]
      exact congrArg (fun y => y.process.live tag e) heq
    have hon : L.on tag e = x.process.live tag e := by simp [on, hcore]
    have htags : tag ∈ L.tags ↔ tag ∈ tags := by
      rw [hmem, Live.tags, hcore]
      rfl
    rw [hon', hon, Xray.removeAt_fold_live hr]
    simp only [htags, and_comm]

variable (X env) in
theorem removeFromCore_frame (L : Live) (u : User) :
    (L.removeFromCore X env u).tags = L.tags ∧
      (L.removeFromCore X env u).placedFor = L.placedFor := by
  cases hcore : L.core with
  | none => simp [Live.removeFromCore, hcore]
  | some x =>
    obtain ⟨tags, -, heq⟩ := Xray.updateUsers_removal X env (withInbounds u []) rfl x
    obtain ⟨hshape, -, -⟩ := Xray.removeAt_fold_frame X env u.email tags x
    rw [Live.removeFromCore, hcore]
    refine ⟨?_, rfl⟩
    show (x.updateUsers X env [withInbounds u []]).1.config.tags = _
    rw [heq, Live.tags, hcore]
    exact Config.tags_congr hshape

variable (X env) in
theorem removeAll_frame (l : List (String × User)) (L : Live) :
    (L.removeAll X env l).tags = L.tags ∧ (L.removeAll X env l).placedFor = L.placedFor := by
  induction l generalizing L with
  | nil => exact ⟨rfl, rfl⟩
  | cons p l ih =>
    obtain ⟨h₁, h₂⟩ := ih (L.removeFromCore X env p.2)
    obtain ⟨h₃, h₄⟩ := removeFromCore_frame X env L p.2
    exact ⟨h₁.trans h₃, h₂.trans h₄⟩

/-- **A list of removals.** -/
theorem on_removeAll (hr : env.RemovesOk) (l : List (String × User)) (L : Live)
    (tag e : String) :
    (L.removeAll X env l).on tag e =
      if (∃ p ∈ l, X.table.key e = X.table.key p.2.email) ∧ tag ∈ L.tags then none
      else L.on tag e := by
  induction l generalizing L with
  | nil => simp [Live.removeAll]
  | cons p l ih =>
    have hstep : L.removeAll X env (p :: l) = (L.removeFromCore X env p.2).removeAll X env l := rfl
    rw [hstep, ih, (removeFromCore_frame X env L p.2).1, on_removeFromCore hr]
    by_cases htag : tag ∈ L.tags
    · by_cases he : X.table.key e = X.table.key p.2.email
      · simp [htag, he]
      · simp only [List.mem_cons, exists_eq_or_imp, he, false_or, false_and, if_false]
    · simp [htag]

theorem Placed.removeAll (hr : env.RemovesOk) (h : L.Placed own) (l : List (String × User)) :
    (L.removeAll X env l).Placed fun T e => own T e ∧ ∀ p ∈ l, e ≠ p.2.email := by
  intro tag email hon
  obtain ⟨htags, hplaced⟩ := removeAll_frame X env l L
  rw [on_removeAll hr] at hon
  rw [htags, hplaced]
  split_ifs at hon with hgone
  · exact absurd rfl hon
  · obtain ⟨htag, T, hT, hown⟩ := h tag email hon
    exact ⟨htag, T, hT, hown, fun p hp he => hgone ⟨⟨p, hp, congrArg _ he⟩, htag⟩⟩

end Live

theorem Demo.placed_syncUser (ids : List String) (T : String) (u : User) :
    ((Demo.node ids).live.syncUser Demo.externals .calm T u).1.Placed fun _ e => e = u.email := by
  obtain ⟨x, hx⟩ : ∃ x, Xray.new Demo.externals .calm (Config.newConfig ⟨[Demo.inbound]⟩ []) [] =
    some x := ⟨_, rfl⟩
  have hcore : (Demo.node ids).live.core = some x := hx
  exact (Live.Placed.of_fresh (Xray.fresh_new hx) hcore).syncUser rfl

end NodeAgent
