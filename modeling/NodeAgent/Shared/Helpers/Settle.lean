import NodeAgent.Shared.Helpers.Place
/-!
# Syncs that report no error

A sync goes through the inbounds in turn and ignores the answers to its
removals; what it reports are adds that failed. One that reports nothing
has left the user, at every tag, with the account the last inbound of the
tag has for it. This is of any configuration, also one with two inbounds
of a tag or with inbounds that take no users, which a sync passes over.
-/

namespace NodeAgent

open History

variable {X : Externals} {env : Env}

/-- Every call that removes a user is refused. -/
def Env.RemovesRefused (env : Env) : Prop :=
  ∀ n, env.remove n = .refused

/-! ## One sync -/

/-- The inbound of a tag that a sync comes to last. -/
def Inbound.lastAt (l : List Inbound) (tag : String) : Option Inbound :=
  (l.filter fun i => decide (i.tag = tag) && !i.exclude).getLast?

theorem Inbound.lastAt_cons (i : Inbound) (l : List Inbound) (tag : String) :
    Inbound.lastAt (i :: l) tag =
      (Inbound.lastAt l tag).or (if i.tag = tag ∧ i.exclude = false then some i else none) := by
  unfold Inbound.lastAt
  by_cases hi : i.tag = tag ∧ i.exclude = false
  · rw [if_pos hi, List.filter_cons_of_pos (by simp [hi]), List.getLast?_cons]
    cases (l.filter fun i => decide (i.tag = tag) && !i.exclude).getLast? <;> rfl
  · rw [if_neg hi, List.filter_cons_of_neg (by simpa using hi), Option.or_none]

variable {l : List Inbound}

theorem Inbound.lastAt_eq_some {tag : String} {i : Inbound}
    (h : Inbound.lastAt l tag = some i) : i ∈ l ∧ i.tag = tag ∧ i.exclude = false := by
  have hmem := List.mem_of_getLast? h
  rw [List.mem_filter] at hmem
  simpa using hmem

theorem Inbound.lastAt_bare (l : List Inbound) (tag : String) :
    Inbound.lastAt (l.map Inbound.bare) tag = (Inbound.lastAt l tag).map Inbound.bare := by
  unfold Inbound.lastAt
  rw [List.filter_map, List.getLast?_map]
  rfl

/-- **The inbound that comes last decides.** -/
theorem Xray.live_syncInbounds_of_ok (hr : env.RemovesLand) (u : User)
    {p : Process} (hok : (Xray.syncInbounds X env u l p).2.2 = []) (tag : String) {e : String}
    (he : X.table.key e = X.table.key u.email) :
    (Xray.syncInbounds X env u l p).2.1.live tag e =
      ((Inbound.lastAt l tag).map fun i =>
        u.leaves ((i.accountOf X u).map i.accountForAPI) e).getD (p.live tag e) := by
  induction l generalizing p with
  | nil => rfl
  | cons i rest ih =>
    rw [Xray.syncInbounds_cons] at hok ⊢
    rw [Inbound.lastAt_cons]
    by_cases hex : i.exclude = true
    · simp only [hex, if_true] at hok ⊢
      rw [ih hok]
      simp
    · simp only [if_neg hex] at hok ⊢
      have hone : (p.syncAt X env u i).2 = false := by
        by_contra htrue
        rw [Bool.not_eq_false] at htrue
        simp [htrue] at hok
      rw [hone] at hok
      have hex' : i.exclude = false := by simpa using hex
      rw [ih hok, Process.live_syncAt_of_ok hr hone]
      cases Inbound.lastAt rest tag with
      | some j => rfl
      | none =>
        by_cases htag : i.tag = tag
        · simp [htag, hex', he]
        · simp [htag, Ne.symm htag]

namespace Live

variable {L : Live} {u : User} {us : List User} {T tag e : String}

/-- The account a sync that reports no error leaves under the user's email
at a tag, if an inbound of the tag takes users. -/
def settled (X : Externals) (L : Live) (u : User) (tag : String) : Option (Option Account) :=
  (Inbound.lastAt (L.shape.getD []) tag).map fun i => (i.accountOf X u).map i.accountForAPI

theorem settled_congr {L' : Live} (h : L'.shape = L.shape) : L'.settled X = L.settled X := by
  funext u tag
  rw [settled, settled, h]

theorem settled_eq_none_iff (u v : User) (tag : String) :
    L.settled X u tag = none ↔ L.settled X v tag = none := by
  simp only [settled, Option.map_eq_none_iff]

/-- **What a sync that reports no error leaves.** -/
theorem on_syncUser_of_ok (hr : env.RemovesLand) (hok : (L.syncUser X env T u).2 = [])
    (tag e : String) :
    (L.syncUser X env T u).1.on tag e =
      if X.table.key e = X.table.key u.email then
        ((L.settled X u tag).map fun a => u.leaves a e).getD (L.on tag e)
      else L.on tag e := by
  split_ifs with he
  · cases hcore : L.core with
    | none => simp [Live.syncUser, on, settled, shape, hcore, Inbound.lastAt]
    | some x =>
      have hok' : (Xray.syncInbounds X env u x.config.inboundConfigs x.process).2.2 = [] := by
        simpa [Live.syncUser, hcore, Xray.syncUser] using hok
      have hon : (L.syncUser X env T u).1.on tag e =
          (Xray.syncInbounds X env u x.config.inboundConfigs x.process).2.1.live tag e := by
        simp [Live.syncUser, on, hcore, Xray.syncUser]
      have hlast : L.settled X u tag =
          (Inbound.lastAt x.config.inboundConfigs tag).map
            fun i => (i.accountOf X u).map i.accountForAPI := by
        rw [settled, shape, hcore, Option.map_some, Option.getD_some, Config.shape,
          Inbound.lastAt_bare, Option.map_map]
        rfl
      rw [hon, Xray.live_syncInbounds_of_ok hr u hok' tag he, hlast, Option.map_map]
      simp [on, hcore, Function.comp_def]
  · exact (touches_syncUser (E := fun e => X.table.key e = X.table.key u.email) L T
      fun _ h => h).others e he tag

/-! ## A list of syncs -/

/-- Every sync of a list reports no error. -/
def SyncsOk (X : Externals) (env : Env) (T : String) : List User → Live → Prop
  | [], _ => True
  | u :: us, L =>
    (L.syncUser X env T u).2 = [] ∧ SyncsOk X env T us (L.syncUser X env T u).1

theorem SyncsOk.at (h : SyncsOk X env T us L) {pre : List User} {v : User}
    (hpre : pre ++ [v] <+: us) : ((L.syncs X env T pre).syncUser X env T v).2 = [] := by
  induction us generalizing L pre with
  | nil => simp at hpre
  | cons u us ih =>
    cases pre with
    | nil =>
      obtain rfl : v = u := by simpa using hpre
      exact h.1
    | cons w pre =>
      obtain ⟨rfl, hpre'⟩ := List.cons_prefix_cons.1 hpre
      exact ih h.2 hpre'

/-- **For an email the last sync of its form decides.** -/
theorem on_syncs_of_ok (hr : env.RemovesLand) (hok : SyncsOk X env T us L) (tag e : String) :
    (L.syncs X env T us).on tag e =
      ((latest (fun u => X.table.key e = X.table.key u.email) us).bind fun u =>
        (L.settled X u tag).map fun a => u.leaves a e).getD (L.on tag e) := by
  refine on_syncs_of_step (fun u v => settled_eq_none_iff u v tag) fun pre v hpre => ?_
  rw [on_syncUser_of_ok hr (hok.at hpre), settled_congr (shape_syncs X env L T pre)]

/-! ## Removals -/

theorem lastAt_eq_none_iff (L : Live) (tag : String) :
    Inbound.lastAt (L.shape.getD []) tag = none ↔ tag ∉ L.tags := by
  have htags : L.tags = ((L.shape.getD []).filter fun i => !i.exclude).map Inbound.tag := by
    unfold tags shape
    cases L.core with
    | none => rfl
    | some x => exact Config.tags_eq_shape x.config
  rw [htags, Inbound.lastAt, List.getLast?_eq_none_iff, List.filter_eq_nil_iff, List.mem_map]
  simp only [List.mem_filter, Bool.and_eq_true, decide_eq_true_eq, not_exists, not_and,
    Bool.not_eq_true', Bool.not_eq_false]
  constructor
  · rintro h i ⟨hi, hex⟩ rfl
    rw [h i hi rfl] at hex
    cases hex
  · intro h i hi htag
    by_contra hex
    exact h i ⟨hi, by simpa using hex⟩ htag

/-- **What removals can do**, whatever comes of them: take accounts away,
at the tags of inbounds that take users, and not if they are refused. -/
structure Thinned (env : Env) (L L' : Live) : Prop where
  shape : L'.shape = L.shape
  tags : L'.tags = L.tags
  less : ∀ tag e, L'.on tag e ≠ none → L.on tag e ≠ none
  untaken : ∀ tag e, tag ∉ L.tags → L'.on tag e = L.on tag e
  refused : env.RemovesRefused → ∀ tag e, L'.on tag e = L.on tag e

theorem Thinned.refl (env : Env) (L : Live) : Thinned env L L :=
  ⟨rfl, rfl, fun _ _ h => h, fun _ _ _ => rfl, fun _ _ _ => rfl⟩

theorem Thinned.trans {L' L'' : Live} (h : Thinned env L L') (h' : Thinned env L' L'') :
    Thinned env L L'' where
  shape := h'.shape.trans h.shape
  tags := h'.tags.trans h.tags
  less := fun tag e hon => h.less tag e (h'.less tag e hon)
  untaken := fun tag e htag =>
    (h'.untaken tag e (by rwa [h.tags])).trans (h.untaken tag e htag)
  refused := fun hr tag e => (h'.refused hr tag e).trans (h.refused hr tag e)

end Live

variable (X env) in
theorem Xray.removeAt_fold_thins (email : String) (tags : List String) (x : Xray) (t e : String) :
    ((tags.foldl (Xray.removeAt X env email) x).process.live t e ≠ none →
        x.process.live t e ≠ none) ∧
      (t ∉ tags ∨ env.RemovesRefused →
        (tags.foldl (Xray.removeAt X env email) x).process.live t e = x.process.live t e) := by
  induction tags generalizing x with
  | nil => exact ⟨id, fun _ => rfl⟩
  | cons tag tags ih =>
    obtain ⟨h₁, h₂⟩ := ih (x.removeAt X env email tag)
    refine ⟨fun h => Process.live_of_live_removeInboundUser (h₁ h), fun h => ?_⟩
    rcases h with ht | hr
    · rw [List.mem_cons, not_or] at ht
      exact (h₂ (Or.inl ht.2)).trans (Process.live_removeInboundUser_ne_tag ht.1)
    · refine (h₂ (Or.inr hr)).trans ?_
      simp [Xray.removeAt, Process.removeInboundUser, hr x.process.calls]

namespace Live

variable {L : Live} {T : String}

theorem thinned_removeFromCore (L : Live) (u : User) :
    Thinned env L (L.removeFromCore X env u) := by
  cases hcore : L.core with
  | none =>
    have hsame : L.removeFromCore X env u = L := by simp [Live.removeFromCore, hcore]
    rw [hsame]
    exact .refl env L
  | some x =>
    obtain ⟨tags, htags, heq⟩ := Xray.updateUsers_removal X env (withInbounds u []) rfl x
    have hon : ∀ tag e, (L.removeFromCore X env u).on tag e =
        (tags.foldl (Xray.removeAt X env u.email) x).process.live tag e := fun tag e => by
      rw [Live.removeFromCore, hcore]
      exact congrArg (fun y => y.process.live tag e) heq
    have hbefore : ∀ tag e, L.on tag e = x.process.live tag e := fun tag e => by
      simp [on, hcore]
    have hLtags : L.tags = x.config.tags := by simp [Live.tags, hcore]
    have hthins := Xray.removeAt_fold_thins X env u.email tags x
    refine ⟨(touches_removeFromCore (E := fun _ => True) L fun _ _ => trivial).running,
      (removeFromCore_frame X env L u).1, fun tag e h => ?_, fun tag e h => ?_, fun hr tag e => ?_⟩
    · rw [hon] at h
      rw [hbefore]
      exact (hthins tag e).1 h
    · rw [hon, hbefore]
      refine (hthins tag e).2 (Or.inl fun hmem => h ?_)
      rw [hLtags]
      exact (htags tag).1 hmem
    · rw [hon, hbefore]
      exact (hthins tag e).2 (Or.inr hr)

variable (X env) in
theorem thinned_removeAll (L : Live) (l : List (String × User)) :
    Thinned env L (L.removeAll X env l) :=
  List.foldlRecOn l _ (Thinned.refl env L) fun L' h p _ =>
    h.trans (thinned_removeFromCore L' p.2)

end Live

/-! ## Whoever is on, stays on; whoever is off, stays off -/

namespace Process

variable {p : Process} {u : User} {i : Inbound}

theorem live_syncAt_of_refused (ha : env.AddsOk) (hr : env.RemovesRefused) (t : String)
    {e : String} (he : X.table.key e = X.table.key u.email → e = u.email) :
    (p.live t e ≠ none → (p.syncAt X env u i).1.live t e ≠ none) ∧
      (i.accountOf X u ≠ none → (p.syncAt X env u i).1.live i.tag u.email ≠ none) := by
  have hserved : i.accountOf X u ≠ none → (p.syncAt X env u i).1.live i.tag u.email ≠ none := by
    intro hacc
    obtain ⟨a, ha'⟩ := Option.ne_none_iff_exists'.1 hacc
    rw [syncAt_live_of_ok (syncAt_ok ha u i p) ha']
    exact Option.some_ne_none _
  refine ⟨fun h => ?_, hserved⟩
  by_cases hself : e = u.email
  · by_cases ht : t = i.tag ∧ i.accountOf X u ≠ none
    · rw [ht.1, hself]
      exact hserved ht.2
    · -- no add is made at the tag
      rcases not_and_or.1 ht with ht | hacc
      · rwa [syncAt_live_ne ht]
      · simpa [syncAt, not_not.1 hacc, removeInboundUser, hr p.calls] using h
  · have hkey : X.table.key e ≠ X.table.key u.email := fun hk => hself (he hk)
    rwa [((syncAt_frame X env u i p).2.1 t e hself).eq_of_key_ne hkey]

end Process

theorem Xray.live_syncInbounds_of_refused (ha : env.AddsOk) (hr : env.RemovesRefused) (u : User)
    (l : List Inbound) (p : Process) :
    (∀ t e, (X.table.key e = X.table.key u.email → e = u.email) → p.live t e ≠ none →
      (Xray.syncInbounds X env u l p).2.1.live t e ≠ none) ∧
      ∀ i ∈ l, i.exclude = false → i.accountOf X u ≠ none →
        (Xray.syncInbounds X env u l p).2.1.live i.tag u.email ≠ none := by
  induction l generalizing p with
  | nil => exact ⟨fun _ _ _ h => h, fun i hi => absurd hi (List.not_mem_nil)⟩
  | cons j rest ih =>
    rw [Xray.syncInbounds_cons]
    by_cases hex : j.exclude = true
    · obtain ⟨h₁, h₂⟩ := ih p
      simp only [hex, if_true]
      refine ⟨h₁, fun i hi hin => ?_⟩
      rcases List.mem_cons.1 hi with rfl | hi
      · rw [hex] at hin
        cases hin
      · exact h₂ i hi hin
    · obtain ⟨h₁, h₂⟩ := ih (p.syncAt X env u j).1
      have hone := Process.live_syncAt_of_refused (X := X) (p := p) (u := u) (i := j) ha hr
      simp only [if_neg hex]
      refine ⟨fun t e he h => h₁ t e he ((hone t he).1 h), fun i hi hin hacc => ?_⟩
      rcases List.mem_cons.1 hi with rfl | hi
      · exact h₁ _ _ (fun _ => rfl) ((hone i.tag (e := u.email) fun _ => rfl).2 hacc)
      · exact h₂ i hi hin hacc

theorem Xray.live_syncInbounds_of_unserved {u : User}
    (hno : ∀ i ∈ l, i.exclude = false → i.accountOf X u = none) {p : Process} {t : String}
    (hoff : p.live t u.email = none) :
    (Xray.syncInbounds X env u l p).2.1.live t u.email = none := by
  induction l generalizing p with
  | nil => exact hoff
  | cons j rest ih =>
    rw [Xray.syncInbounds_cons]
    have hrest : ∀ i ∈ rest, i.exclude = false → i.accountOf X u = none :=
      fun i hi => hno i (List.mem_cons_of_mem _ hi)
    by_cases hex : j.exclude = true
    · simp only [hex, if_true]
      exact ih hrest hoff
    · simp only [if_neg hex]
      refine ih hrest ?_
      have hacc := hno j (List.mem_cons_self ..) (by simpa using hex)
      rw [Process.syncAt, hacc]
      by_contra hon
      exact Process.live_of_live_removeInboundUser hon hoff

namespace Live

variable {L : Live} {u : User} {us : List User} {T : String}

theorem forall_shape_iff {x : Xray} (hx : L.core = some x) {P : Inbound → Prop}
    (hP : ∀ i : Inbound, P i.bare ↔ P i) :
    (∀ i ∈ L.shape.getD [], P i) ↔ ∀ i ∈ x.config.inboundConfigs, P i := by
  rw [shape, hx, Option.map_some, Option.getD_some, Config.shape, List.forall_mem_map]
  exact forall₂_congr fun i _ => hP i

/-- **Whoever is off, and whom no inbound serves, stays off.** -/
theorem off_syncUser (hno : ∀ i ∈ L.shape.getD [], i.exclude = false → i.accountOf X u = none)
    {e : String} (he : u.email = e) (hoff : ∀ tag, L.on tag e = none) (tag : String) :
    (L.syncUser X env T u).1.on tag e = none := by
  subst he
  cases hcore : L.core with
  | none => simp [Live.syncUser, on, hcore]
  | some x =>
    have hno' := (forall_shape_iff hcore fun i => Iff.rfl).1 hno
    have hbefore : x.process.live tag u.email = none := by simpa [on, hcore] using hoff tag
    have hon : (L.syncUser X env T u).1.on tag u.email =
        (Xray.syncInbounds X env u x.config.inboundConfigs x.process).2.1.live tag u.email := by
      simp [Live.syncUser, on, hcore, Xray.syncUser]
    rw [hon]
    exact Xray.live_syncInbounds_of_unserved hno' hbefore

theorem off_syncs {e : String}
    (hno : ∀ u ∈ us, u.email = e → ∀ i ∈ L.shape.getD [], i.exclude = false →
      i.accountOf X u = none)
    (hoff : ∀ tag, L.on tag e = none) (tag : String) : (L.syncs X env T us).on tag e = none := by
  refine (syncs_rule (I := fun L' => L'.shape = L.shape ∧ ∀ tag, L'.on tag e = none)
    (fun u hu L' hL' => ⟨(shape_syncUser L' T u).trans hL'.1, fun tag => ?_⟩) ⟨rfl, hoff⟩).2 tag
  by_cases he : u.email = e
  · refine off_syncUser ?_ he hL'.2 tag
    rw [hL'.1]
    exact hno u hu he
  · exact (spares_syncUser L' T u tag fun h => he h.symm).eq_none (hL'.2 tag)

/-- **Whoever is on, or is served once, stays on**, where removals are
refused and adds go through, and Xray tells it from the user. -/
theorem on_syncUser_of_refused (ha : env.AddsOk) (hr : env.RemovesRefused) (L : Live) (T : String)
    (u : User) :
    (∀ tag e, (X.table.key e = X.table.key u.email → e = u.email) → L.on tag e ≠ none →
      (L.syncUser X env T u).1.on tag e ≠ none) ∧
      ∀ i ∈ L.shape.getD [], i.exclude = false → i.accountOf X u ≠ none →
        (L.syncUser X env T u).1.on i.tag u.email ≠ none := by
  cases hcore : L.core with
  | none => simp [on, shape, hcore]
  | some x =>
    obtain ⟨h₁, h₂⟩ := Xray.live_syncInbounds_of_refused (X := X) ha hr u
      x.config.inboundConfigs x.process
    have hon : ∀ tag e, (L.syncUser X env T u).1.on tag e =
        (Xray.syncInbounds X env u x.config.inboundConfigs x.process).2.1.live tag e :=
      fun tag e => by simp [Live.syncUser, on, hcore, Xray.syncUser]
    refine ⟨fun tag e he h => ?_, ?_⟩
    · rw [hon]
      exact h₁ tag e he (by simpa [on, hcore] using h)
    · refine (forall_shape_iff hcore (P := fun i => i.exclude = false →
        i.accountOf X u ≠ none → (L.syncUser X env T u).1.on i.tag u.email ≠ none)
        fun i => Iff.rfl).2 fun i hi hin hacc => ?_
      rw [hon]
      exact h₂ i hi hin hacc

theorem on_syncs_of_refused (ha : env.AddsOk) (hr : env.RemovesRefused) (T : String) {e : String}
    (he : ∀ u ∈ us, X.table.key e = X.table.key u.email → e = u.email) (L : Live) :
    (∀ tag, L.on tag e ≠ none → (L.syncs X env T us).on tag e ≠ none) ∧
      ∀ u ∈ us, u.email = e → ∀ i ∈ L.shape.getD [], i.exclude = false → i.accountOf X u ≠ none →
        (L.syncs X env T us).on i.tag e ≠ none := by
  induction us generalizing L with
  | nil => exact ⟨fun _ h => h, fun u hu => absurd hu (List.not_mem_nil)⟩
  | cons v us ih =>
    obtain ⟨h₁, h₂⟩ := ih (fun u hu => he u (List.mem_cons_of_mem _ hu)) (L.syncUser X env T v).1
    obtain ⟨g₁, g₂⟩ := on_syncUser_of_refused (X := X) ha hr L T v
    rw [shape_syncUser] at h₂
    refine ⟨fun tag h => h₁ tag (g₁ tag e (he v (List.mem_cons_self ..)) h),
      fun u hu hue i hi hin hacc => ?_⟩
    rcases List.mem_cons.1 hu with rfl | hu
    · exact h₁ _ (hue ▸ g₂ i hi hin hacc)
    · exact h₂ u hu hue i hi hin hacc

end Live

end NodeAgent
