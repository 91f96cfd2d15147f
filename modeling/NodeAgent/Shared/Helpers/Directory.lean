import NodeAgent.Shared.Coherence
import NodeAgent.Xray.Helpers.Exact
/-!
# The directory of a node

Who should be live: the users in the recorded sets of the active tenants,
each under its email. Where the indexes agree an email has at most one such
user, so this is a directory, and the loops of the manager over users can
be followed by what they do to it. A loop is described by the directory it
arrives at: it enters the users it syncs, strikes out those it removes, and
leaves the rest of the entries alone.
-/

namespace NodeAgent

variable {X : Externals} {env : Env} {D E : String → Option User} {K : Set String}

/-! ## The live side -/

/-- The core, where there is one, serves a directory. -/
def Live.Exact (X : Externals) (K : Set String) (D : String → Option User) (L : Live) : Prop :=
  ∀ x, L.core = some x → x.Exact X K D

namespace Live.Exact

variable {L : Live}

theorem syncUser (h : L.Exact X K D) (ha : env.AddsOk) (hr : env.RemovesOk) (T : String) (u : User)
    (hK : u.email ∈ K) :
    (L.syncUser X env T u).1.Exact X K (Function.update D u.email (some u)) := by
  intro y hy
  cases hcore : L.core with
  | none => simp [Live.syncUser, hcore] at hy
  | some x =>
    simp only [Live.syncUser, hcore, Option.some.injEq] at hy
    rw [← hy]
    exact (h x hcore).syncUser ha hr u hK

theorem removeFromCore (h : L.Exact X K D) (hr : env.RemovesOk) (u : User)
    (hK : u.email ∈ K) :
    (L.removeFromCore X env u).Exact X K (Function.update D u.email none) := by
  intro y hy
  cases hcore : L.core with
  | none => simp [Live.removeFromCore, hcore] at hy
  | some x =>
    simp only [Live.removeFromCore, hcore, Option.some.injEq] at hy
    rw [← hy]
    exact (h x hcore).removal (u := withInbounds u []) hr rfl hK

/-- **A list of syncs.** -/
theorem syncs {us : List User} (h : L.Exact X K D) (ha : env.AddsOk) (hr : env.RemovesOk)
    (T : String) (hK : ∀ u ∈ us, u.email ∈ K) (hin : ∀ u ∈ us, E u.email = some u)
    (hout : ∀ e, (∀ u ∈ us, u.email ≠ e) → E e = D e) : (L.syncs X env T us).Exact X K E := by
  induction us generalizing L D with
  | nil =>
    obtain rfl : E = D := funext fun e => hout e fun _ h => absurd h (List.not_mem_nil)
    exact h
  | cons u us ih =>
    refine ih (h.syncUser ha hr T u (hK u (List.mem_cons_self ..)))
      (fun v hv => hK v (List.mem_cons_of_mem _ hv))
      (fun v hv => hin v (List.mem_cons_of_mem _ hv)) fun e he => ?_
    rw [Function.update_apply]
    split_ifs with heq
    · rw [heq, hin u (List.mem_cons_self ..)]
    · refine hout e fun v hv => ?_
      rcases List.mem_cons.1 hv with rfl | hv
      · exact fun h => heq h.symm
      · exact he v hv

/-- **A list of removals.** -/
theorem removeAll {l : List (String × User)} (h : L.Exact X K D) (hr : env.RemovesOk)
    (hK : ∀ p ∈ l, p.2.email ∈ K) (hin : ∀ p ∈ l, E p.2.email = none)
    (hout : ∀ e, (∀ p ∈ l, p.2.email ≠ e) → E e = D e) : (L.removeAll X env l).Exact X K E := by
  induction l generalizing L D with
  | nil =>
    obtain rfl : E = D := funext fun e => hout e fun _ h => absurd h (List.not_mem_nil)
    exact h
  | cons p l ih =>
    refine ih (h.removeFromCore hr p.2 (hK p (List.mem_cons_self ..)))
      (fun q hq => hK q (List.mem_cons_of_mem _ hq))
      (fun q hq => hin q (List.mem_cons_of_mem _ hq)) fun e he => ?_
    rw [Function.update_apply]
    split_ifs with heq
    · rw [heq, hin p (List.mem_cons_self ..)]
    · refine hout e fun q hq => ?_
      rcases List.mem_cons.1 hq with rfl | hq
      · exact fun h => heq h.symm
      · exact he q hq

end Live.Exact

/-- **The loop of `ApplyConfig`**, where no add fails: the users of the
active tenants it goes through are entered. -/
theorem Manager.addTenantsToCore_exact (ha : env.AddsOk) (hr : env.RemovesOk) (l : List String)
    (m : Manager) (h : m.live.Exact X K D)
    (hK : ∀ T e u, (m.usersOf T).lookup e = some u → u.email ∈ K)
    (hin : ∀ T ∈ l, m.statusOf T = some .active → ∀ e u, (m.usersOf T).lookup e = some u →
      E u.email = some u)
    (hout : ∀ e, (∀ T ∈ l, m.statusOf T = some .active → ∀ e' u,
      (m.usersOf T).lookup e' = some u → u.email ≠ e) → E e = D e) :
    ∃ L err, addTenantsToCore X env l m = ({ m with live := L }, err) ∧ L.Exact X K E := by
  induction l generalizing m D with
  | nil =>
    obtain rfl : E = D := funext fun e => hout e fun _ h => absurd h (List.not_mem_nil)
    exact ⟨m.live, none, rfl, h⟩
  | cons T l ih =>
    have hin' : ∀ T' ∈ l, m.statusOf T' = some .active → ∀ e u,
        (m.usersOf T').lookup e = some u → E u.email = some u :=
      fun T' hT' => hin T' (List.mem_cons_of_mem _ hT')
    rcases addTenantsToCore_cons X env T l m with
      ⟨hno, heq⟩ | ⟨hact, done, rest, hl, hrest, hturn⟩
    · -- a tenant that is not active is passed over
      rw [heq]
      refine ih m h hK hin' fun e he => hout e fun T' hT' hact => ?_
      rcases List.mem_cons.1 hT' with rfl | hT'
      · exact absurd hact hno
      · exact he T' hT' hact
    · obtain rfl := hrest ha
      rw [List.append_nil] at hl
      have hdone : ∀ p, p ∈ done ↔ (m.usersOf T).lookup p.1 = some p.2 := fun p => by
        rw [← hl, GoMap.mem_range]
      -- so far: the target on the emails of this tenant, and the old directory off them
      have hL : (m.live.syncs X env T (done.map Prod.snd)).Exact X K fun e =>
          if e ∈ done.map (fun p => p.2.email) then E e else D e := by
        refine h.syncs ha hr T (fun u hu => ?_) (fun u hu => ?_) fun e he =>
          if_neg fun hmem => ?_
        · obtain ⟨p, hp, rfl⟩ := List.mem_map.1 hu
          exact hK T p.1 p.2 ((hdone p).1 hp)
        · obtain ⟨p, hp, rfl⟩ := List.mem_map.1 hu
          rw [if_pos (List.mem_map.2 ⟨p, hp, rfl⟩)]
          exact hin T (List.mem_cons_self ..) hact p.1 p.2 ((hdone p).1 hp)
        · obtain ⟨p, hp, rfl⟩ := List.mem_map.1 hmem
          exact he p.2 (List.mem_map_of_mem hp) rfl
      rcases hturn with heq | ⟨-, hfail⟩
      · rw [heq]
        refine ih { m with live := m.live.syncs X env T (done.map Prod.snd) } hL hK hin'
          fun e he => ?_
        split_ifs with hmem
        · rfl
        · refine hout e fun T' hT' hact' e' u hu hue => ?_
          rcases List.mem_cons.1 hT' with rfl | hT'
          · exact hmem (List.mem_map.2 ⟨(e', u), (hdone (e', u)).2 hu, hue⟩)
          · exact he T' hT' hact' e' u hu hue
      · exact absurd ha hfail

/-! ## Directories -/

namespace Manager

/-- **Who should be live**: the users of the active tenants. -/
def directory (m : Manager) (e : String) : Option User :=
  (m.emailTo.lookup e).bind fun T =>
    if m.statusOf T = some .active then (m.usersOf T).lookup e else none

/-- **Two states that differ at one tenant only**, in its status and its
set. -/
structure SameBut (T : String) (m m' : Manager) : Prop where
  status : ∀ T', T' ≠ T → m'.statusOf T' = m.statusOf T'
  usersOf : ∀ T', T' ≠ T → m'.usersOf T' = m.usersOf T'

theorem directory_congr {m m' : Manager} (hs : SameIndexes m m')
    (hst : ∀ T, m'.statusOf T = m.statusOf T) : m'.directory = m.directory := by
  funext e
  unfold directory
  simp only [hs.emailTo, hst, hs.usersOf]

end Manager

namespace Coherent

variable {m m' : Manager} {T e : String} {u : User}

theorem email_eq (h : Coherent m) (T : String) :
    ∀ x u, (m.usersOf T).lookup x = some u → u.email = x :=
  fun x u hu => (h.keyed T x u hu).1

theorem directory_of_mem (h : Coherent m) (he : e ∈ (m.usersOf T).keys) :
    m.directory e = if m.statusOf T = some .active then (m.usersOf T).lookup e else none := by
  have hto : m.emailTo.lookup e = some T := (h.indexed e T).2 ⟨h.registered T e he, he⟩
  rw [Manager.directory, hto, Option.bind_some]

theorem directory_of_notMem (h : Coherent m) (he : ∀ T, e ∉ (m.usersOf T).keys) :
    m.directory e = none := by
  cases hto : m.emailTo.lookup e with
  | none => rw [Manager.directory, hto, Option.bind_none]
  | some T => exact absurd ((h.indexed e T).1 hto).2 (he T)

/-- **The directory lists exactly the users of active tenants.** -/
theorem directory_eq_some_iff (h : Coherent m) :
    m.directory e = some u ↔
      ∃ T, m.statusOf T = some .active ∧ (m.usersOf T).lookup e = some u := by
  constructor
  · intro hd
    obtain ⟨T, -, hT⟩ := Option.bind_eq_some_iff.1 hd
    split_ifs at hT with hact
    exact ⟨T, hact, hT⟩
  · rintro ⟨T, hact, hu⟩
    rw [h.directory_of_mem (GoMap.mem_keys_iff.2 ⟨u, hu⟩), if_pos hact, hu]

theorem tenant_unique (h : Coherent m) {T' : String} (he : e ∈ (m.usersOf T).keys)
    (he' : e ∈ (m.usersOf T').keys) : T = T' :=
  h.eq_of_mem (h.registered T e he) (h.hasPrefix_of_mem he) he'

theorem directory_of_inactive (h : Coherent m) (hT : T ∈ m.tenants)
    (he : GoStrings.hasPrefix e (tenantPrefix T) = true) (hno : m.statusOf T ≠ some .active) :
    m.directory e = none := by
  by_cases hin : e ∈ (m.usersOf T).keys
  · rw [h.directory_of_mem hin, if_neg hno]
  · refine h.directory_of_notMem fun T' hT' => ?_
    obtain rfl := h.eq_of_mem hT he hT'
    exact hin hT'

/-- **A change to one tenant is a change to its emails.** -/
theorem directory_off (h : Coherent m) (h' : Coherent m') (hb : Manager.SameBut T m m')
    (he : e ∉ (m.usersOf T).keys) (he' : e ∉ (m'.usersOf T).keys) :
    m'.directory e = m.directory e := by
  refine Option.ext fun u => ?_
  refine h'.directory_eq_some_iff.trans (Iff.trans (exists_congr fun T' => ?_)
    h.directory_eq_some_iff.symm)
  by_cases hT : T' = T
  · subst hT
    have h₁ : (m.usersOf T').lookup e = none := GoMap.notMem_keys_iff.1 he
    have h₂ : (m'.usersOf T').lookup e = none := GoMap.notMem_keys_iff.1 he'
    simp [h₁, h₂]
  · rw [hb.status T' hT, hb.usersOf T' hT]

theorem directory_dropped (h : Coherent m) (h' : Coherent m') (hb : Manager.SameBut T m m')
    (he : e ∈ (m.usersOf T).keys) (he' : e ∉ (m'.usersOf T).keys) : m'.directory e = none := by
  refine h'.directory_of_notMem fun T' hT' => ?_
  by_cases hT : T' = T
  · rw [hT] at hT'
    exact he' hT'
  · rw [hb.usersOf T' hT] at hT'
    exact hT (h.tenant_unique hT' he)

end Coherent

end NodeAgent
