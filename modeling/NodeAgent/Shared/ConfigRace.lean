import NodeAgent.Shared.Model.Locks
import NodeAgent.Shared.Reapply
/-!
# A restart against a push

`RestartCore` reads the configuration in one section and applies it in
another. A push that comes in between is lost: the restart puts the old
configuration back. As long as no push with another configuration gets the
lock while a restart is between its sections, the last push stands
(`no_lost_push`).
-/

namespace NodeAgent

open History

variable {X : Externals} {env : Env}

namespace Requests

variable {s : Requests} {i j : ℕ} {c : String} {m : Manager}

theorem lastPush_concat (log : List Entry) (entry : Entry) :
    lastPush (log ++ [entry]) = match entry with
      | .applied i c => some (i, c)
      | _ => lastPush log := by
  rw [lastPush, List.foldl_append]
  rfl

/-! ## One turn -/

variable (X) in
theorem step_cases (s : Requests) (l : Turn) :
    s.step X l = s ∨
    (∃ i r, s.phase i = none ∧ s.step X l = s.move i (.waiting r) (.called i r)) ∨
    (∃ i env c, l = .lock i env ∧ s.phase i = some (.waiting (.applyConfig c)) ∧
      s.step X l =
        { s.move i .finished (.applied i c) with mgr := (s.mgr.applyConfig X env c).1 }) ∨
    (∃ i c p, s.phase i = some (.waiting .restartCore) ∧ (p = .finished ∨ p = .read s.mgr.config) ∧
      s.step X l = s.move i p (.hasRead i c)) ∨
    (∃ i env c, l = .lock i env ∧ s.phase i = some (.read c) ∧ s.step X l =
      { s.move i .finished (.reapplied i c) with mgr := (s.mgr.applyConfig X env c).1 }) ∨
    ∃ i, s.phase i = some .finished ∧ s.step X l = s.move i .returned (.returned i) := by
  cases l with
  | call i r =>
    cases hi : s.phase i with
    | none => exact Or.inr (Or.inl ⟨i, r, hi, by simp [step, hi]⟩)
    | some p => exact Or.inl (by simp [step, hi])
  | lock i env =>
    rcases hi : s.phase i with _ | ((_ | _) | c | _ | _)
    · exact Or.inl (by simp [step, hi])
    · rename_i c
      exact Or.inr (Or.inr (Or.inl ⟨i, env, c, rfl, hi, by simp [step, hi]⟩))
    · refine Or.inr (Or.inr (Or.inr (Or.inl ?_)))
      by_cases hc : s.mgr.config = ""
      · exact ⟨i, "", .finished, hi, Or.inl rfl, by simp [step, hi, hc]⟩
      · exact ⟨i, s.mgr.config, .read s.mgr.config, hi, Or.inr rfl, by simp [step, hi, hc]⟩
    · exact Or.inr (Or.inr (Or.inr (Or.inr (Or.inl ⟨i, env, c, rfl, hi, by simp [step, hi]⟩))))
    · exact Or.inl (by simp [step, hi])
    · exact Or.inl (by simp [step, hi])
  | ret i =>
    rcases hi : s.phase i with _ | (_ | _ | _ | _)
    · exact Or.inl (by simp [step, hi])
    · exact Or.inl (by simp [step, hi])
    · exact Or.inl (by simp [step, hi])
    · exact Or.inr (Or.inr (Or.inr (Or.inr (Or.inr ⟨i, hi, by simp [step, hi]⟩))))
    · exact Or.inl (by simp [step, hi])

theorem phase_move (s : Requests) (i j : ℕ) (p : Phase) (entry : Entry) :
    (s.move i p entry).phase j = if j = i then some p else s.phase j :=
  Function.update_apply ..

/-! ## The order of the requests -/

/-- **What the history says of the phases**, and that a push made after
the return of the last one applied still waits. -/
structure Ordered (s : Requests) : Prop where
  waiting : ∀ i r, s.phase i = some (.waiting r) → .called i r ∈ s.log
  returned : ∀ i, .returned i ∈ s.log → s.phase i = some .returned
  last : ∀ i c, lastPush s.log = some (i, c) → .called i (.applyConfig c) ∈ s.log
  some_last : ∀ j c, .called j (.applyConfig c) ∈ s.log →
    s.phase j = some (.waiting (.applyConfig c)) ∨ lastPush s.log ≠ none
  later : ∀ i c, lastPush s.log = some (i, c) → ∀ j c',
    Before (.returned i) (.called j (.applyConfig c')) s.log →
      s.phase j = some (.waiting (.applyConfig c'))

theorem ordered_start (m : Manager) : (start m).Ordered where
  waiting := fun _ _ h => by cases h
  returned := fun _ h => by cases h
  last := fun _ _ h => by cases h
  some_last := fun _ _ h => by cases h
  later := fun _ _ h => by cases h

theorem Ordered.move (h : s.Ordered) {p : Phase} {entry : Entry}
    (hpush : lastPush (s.log ++ [entry]) = lastPush s.log)
    (hwas : ∀ c, s.phase i ≠ some (.waiting (.applyConfig c)))
    (hreturned : s.phase i ≠ some .returned)
    (hcalled : ∀ j r, entry = .called j r → j = i ∧ p = .waiting r)
    (hwaits : ∀ r, p = .waiting r → entry = .called i r)
    (hreturns : ∀ j, entry = .returned j → j = i ∧ p = .returned) :
    (s.move i p entry).Ordered := by
  have hlog : (s.move i p entry).log = s.log ++ [entry] := rfl
  refine ⟨fun j r hj => ?_, fun j hj => ?_, fun j c hj => ?_, fun j c hj => ?_,
    fun k c hk j c' hbefore => ?_⟩
  · rw [hlog, List.mem_append, List.mem_singleton]
    rw [phase_move] at hj
    split_ifs at hj with hji
    · rw [hji]
      exact Or.inr (hwaits r (Option.some.inj hj)).symm
    · exact Or.inl (h.waiting j r hj)
  · rw [hlog, List.mem_append, List.mem_singleton] at hj
    rw [phase_move]
    rcases hj with hj | hj
    · have hji : j ≠ i := fun hji => hreturned (hji ▸ h.returned j hj)
      rw [if_neg hji]
      exact h.returned j hj
    · obtain ⟨hji, hp⟩ := hreturns j hj.symm
      rw [if_pos hji, hp]
  · rw [hlog, hpush] at hj
    rw [hlog, List.mem_append]
    exact Or.inl (h.last j c hj)
  · rw [hlog, hpush]
    rw [hlog, List.mem_append, List.mem_singleton] at hj
    rw [phase_move]
    rcases hj with hj | hj
    · refine (h.some_last j c hj).imp_left fun hj => ?_
      have hji : j ≠ i := fun hji => hwas c (hji ▸ hj)
      rw [if_neg hji, hj]
    · obtain ⟨hji, hp⟩ := hcalled j _ hj.symm
      rw [if_pos hji, hp]
      exact Or.inl rfl
  · rw [hlog, hpush] at hk
    rw [hlog, before_concat] at hbefore
    rw [phase_move]
    rcases hbefore with hbefore | ⟨-, hentry⟩
    · have hj := h.later k c hk j c' hbefore
      have hji : j ≠ i := fun hji => hwas c' (hji ▸ hj)
      rw [if_neg hji, hj]
    · obtain ⟨hji, hp⟩ := hcalled j _ hentry.symm
      rw [if_pos hji, hp]

theorem Ordered.apply (h : s.Ordered) (hi : s.phase i = some (.waiting (.applyConfig c))) :
    (s.move i .finished (.applied i c)).Ordered := by
  have hlog : (s.move i .finished (.applied i c)).log = s.log ++ [.applied i c] := rfl
  have hpush : lastPush (s.log ++ [.applied i c]) = some (i, c) := lastPush_concat ..
  refine ⟨fun j r hj => ?_, fun j hj => ?_, fun j d hj => ?_, fun j d hj => ?_,
    fun k d hk j c' hbefore => ?_⟩
  · rw [hlog, List.mem_append]
    rw [phase_move] at hj
    split_ifs at hj with hji
    · cases hj
    · exact Or.inl (h.waiting j r hj)
  · rw [hlog, List.mem_append, List.mem_singleton] at hj
    rcases hj with hj | hj
    · have hj' := h.returned j hj
      have hji : j ≠ i := fun hji => by rw [hji, hi] at hj'; cases hj'
      rw [phase_move, if_neg hji, hj']
    · cases hj
  · rw [hlog, hpush] at hj
    cases hj
    rw [hlog, List.mem_append]
    exact Or.inl (h.waiting _ _ hi)
  · rw [hlog, hpush]
    exact Or.inr (by simp)
  · rw [hlog, hpush] at hk
    cases hk
    rw [hlog, before_concat] at hbefore
    rcases hbefore with hbefore | ⟨-, hentry⟩
    · have hret := h.returned i (hbefore.subset (by simp))
      rw [hi] at hret
      cases hret
    · cases hentry

theorem Ordered.withMgr (h : s.Ordered) (m : Manager) : Ordered { s with mgr := m } :=
  ⟨h.waiting, h.returned, h.last, h.some_last, h.later⟩

/-- **Every turn keeps the order.** -/
theorem Ordered.step (h : s.Ordered) (l : Turn) : (s.step X l).Ordered := by
  rcases step_cases X s l with heq | ⟨i, r, hi, heq⟩ | ⟨i, env, c, -, hi, heq⟩ |
    ⟨i, c, p, hi, hp, heq⟩ | ⟨i, env, c, -, hi, heq⟩ | ⟨i, hi, heq⟩
  · rw [heq]
    exact h
  · rw [heq]
    exact h.move (lastPush_concat ..) (by simp [hi]) (by simp [hi])
      (by rintro j r' ⟨⟩; exact ⟨rfl, rfl⟩) (by rintro r' ⟨⟩; rfl) (by simp)
  · rw [heq]
    exact (h.apply hi).withMgr _
  · rw [heq]
    refine h.move (lastPush_concat ..) (by simp [hi]) (by simp [hi]) (by simp) ?_ (by simp)
    rintro r rfl
    rcases hp with hp | hp <;> cases hp
  · have hmove : (s.move i .finished (.reapplied i c)).Ordered :=
      h.move (lastPush_concat ..) (by simp [hi]) (by simp [hi]) (by simp) (by simp) (by simp)
    rw [heq]
    exact hmove.withMgr _
  · rw [heq]
    exact h.move (lastPush_concat ..) (by simp [hi]) (by simp [hi]) (by simp) (by simp)
      (by rintro j ⟨⟩; exact ⟨rfl, rfl⟩)

/-! ## The configuration -/

/-- **No push gets between the sections of a restart**: where a push has
the lock, the restarts under way have read what it pushes; and every start
succeeds. -/
structure Undisturbed (X : Externals) (s : Requests) (l : Turn) : Prop where
  starts : ∀ i env c, l = .lock i env →
    s.phase i = some (.waiting (.applyConfig c)) ∨ s.phase i = some (.read c) →
      Manager.freshCore X env c ≠ none
  apart : ∀ i env c, l = .lock i env → s.phase i = some (.waiting (.applyConfig c)) →
    ∀ j c', s.phase j = some (.read c') → c' = c

theorem config_applyConfig (h : Manager.freshCore X env c ≠ none) (m : Manager) :
    (m.applyConfig X env c).1.config = c := by
  obtain ⟨x, hx⟩ := Option.ne_none_iff_exists'.1 h
  obtain ⟨decoded, hdec, hnew⟩ := Option.bind_eq_some_iff.1 hx
  simp only [Manager.applyConfig, Manager.startCoreLocked, hdec, hnew]
  obtain ⟨L, err, heq, -⟩ := Manager.addTenantsToCore_rule X env (fun _ => True)
    ((env.order .tenants).run m.users.keys)
    { m with live := { m.live with core := some x }, config := c }
    (fun _ _ _ _ _ _ _ => trivial) trivial
  exact (congrArg (fun r => r.1.config) heq :)

/-- The configuration of the last push, or the one at the start. -/
def pushed (m : Manager) (log : List Entry) : String :=
  ((lastPush log).map Prod.snd).getD m.config

/-- **The last push stands**, restarts under way have read it, and every
restart so far has applied the one that stood. -/
structure Stands (m : Manager) (s : Requests) : Prop where
  config : s.mgr.config = pushed m s.log
  read : ∀ i c, s.phase i = some (.read c) → c = s.mgr.config
  reapplied : ∀ pre j c post, s.log = pre ++ .reapplied j c :: post → c = pushed m pre

theorem stands_start (m : Manager) : (start m).Stands m where
  config := rfl
  read := fun _ _ h => by cases h
  reapplied := fun pre j c post h => by simp [start] at h

theorem Stands.move (h : s.Stands m) {p : Phase} {entry : Entry}
    (hpush : lastPush (s.log ++ [entry]) = lastPush s.log)
    (hread : ∀ c, p = .read c → c = s.mgr.config)
    (hentry : ∀ j c, entry = .reapplied j c → c = s.mgr.config) :
    (s.move i p entry).Stands m := by
  refine ⟨?_, fun j c hj => ?_, fun pre j c post heq => ?_⟩
  · show s.mgr.config = pushed m (s.log ++ [entry])
    rw [pushed, hpush]
    exact h.config
  · rw [phase_move] at hj
    split_ifs at hj
    · exact hread c (Option.some.inj hj)
    · exact h.read j c hj
  · rcases concat_eq_append_cons heq with ⟨rfl, hnew, -⟩ | ⟨post', -, hlog⟩
    · rw [hentry j c hnew.symm]
      exact h.config
    · exact h.reapplied pre j c post' hlog

/-- **Every undisturbed turn keeps it.** -/
theorem Stands.step (h : s.Stands m) {l : Turn} (hl : Undisturbed X s l) :
    (s.step X l).Stands m := by
  rcases step_cases X s l with heq | ⟨i, r, hi, heq⟩ | ⟨i, env, c, hlock, hi, heq⟩ |
    ⟨i, c, p, hi, hp, heq⟩ | ⟨i, env, c, hlock, hi, heq⟩ | ⟨i, hi, heq⟩
  · rw [heq]
    exact h
  · rw [heq]
    exact h.move (lastPush_concat ..) (by simp) (by simp)
  · -- a push: the restarts under way have read what it pushes
    have hconfig := config_applyConfig (hl.starts i env c hlock (Or.inl hi)) s.mgr
    rw [heq]
    refine ⟨?_, fun j c' hj => ?_, fun pre j c' post hlog => ?_⟩
    · show (s.mgr.applyConfig X env c).1.config = pushed m (s.log ++ [.applied i c])
      rw [hconfig, pushed, lastPush_concat]
      rfl
    · show c' = (s.mgr.applyConfig X env c).1.config
      have hj' : (s.move i .finished (.applied i c)).phase j = some (.read c') := hj
      rw [phase_move] at hj'
      split_ifs at hj'
      · cases hj'
      · rw [hconfig]
        exact hl.apart i env c hlock hi j c' hj'
    · rcases concat_eq_append_cons hlog with ⟨-, hnew, -⟩ | ⟨post', -, hlog⟩
      · cases hnew
      · exact h.reapplied pre j c' post' hlog
  · rw [heq]
    refine h.move (lastPush_concat ..) (fun c' hc' => ?_) (by simp)
    rcases hp with rfl | rfl
    · cases hc'
    · cases hc'
      rfl
  · -- a restart: what it applies is what stands
    have hconfig := config_applyConfig (hl.starts i env c hlock (Or.inr hi)) s.mgr
    have hc : c = s.mgr.config := h.read i c hi
    have hmove : (s.move i .finished (.reapplied i c)).Stands m :=
      h.move (lastPush_concat ..) (by simp) (by rintro j c' ⟨⟩; exact hc)
    rw [heq]
    have hsame : (s.mgr.applyConfig X env c).1.config = s.mgr.config := by rw [hconfig, hc]
    refine ⟨hsame.trans hmove.config, fun j c' hj => ?_, hmove.reapplied⟩
    exact (hmove.read j c' hj).trans hsame.symm
  · rw [heq]
    exact h.move (lastPush_concat ..) (by simp) (by simp)

end Requests

/-- **No push is lost, if none gets between the sections of a restart.**
In every interleaving of `ApplyConfig` and `RestartCore` requests in which
every start succeeds and no push with another configuration gets the lock
while a restart is between its sections: every restart applies the
configuration of the last push before it, and once all requests have
returned, the node runs the configuration of a push that no other push
strictly followed. -/
theorem no_lost_push {m : Manager} {s : Requests}
    (h : Runs.Path (Requests.step X) (Requests.Undisturbed X) (Requests.start m) s) :
    (∀ pre j c post, s.log = pre ++ .reapplied j c :: post → c = Requests.pushed m pre) ∧
      (s.Quiet → (∃ j c, .called j (.applyConfig c) ∈ s.log) →
        ∃ i c, .called i (.applyConfig c) ∈ s.log ∧ s.mgr.config = c ∧
          ∀ j c', ¬ Before (.returned i) (.called j (.applyConfig c')) s.log) := by
  have hstands : s.Stands m :=
    h.invariant (fun _ _ hs hl => hs.step hl) (Requests.stands_start m)
  have hordered : s.Ordered :=
    h.invariant (fun _ l hs _ => hs.step l) (Requests.ordered_start m)
  refine ⟨hstands.reapplied, fun hquiet ⟨j, c, hj⟩ => ?_⟩
  rcases hordered.some_last j c hj with hwaits | hlast
  · cases hquiet j _ hwaits
  · obtain ⟨⟨i, c⟩, hic⟩ := Option.ne_none_iff_exists'.1 hlast
    refine ⟨i, c, hordered.last i c hic, ?_, fun k c' hbefore => ?_⟩
    · rw [hstands.config, Requests.pushed, hic]
      rfl
    · cases hquiet k _ (hordered.later i c hic k c' hbefore)

def Demo.requests (turns : List Requests.Turn) : Requests :=
  turns.foldl (Requests.step Demo.externals) (Requests.start (Manager.new (Demo.registry ["a"]) []))

/-- A restart reads the first configuration; the second is pushed, and the
push has returned; the restart puts the first back, though the second push
strictly followed the first. -/
theorem restart_undoes_push :
    let s := Demo.requests [.call 0 (.applyConfig "c1"), .lock 0 .calm, .ret 0,
      .call 1 .restartCore, .lock 1 .calm, .call 2 (.applyConfig "c2"), .lock 2 .calm, .ret 2,
      .lock 1 .calm, .ret 1]
    s.Quiet ∧ s.mgr.config = "c1" ∧
      (¬ ∃ i c, .called i (.applyConfig c) ∈ s.log ∧ s.mgr.config = c ∧
        ∀ j c', ¬ Before (.returned i) (.called j (.applyConfig c')) s.log) ∧
      ∃ pre post, s.log = pre ++ .reapplied 1 "c1" :: post ∧
        "c1" ≠ Requests.pushed (Manager.new (Demo.registry ["a"]) []) pre := by
  intro s
  have hlog : s.log = [.called 0 (.applyConfig "c1"), .applied 0 "c1", .returned 0,
    .called 1 .restartCore, .hasRead 1 "c1", .called 2 (.applyConfig "c2"), .applied 2 "c2",
    .returned 2, .reapplied 1 "c1", .returned 1] := rfl
  have hconfig : s.mgr.config = "c1" := rfl
  refine ⟨fun i p hi => ?_, hconfig, ?_, ?_⟩
  · rcases i with _ | _ | _ | i
    · exact (Option.some.inj hi).symm
    · exact (Option.some.inj hi).symm
    · exact (Option.some.inj hi).symm
    · cases hi
  · rintro ⟨i, c, hcalled, hc, hlast⟩
    rw [hconfig] at hc
    subst hc
    have hi : i = 0 := by
      rw [hlog] at hcalled
      simpa using hcalled
    subst hi
    refine hlast 2 "c2" ?_
    rw [hlog, Before]
    decide
  · exact ⟨s.log.take 8, [.returned 1], by rw [hlog]; rfl, by rw [hlog]; decide⟩

/-- A push made while a restart is between its sections, and applied after
it, stands. -/
theorem push_after_restart_stands :
    let s := Demo.requests [.call 0 (.applyConfig "c1"), .lock 0 .calm, .ret 0,
      .call 1 .restartCore, .lock 1 .calm, .call 2 (.applyConfig "c2"), .lock 1 .calm,
      .lock 2 .calm, .ret 1, .ret 2]
    ∃ i c, .called i (.applyConfig c) ∈ s.log ∧ s.mgr.config = c ∧
      ∀ j c', ¬ Before (.returned i) (.called j (.applyConfig c')) s.log := by
  intro s
  have hstart : ∀ c, Manager.freshCore Demo.externals .calm c ≠ none := fun c =>
    Option.some_ne_none Demo.core
  have hother : ∀ (s : Requests) (l : Requests.Turn), (∀ i env, l ≠ .lock i env) →
      Requests.Undisturbed Demo.externals s l := fun s l hl =>
    ⟨fun i env _ h => absurd h (hl i env), fun i env _ h => absurd h (hl i env)⟩
  have hlock : ∀ (s : Requests) (i : ℕ),
      (∀ c, s.phase i ≠ some (.waiting (.applyConfig c))) ∨
        (∀ j c, s.phase j ≠ some (.read c)) →
      Requests.Undisturbed Demo.externals s (.lock i .calm) := by
    refine fun s i hs => ⟨?_, ?_⟩
    · rintro _ _ c ⟨⟩ -
      exact hstart c
    · rintro _ _ c ⟨⟩ hi j c' hj
      rcases hs with hs | hs
      · exact absurd hi (hs c)
      · exact absurd hj (hs j c')
  have hpath : Runs.Path (Requests.step Demo.externals) (Requests.Undisturbed Demo.externals)
      (Requests.start (Manager.new (Demo.registry ["a"]) [])) s := by
    refine .snoc (.ret 2) (.snoc (.ret 1) (.snoc (.lock 2 .calm) (.snoc (.lock 1 .calm)
      (.snoc (.call 2 (.applyConfig "c2")) (.snoc (.lock 1 .calm) (.snoc (.call 1 .restartCore)
      (.snoc (.ret 0) (.snoc (.lock 0 .calm) (.snoc (.call 0 (.applyConfig "c1")) .refl
      (hother _ _ (by simp))) (hlock _ 0 (Or.inr ?_))) (hother _ _ (by simp)))
      (hother _ _ (by simp))) (hlock _ 1 (Or.inl ?_))) (hother _ _ (by simp)))
      (hlock _ 1 (Or.inl ?_))) (hlock _ 2 (Or.inr ?_))) (hother _ _ (by simp)))
      (hother _ _ (by simp))
    · rintro (_ | j) c h <;> cases h
    · exact fun c h => by cases h
    · exact fun c h => by cases h
    · rintro (_ | _ | _ | j) c h <;> cases h
  refine (no_lost_push hpath).2 (fun i p hi => ?_) ⟨0, "c1", by decide⟩
  rcases i with _ | _ | _ | i
  · exact (Option.some.inj hi).symm
  · exact (Option.some.inj hi).symm
  · exact (Option.some.inj hi).symm
  · cases hi

end NodeAgent
