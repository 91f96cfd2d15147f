import NodeAgent.Xray.Model.Health
/-!
# Whether `Shutdown` is final

The health check recognises that the backend is being shut down in two
places: its `select` on the context, and the error of its query. The
second never does: `GetSysStats` makes the error of a cancelled query a
status of its own, which `errors.Is` does not take for
`context.Canceled`. A query that is under way when `Shutdown` cancels the
context therefore counts as a failure, finds the core stopped, waits for
`x.mu`, and starts the core again once `Shutdown` has let go of it.

So a `Shutdown` is final exactly if the health check is between two rounds
when the context is cancelled.
-/

namespace NodeAgent.Health

open Threads

variable {s : State Shared Thread} {g : Shared} {k j f : ℕ} {o : Outcome}

/-- **A cancelled query is not recognised**, nor is any other. -/
theorem errorsIs_getSysStats {answer : Option GoError} {err : GoError}
    (h : getSysStats answer = some err) : errorsIs err .canceled = false := by
  obtain ⟨e, -, rfl⟩ := Option.map_eq_some_iff.1 h
  rfl

/-! ## Where the threads are -/

/-- The health check is past the check of the context and on its way to a
restart. -/
def LoopPc.pending : LoopPc → Bool
  | restarting => true
  | query => true
  | inFlight => true
  | decide => true
  | lock => true
  | _ => false

/-- It has `x.mu`. -/
def LoopPc.holds : LoopPc → Bool
  | stop => true
  | start => true
  | _ => false

def ShutdownPc.holds : ShutdownPc → Bool
  | lock => false
  | returned => false
  | _ => true

/-- It has cancelled the context. -/
def ShutdownPc.past : ShutdownPc → Bool
  | lock => false
  | cancel => false
  | _ => true

def Thread.holds : Thread → Bool
  | health pc _ => pc.holds
  | shutdown pc => pc.holds

def Thread.past : Thread → Bool
  | health _ _ => false
  | shutdown pc => pc.past

def Thread.pending : Thread → Bool
  | health pc _ => pc.pending
  | shutdown _ => false

/-- **A step that does not cancel the context under a health check that is
on its way.** -/
def Calm (s : State Shared Thread) : Label Unit Outcome → Prop
  | .request _ => True
  | .run k _ => s.threads[k]? = some (.shutdown .cancel) → ∀ l ∈ s.threads, l.pending = false

/-! ## What the steps do -/

/-- **What a step of the health check can do.** -/
inductive Moves (k : ℕ) (g : Shared) : LoopPc → Shared → LoopPc → Prop
  /-- The context is done. -/
  | quit (h : g.cancelled = true) : Moves k g .select g .returned
  /-- A round begins. -/
  | enter (h : g.cancelled = false) : Moves k g .select g .restarting
  /-- A round goes on or ends, without `x.mu`. -/
  | within {pc pc' : LoopPc} (started : Bool) (h : pc.pending = true) (h' : pc'.holds = false) :
      Moves k g pc { g with started := started } pc'
  | panic (h : g.closed = true) : Moves k g .query { g with crashed := true } .panicked
  | acquire (h : g.mu = none) : Moves k g .lock { g with mu := some k } .stop
  | stop : Moves k g .stop { g with started := false } .start
  | start : Moves k g .start
      { g with mu := none, started := true, revived := g.revived || g.returned } .sleep
  | fail : Moves k g .start { g with mu := none } .sleep
  | wake : Moves k g .sleep g .select
  | returned : Moves k g .returned g .returned
  | panicked : Moves k g .panicked g .panicked

theorem healthStep_moves (k : ℕ) (g : Shared) (pc : LoopPc) (f : ℕ) (o : Outcome) :
    Moves k g pc (healthStep k g pc f o).1 (healthStep k g pc f o).2.1 := by
  cases pc with
  | select =>
    simp only [healthStep]
    split_ifs with hc
    · exact .quit hc
    · exact .enter (Bool.eq_false_iff.2 hc)
  | restarting =>
    simp only [healthStep]
    split_ifs
    · exact .within g.started rfl rfl
    · exact .within g.started rfl rfl
  | query =>
    simp only [healthStep]
    split_ifs with hclosed
    · exact .panic hclosed
    · exact .within g.started rfl rfl
  | inFlight =>
    simp only [healthStep]
    split
    · exact .within g.started rfl rfl
    · split_ifs
      · exact .within g.started rfl rfl
      · exact .within g.started rfl rfl
  | decide =>
    simp only [healthStep]
    split_ifs
    all_goals first | exact .within false rfl rfl | exact .within g.started rfl rfl
  | lock =>
    simp only [healthStep]
    split_ifs with hmu
    · exact .acquire hmu
    · exact .within g.started rfl rfl
  | stop => exact .stop
  | start =>
    simp only [healthStep]
    split_ifs
    · exact .start
    · exact .fail
  | sleep => exact .wake
  | returned => exact .returned
  | panicked => exact .panicked

/-- **What a step can do.** -/
inductive Does (k : ℕ) (g : Shared) : Thread → Shared → Thread → Prop
  /-- Nothing: the node is down, `x.mu` is taken, or the thread is done. -/
  | idle (l : Thread) : Does k g l g l
  | health {pc pc' : LoopPc} {g' : Shared} (f f' : ℕ) (h : Moves k g pc g' pc') :
      Does k g (.health pc f) g' (.health pc' f')
  | acquire (h : g.mu = none) :
      Does k g (.shutdown .lock) { g with mu := some k } (.shutdown .cancel)
  | cancel : Does k g (.shutdown .cancel) { g with cancelled := true } (.shutdown .stop)
  | stop : Does k g (.shutdown .stop) { g with started := false } (.shutdown .close)
  | close : Does k g (.shutdown .close) { g with closed := true } (.shutdown .unlock)
  | unlock : Does k g (.shutdown .unlock) { g with mu := none, returned := true }
      (.shutdown .returned)

theorem step_does (k : ℕ) (g : Shared) (l : Thread) (o : Outcome) :
    Does k g l (program.step k g l o).1 (program.step k g l o).2.1 := by
  unfold program
  dsimp only
  split_ifs with hcrashed
  · exact .idle l
  · cases l with
    | health pc f => exact .health f _ (healthStep_moves k g pc f o)
    | shutdown pc =>
      cases pc with
      | lock =>
        simp only [shutdownStep]
        split_ifs with hmu
        · exact .acquire hmu
        · exact .idle _
      | cancel => exact .cancel
      | stop => exact .stop
      | close => exact .close
      | unlock => exact .unlock
      | returned => exact .idle _

theorem step_started (k : ℕ) (g : Shared) (l : Thread) (o : Outcome) :
    (program.step k g l o).2.2 = [] := by
  unfold program
  dsimp only
  split_ifs
  · rfl
  · cases l <;> rfl

/-! ## What holds in every run -/

/-- The handler is closed, and a `Shutdown` returns, after the context has
been cancelled; the node goes down over a closed handler. -/
structure Sane (g : Shared) : Prop where
  closed : g.closed = true → g.cancelled = true
  crashed : g.crashed = true → g.closed = true
  returned : g.returned = true → g.cancelled = true

/-- A thread that should have `x.mu` has it, and one that has cancelled the
context has. -/
structure Placed (k : ℕ) (g : Shared) (l : Thread) : Prop where
  mu : l.holds = true → g.mu = some k
  past : l.past = true → g.cancelled = true

theorem Sane.does {l l' : Thread} {g' : Shared} (h : Sane g) (hl : Placed k g l)
    (hd : Does k g l g' l') : Sane g' := by
  cases hd with
  | idle => exact h
  | health f f' hm =>
    cases hm with
    | panic hclosed => exact ⟨h.closed, fun _ => hclosed, h.returned⟩
    | _ => exact ⟨h.closed, h.crashed, h.returned⟩
  | acquire => exact ⟨h.closed, h.crashed, h.returned⟩
  | cancel => exact ⟨fun _ => rfl, h.crashed, fun _ => rfl⟩
  | stop => exact ⟨h.closed, h.crashed, h.returned⟩
  | close => exact ⟨fun _ => hl.past rfl, fun _ => rfl, h.returned⟩
  | unlock => exact ⟨h.closed, h.crashed, fun _ => hl.past rfl⟩

theorem Placed.does {l l' : Thread} {g' : Shared} (h : Placed k g l) (hd : Does k g l g' l') :
    Placed k g' l' := by
  have hnot : ∀ {b : Bool}, b = false → b = true → ∀ {p : Prop}, p := fun hf ht =>
    absurd (hf.symm.trans ht) Bool.noConfusion
  cases hd with
  | idle => exact h
  | health f f' hm =>
    cases hm with
    | within started _ hpc => exact ⟨fun hh => hnot hpc hh, fun hp => hnot rfl hp⟩
    | acquire => exact ⟨fun _ => rfl, fun hp => hnot rfl hp⟩
    | stop => exact ⟨fun _ => h.mu rfl, fun hp => hnot rfl hp⟩
    | _ => exact ⟨fun hh => hnot rfl hh, fun hp => hnot rfl hp⟩
  | acquire => exact ⟨fun _ => rfl, fun hp => hnot rfl hp⟩
  | cancel => exact ⟨fun _ => h.mu rfl, fun _ => rfl⟩
  | stop => exact ⟨fun _ => h.mu rfl, fun _ => h.past rfl⟩
  | close => exact ⟨fun _ => h.mu rfl, fun _ => h.past rfl⟩
  | unlock => exact ⟨fun hh => hnot rfl hh, fun _ => h.past rfl⟩

theorem Does.frame {l l' : Thread} {g' : Shared} (hd : Does k g l g' l') (hl : Placed k g l) :
    (∀ j, j ≠ k → g.mu = some j → g'.mu = some j) ∧
      (g.cancelled = true → g'.cancelled = true) := by
  -- another thread has the lock, so this one neither takes it nor has it
  have htaken : ∀ j, g.mu = some j → g.mu = none → ∀ {p : Prop}, p := by
    intro j hj hnone
    rw [hj] at hnone
    cases hnone
  have hheld : ∀ j, j ≠ k → g.mu = some j → l.holds = true → ∀ {p : Prop}, p := by
    intro j hne hj hholds
    rw [hl.mu hholds] at hj
    exact absurd (Option.some.inj hj).symm hne
  cases hd with
  | idle => exact ⟨fun _ _ hj => hj, id⟩
  | health f f' hm =>
    cases hm with
    | acquire hmu => exact ⟨fun j _ hj => htaken j hj hmu, id⟩
    | start => exact ⟨fun j hne hj => hheld j hne hj rfl, id⟩
    | fail => exact ⟨fun j hne hj => hheld j hne hj rfl, id⟩
    | _ => exact ⟨fun _ _ hj => hj, id⟩
  | acquire hmu => exact ⟨fun j _ hj => htaken j hj hmu, id⟩
  | cancel => exact ⟨fun _ _ hj => hj, fun _ => rfl⟩
  | stop => exact ⟨fun _ _ hj => hj, id⟩
  | close => exact ⟨fun _ _ hj => hj, id⟩
  | unlock => exact ⟨fun j hne hj => hheld j hne hj rfl, id⟩

theorem Placed.other {l l' m : Thread} {g' : Shared} (hm : Placed j g m) (hne : j ≠ k)
    (hd : Does k g l g' l') (hl : Placed k g l) : Placed j g' m :=
  ⟨fun hh => (hd.frame hl).1 j hne (hm.mu hh), fun hp => (hd.frame hl).2 (hm.past hp)⟩

/-- **What holds in every run.** -/
theorem outline_placed (ok : State Shared Thread → Label Unit Outcome → Prop) :
    program.Outline ok Sane Placed where
  request := fun _ _ _ _ => ⟨fun h => absurd h Bool.false_ne_true,
    fun h => absurd h Bool.false_ne_true⟩
  shared := fun _ k l c _ _ hs hl => hs.does hl (step_does k _ l c)
  own := fun _ k l c _ _ _ hl => hl.does (step_does k _ l c)
  started := fun _ k l c _ _ _ _ m hm => by
    rw [step_started] at hm
    cases hm
  others := fun _ k l c _ _ _ _ _ hl _ hne hm => hm.other hne (step_does k _ l c) hl

theorem initial_placed : Holds Sane Placed initial := by
  refine ⟨⟨fun h => absurd h Bool.false_ne_true, fun h => absurd h Bool.false_ne_true,
    fun h => absurd h Bool.false_ne_true⟩, fun k l hl => ?_⟩
  have hmem : l ∈ [Thread.health .select 0] := List.mem_of_getElem? hl
  rw [List.mem_singleton.1 hmem]
  exact ⟨fun h => absurd h Bool.false_ne_true, fun h => absurd h Bool.false_ne_true⟩

/-! ## Calm runs -/

/-- Once the context is cancelled the health check is between two
rounds, or done. -/
def AtRest (_ : ℕ) (g : Shared) (l : Thread) : Prop :=
  g.cancelled = true → ∀ pc f, l = .health pc f → pc.pending = false ∧ pc.holds = false

theorem Does.cancelled {l l' : Thread} {g' : Shared} (hd : Does k g l g' l') :
    g'.cancelled = g.cancelled ∨ l = .shutdown .cancel := by
  cases hd with
  | health f f' hm => cases hm <;> exact Or.inl rfl
  | cancel => exact Or.inr rfl
  | _ => exact Or.inl rfl

theorem AtRest.revived {l l' : Thread} {g' : Shared} (h : AtRest k g l) (hsane : Sane g)
    (hd : Does k g l g' l') (hg : g.revived = false) : g'.revived = false := by
  cases hd with
  | health f f' hm =>
    cases hm with
    | start =>
      -- it has the lock, so it is not at rest, and nobody has shut down
      cases hreturned : g.returned with
      | false => exact (Bool.or_false _).trans hg
      | true => exact absurd (h (hsane.returned hreturned) _ _ rfl).2 (by decide)
    | _ => exact hg
  | _ => exact hg

theorem AtRest.does {l l' : Thread} {g' : Shared} (h : AtRest k g l) (hd : Does k g l g' l') :
    AtRest k g' l' := by
  intro hcancelled pc' f' hl'
  cases hd with
  | idle => exact h hcancelled pc' f' hl'
  | health f f'' hm =>
    obtain ⟨rfl, rfl⟩ := Thread.health.inj hl'
    cases hm with
    | enter hfalse => exact absurd (hcancelled.symm.trans hfalse) Bool.noConfusion
    | within started hpending _ =>
      exact absurd ((h hcancelled _ _ rfl).1.symm.trans hpending) Bool.noConfusion
    | acquire => exact absurd (h hcancelled _ _ rfl).1 (by decide)
    | stop => exact absurd (h hcancelled _ _ rfl).2 (by decide)
    | _ => exact ⟨rfl, rfl⟩
  | _ => cases hl'

theorem AtRest.other {l l' m : Thread} {g' : Shared} (h : AtRest j g m) (hm : Placed j g m)
    (hne : j ≠ k) (hd : Does k g l g' l') (hl : Placed k g l)
    (hcalm : l = .shutdown .cancel → m.pending = false) : AtRest j g' m := by
  intro hcancelled pc f hpc
  rcases hd.cancelled with hsame | hcancel
  · exact h (hsame.symm.trans hcancelled) pc f hpc
  · have hpending : m.pending = false := hcalm hcancel
    rw [hpc] at hpending
    refine ⟨hpending, Bool.eq_false_iff.2 fun hholds => hne ?_⟩
    have hmine : g.mu = some k := hl.mu (by rw [hcancel]; rfl)
    have htheirs : g.mu = some j := hm.mu (by rw [hpc]; exact hholds)
    exact Option.some.inj (htheirs.symm.trans hmine)

/-- **In a calm run the core is not started after `Shutdown` has
returned.** -/
theorem outline_calm :
    program.Outline (fun s e => Calm s e ∧ Holds Sane Placed s) (fun g => g.revived = false)
      AtRest where
  request := fun _ _ _ _ _ _ _ h => nomatch h
  shared := fun _ k l c _ hok hs hl => hl.revived hok.2.shared (step_does k _ l c) hs
  own := fun _ k l c _ _ _ hl => hl.does (step_does k _ l c)
  started := fun _ k l c _ _ _ _ m hm => by
    rw [step_started] at hm
    cases hm
  others := fun s k l c j m hk hok _ _ hj hne hm => by
    refine hm.other (hok.2.own j m hj) hne (step_does k _ l c) (hok.2.own k l hk) fun hl => ?_
    rw [hl] at hk
    exact hok.1 hk m (List.mem_of_getElem? hj)

/-! ## Runs that are not calm -/

/-- From here the core can be started after a `Shutdown` has returned. -/
def Doomed (s : State Shared Thread) : Prop :=
  ∃ es : List (Label Unit Outcome), (es.foldl program.exec s).shared.revived = true

theorem Doomed.of_exec {e : Label Unit Outcome} (h : Doomed (program.exec s e)) : Doomed s := by
  obtain ⟨es, hes⟩ := h
  exact ⟨e :: es, hes⟩

theorem step_health (hg : g.crashed = false) (pc : LoopPc) (f : ℕ) (o : Outcome) :
    program.step k g (.health pc f) o =
      ((healthStep k g pc f o).1,
        .health (healthStep k g pc f o).2.1 (healthStep k g pc f o).2.2, []) := by
  refine if_neg ?_
  rw [hg]
  exact Bool.false_ne_true

theorem step_shutdown (hg : g.crashed = false) (pc : ShutdownPc) (o : Outcome) :
    program.step k g (.shutdown pc) o =
      ((shutdownStep k g pc).1, .shutdown (shutdownStep k g pc).2, []) := by
  refine if_neg ?_
  rw [hg]
  exact Bool.false_ne_true

/-- The health check and a `Shutdown` in one state. -/
structure At (s : State Shared Thread) (j k : ℕ) (pc : LoopPc) (spc : ShutdownPc) (g : Shared) :
    Prop where
  ne : j ≠ k
  health : ∃ f, s.threads[j]? = some (.health pc f)
  shutdown : s.threads[k]? = some (.shutdown spc)
  shared : s.shared = g

namespace At

variable {pc pc' : LoopPc} {spc : ShutdownPc} {g' : Shared}

theorem runHealth (h : At s j k pc spc g) (hg : g.crashed = false) (o : Outcome)
    (hstep : ∀ f, (healthStep j g pc f o).1 = g' ∧ (healthStep j g pc f o).2.1 = pc') :
    At (program.exec s (.run j o)) j k pc' spc g' := by
  obtain ⟨f, hf⟩ := h.health
  have hrun := step_health (k := j) hg pc f o
  rw [← h.shared] at hrun
  obtain ⟨hshared, hpc⟩ := hstep f
  rw [← h.shared] at hshared hpc
  refine ⟨h.ne, ⟨(healthStep j s.shared pc f o).2.2, ?_⟩, ?_, ?_⟩
  · rw [getElem?_exec_self hf, hrun, hpc]
  · exact getElem?_exec_ne hf h.shutdown (Ne.symm h.ne) o
  · rw [exec_run hf, hrun]
    exact hshared

theorem runShutdown (h : At s j k pc spc g) (hg : g.crashed = false) (o : Outcome) :
    At (program.exec s (.run k o)) j k pc (shutdownStep k g spc).2 (shutdownStep k g spc).1 := by
  obtain ⟨f, hf⟩ := h.health
  have hrun := step_shutdown (k := k) hg spc o
  rw [← h.shared] at hrun ⊢
  refine ⟨h.ne, ⟨f, getElem?_exec_ne h.shutdown hf h.ne o⟩, ?_, ?_⟩
  · rw [getElem?_exec_self h.shutdown, hrun]
  · rw [exec_run h.shutdown, hrun]

/-- A query ends as a cancelled one does, and the core can be started. -/
def fatal : Outcome :=
  ⟨false, some (.status .canceled "context canceled"), false, true⟩

theorem doomed_unlock (h : At s j k .lock .unlock g) (hg : g.crashed = false) : Doomed s := by
  have h₁ := h.runShutdown hg fatal
  have h₂ := h₁.runHealth hg fatal fun _ => ⟨rfl, rfl⟩
  have h₃ := h₂.runHealth hg fatal fun _ => ⟨rfl, rfl⟩
  have h₄ := h₃.runHealth hg fatal fun _ => ⟨rfl, rfl⟩
  refine ⟨[.run k fatal, .run j fatal, .run j fatal, .run j fatal], ?_⟩
  exact (congrArg Shared.revived h₄.shared).trans (Bool.or_true _)

theorem doomed_close (h : At s j k .lock .close g) (hg : g.crashed = false) : Doomed s :=
  .of_exec (doomed_unlock (h.runShutdown hg fatal) hg)

theorem doomed_lock (h : At s j k .lock .stop g) (hg : g.crashed = false) : Doomed s :=
  .of_exec (doomed_close (h.runShutdown hg fatal) hg)

theorem doomed_decide (h : At s j k .decide .stop g) (hg : g.crashed = false) : Doomed s := by
  have h₁ := h.runShutdown hg fatal
  have h₂ := h₁.runHealth hg fatal fun _ => ⟨rfl, rfl⟩
  exact .of_exec (.of_exec (doomed_close h₂ hg))

theorem doomed_inFlight (h : At s j k .inFlight .stop g) (hg : g.crashed = false) : Doomed s :=
  .of_exec (doomed_decide (h.runHealth hg fatal fun _ => ⟨rfl, rfl⟩) hg)

theorem doomed_query (h : At s j k .query .stop g) (hg : g.crashed = false)
    (hclosed : g.closed = false) : Doomed s := by
  refine .of_exec (doomed_inFlight (h.runHealth hg fatal fun f => ?_) hg)
  simp [healthStep, hclosed]

/-- **A health check that is on its way when the context is cancelled** can
start the core after `Shutdown` has returned. -/
theorem doomed_of_pending (h : At s j k pc .stop g) (hg : g.crashed = false)
    (hclosed : g.closed = false) (hpending : pc.pending = true) : Doomed s := by
  cases pc with
  | restarting =>
    exact .of_exec (doomed_query (h.runHealth hg fatal fun _ => ⟨rfl, rfl⟩) hg hclosed)
  | query => exact doomed_query h hg hclosed
  | inFlight => exact doomed_inFlight h hg
  | decide => exact doomed_decide h hg
  | lock => exact doomed_lock h hg
  | _ => cases hpending

end At

/-- **When `Shutdown` is final.** In every run in which the health check is
never on its way to a restart when a `Shutdown` cancels the context, the
core is not started after a `Shutdown` has returned. In every other run
the first `Shutdown` that cancels the context under it can be followed by
a start of the core. -/
theorem shutdown_final (s : State Shared Thread) :
    (Runs.Path program.exec Calm initial s → s.shared.revived = false) ∧
      ∀ k o, Runs.Path program.exec (fun _ _ => True) initial s →
        s.threads[k]? = some (.shutdown .cancel) → s.shared.cancelled = false →
        ¬ Calm s (.run k o) →
        ∃ t, Runs.Path program.exec (fun _ _ => True) (program.exec s (.run k o)) t ∧
          t.shared.revived = true := by
  constructor
  · intro hpath
    have hpath' := (outline_placed Calm).path_holds hpath initial_placed
    refine (outline_calm.path hpath' ⟨rfl, fun k l hl => ?_⟩).shared
    exact fun hcancelled => absurd hcancelled Bool.false_ne_true
  · intro k o hpath hk hcancelled hcalm
    obtain ⟨hsane, -⟩ := (outline_placed _).path hpath initial_placed
    have hclosed : s.shared.closed = false :=
      Bool.eq_false_iff.2 fun h => Bool.false_ne_true (hcancelled.symm.trans (hsane.closed h))
    have hcrashed : s.shared.crashed = false :=
      Bool.eq_false_iff.2 fun h => Bool.false_ne_true (hclosed.symm.trans (hsane.crashed h))
    -- the thread that is on its way
    obtain ⟨l, hl, hpending⟩ : ∃ l ∈ s.threads, l.pending = true := by
      by_contra hnone
      refine hcalm fun _ l hl => Bool.eq_false_iff.2 fun h => hnone ⟨l, hl, h⟩
    obtain ⟨j, hj⟩ := List.mem_iff_getElem?.1 hl
    cases l with
    | shutdown pc => cases hpending
    | health pc f =>
      have hne : j ≠ k := by
        rintro rfl
        rw [hk] at hj
        cases hj
      have hat : At s j k pc .cancel s.shared := ⟨hne, ⟨f, hj⟩, hk, rfl⟩
      obtain ⟨es, hes⟩ :=
        At.doomed_of_pending (hat.runShutdown hcrashed o) hcrashed hclosed hpending
      exact ⟨_, .of_foldl es fun _ _ _ => trivial, hes⟩

/-! ## Two runs -/

/-- A round of the health check that succeeds, and a `Shutdown` while it
sleeps. -/
def shutdownAsleep : List (Label Unit Outcome) :=
  let ok : Outcome := ⟨false, none, false, true⟩
  [.run 0 ok, .run 0 ok, .run 0 ok, .run 0 ok, .request (), .run 1 ok, .run 1 ok, .run 1 ok,
    .run 1 ok, .run 1 ok, .run 0 ok, .run 0 ok]

/-- A `Shutdown` while a query is under way, which ends as cancelled
queries do. -/
def shutdownInFlight : List (Label Unit Outcome) :=
  [.run 0 At.fatal, .run 0 At.fatal, .run 0 At.fatal, .request (), .run 1 At.fatal,
    .run 1 At.fatal, .run 1 At.fatal, .run 1 At.fatal, .run 1 At.fatal, .run 0 At.fatal,
    .run 0 At.fatal, .run 0 At.fatal, .run 0 At.fatal, .run 0 At.fatal]

instance decidableCalm (s : State Shared Thread) : (e : Label Unit Outcome) → Decidable (Calm s e)
  | .request _ => inferInstanceAs (Decidable True)
  | .run k _ => inferInstanceAs (Decidable
      (s.threads[k]? = some (.shutdown .cancel) → ∀ l ∈ s.threads, l.pending = false))

/-- The first is calm, and its `Shutdown` is final; the second is not, from
the step that cancels the context on. -/
theorem shutdown_final_asleep :
    let s := shutdownAsleep.foldl program.exec initial
    (s.shared.returned = true ∧ s.shared.started = false ∧ s.shared.revived = false) ∧
      let t := (shutdownInFlight.take 5).foldl program.exec initial
      ∃ u, Runs.Path program.exec (fun _ _ => True) (program.exec t (.run 1 At.fatal)) u ∧
        u.shared.revived = true := by
  have hcalm : Runs.Allowed program.exec Calm shutdownAsleep initial := by decide
  refine ⟨⟨by decide, by decide, ?_⟩, ?_⟩
  · exact (shutdown_final _).1 (Runs.Path.append .refl hcalm)
  · exact (shutdown_final _).2 1 At.fatal (.of_foldl _ fun _ _ _ => trivial) (by decide)
      (by decide) (by decide)

/-- **The core runs again after `Shutdown` has returned.** -/
theorem shutdown_revived :
    let s := shutdownInFlight.foldl program.exec initial
    (((shutdownInFlight.take 9).foldl program.exec initial).shared.returned = true ∧
        ((shutdownInFlight.take 9).foldl program.exec initial).shared.started = false) ∧
      s.shared.started = true ∧ s.shared.revived = true := by
  decide

end NodeAgent.Health
