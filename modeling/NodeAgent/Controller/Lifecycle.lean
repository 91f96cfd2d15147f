import NodeAgent.Controller.Model.Lifecycle
/-!
# Whether there is at most one backend

`Start` looks for a backend, disconnects it, starts its own and enters it,
each in a lock section of its own, and `Disconnect` clears whatever is
entered when its `Shutdown` is done. So `StartBackend` may enter a backend
over one that another request has entered since, or enter one that a
`Disconnect` under way will clear; either way a running backend is lost.

These are the only ways. If nothing is entered when `StartBackend` runs,
and no `Disconnect` is between its read and its clearing, then every
backend that has been started is shut down or is the controller's.
-/

namespace NodeAgent.Lifecycle

open Threads

variable {s t : State Shared Thread} {g g' : Shared} {l l' m : Thread} {o : Outcome}
variable {k j : ℕ}

/-- **Every backend that has been started has been shut down, or is the
controller's.** -/
def AtMostOne (g : Shared) : Prop :=
  ∀ b, b < g.next → b ∈ g.shut ∨ g.backend = some b

/-- A backend that runs and is not the controller's. -/
def Lost (g : Shared) (b : ℕ) : Prop :=
  b < g.next ∧ b ∉ g.shut ∧ g.backend ≠ some b

theorem Lost.not_atMostOne {b : ℕ} (h : Lost g b) : ¬ AtMostOne g := fun hone =>
  (hone b h.1).elim h.2.1 h.2.2

/-- `Disconnect` has read `c.backend` and is going to clear it. -/
def Thread.disconnecting : Thread → Bool
  | shutdown _ _ => true
  | clear _ _ => true
  | _ => false

/-- Nothing is entered, and nothing is about to be cleared. -/
def Settled (s : State Shared Thread) : Prop :=
  s.shared.backend = none ∧ ∀ l ∈ s.threads, l.disconnecting = false

/-- **A step that is not a `StartBackend` in the middle of another
request's change.** -/
def Orderly (s : State Shared Thread) : Label Request Outcome → Prop
  | .request _ => True
  | .run k _ => ∀ keepAlive, s.threads[k]? = some (.startBackend keepAlive) → Settled s

/-! ## What the steps do -/

/-- **What a step can do** to the backends. -/
inductive Does (g : Shared) : Thread → Shared → Thread → Prop
  /-- Nothing. -/
  | idle {l l' : Thread} {g' : Shared} (hbackend : g'.backend = g.backend)
      (hnext : g'.next = g.next) (hshut : g'.shut = g.shut) (hl : l.disconnecting = false)
      (hl' : l'.disconnecting = false) : Does g l g' l'
  | readNone (caller : Caller) (h : g.backend = none) :
      Does g (.read caller) g (.clear none caller)
  | readSome (b : ℕ) (caller : Caller) (h : g.backend = some b) :
      Does g (.read caller) g (.shutdown b caller)
  | shutdown (b : ℕ) (caller : Caller) :
      Does g (.shutdown b caller) { g with shut := b :: g.shut } (.clear (some b) caller)
  | clear (b : Option ℕ) (caller : Caller) :
      Does g (.clear b caller) { g with backend := none } caller.resume
  | start (keepAlive : Bool) :
      Does g (.startBackend keepAlive) { g with backend := some g.next, next := g.next + 1 }
        (.connect keepAlive)

theorem disconnecting_resume (caller : Caller) : caller.resume.disconnecting = false := by
  cases caller <;> rfl

theorem step_does (g : Shared) (l : Thread) (o : Outcome) :
    Does g l (step g l o).1 (step g l o).2.1 := by
  cases l with
  | check keepAlive =>
    simp only [step]
    split_ifs
    · exact .idle rfl rfl rfl rfl rfl
    · exact .idle rfl rfl rfl rfl rfl
  | cancel caller => exact .idle rfl rfl rfl rfl rfl
  | read caller =>
    cases hb : g.backend with
    | none => simpa only [step, hb] using Does.readNone caller hb
    | some b => simpa only [step, hb] using Does.readSome b caller hb
  | shutdown b caller => exact .shutdown b caller
  | clear b caller => exact .clear b caller
  | startBackend keepAlive =>
    simp only [step]
    split_ifs
    · exact .start keepAlive
    · exact .idle rfl rfl rfl rfl rfl
  | connect keepAlive => exact .idle rfl rfl rfl rfl rfl
  | tracker ctx =>
    simp only [step]
    split_ifs
    · exact .idle rfl rfl rfl rfl rfl
    · exact .idle rfl rfl rfl rfl rfl
    · exact .idle rfl rfl rfl rfl rfl
  | returned => exact .idle rfl rfl rfl rfl rfl

theorem step_started (g : Shared) (l : Thread) (o : Outcome) :
    ∀ m ∈ (step g l o).2.2, m.disconnecting = false := by
  intro m hm
  have hnil : ∀ {n : Thread}, n ∈ ([] : List Thread) → n.disconnecting = false := fun h => by cases h
  cases l with
  | connect keepAlive =>
    simp only [step] at hm
    split_ifs at hm
    · rw [List.mem_singleton.1 hm]
      rfl
    · exact hnil hm
  | check keepAlive => simp only [step] at hm; split_ifs at hm <;> exact hnil hm
  | read caller => simp only [step] at hm; split at hm <;> exact hnil hm
  | startBackend keepAlive => simp only [step] at hm; split_ifs at hm <;> exact hnil hm
  | tracker ctx => simp only [step] at hm; split_ifs at hm <;> exact hnil hm
  | _ => exact hnil hm

/-! ## What holds in every run -/

/-- The backends entered and shut down have been started. -/
structure Known (g : Shared) : Prop where
  backend : ∀ b, g.backend = some b → b < g.next
  shut : ∀ b ∈ g.shut, b < g.next

/-- So has the backend a `Disconnect` shuts down; and it has been shut down
when the field is about to be cleared. -/
structure Reads (k : ℕ) (g : Shared) (l : Thread) : Prop where
  started : ∀ b caller, l = .shutdown b caller → b < g.next
  shut : ∀ b caller, l = .clear (some b) caller → b ∈ g.shut

theorem Reads.of_not_disconnecting (h : l.disconnecting = false) : Reads k g l := by
  refine ⟨fun b caller hl => ?_, fun b caller hl => ?_⟩
  · rw [hl] at h
    cases h
  · rw [hl] at h
    cases h

theorem Known.does (h : Known g) (hl : Reads k g l) (hd : Does g l g' l') : Known g' := by
  cases hd with
  | idle hbackend hnext hshut =>
    refine ⟨fun b hb => ?_, fun b hb => ?_⟩
    · rw [hnext]
      exact h.backend b (hbackend ▸ hb)
    · rw [hnext]
      exact h.shut b (hshut ▸ hb)
  | readNone => exact h
  | readSome => exact h
  | shutdown b caller =>
    refine ⟨h.backend, fun b' hb' => ?_⟩
    rcases List.mem_cons.1 hb' with rfl | hb'
    · exact hl.started _ caller rfl
    · exact h.shut b' hb'
  | clear => exact ⟨fun _ hb => (nomatch hb), h.shut⟩
  | start keepAlive =>
    refine ⟨fun b hb => ?_, fun b hb => Nat.lt_succ_of_lt (h.shut b hb)⟩
    rw [← Option.some.inj hb]
    exact Nat.lt_succ_self g.next

theorem Does.mono (hd : Does g l g' l') : g.next ≤ g'.next ∧ ∀ b ∈ g.shut, b ∈ g'.shut := by
  cases hd with
  | idle _ hnext hshut => exact ⟨Nat.le_of_eq hnext.symm, fun b hb => hshut ▸ hb⟩
  | shutdown b => exact ⟨Nat.le_refl _, fun b' hb' => List.mem_cons_of_mem _ hb'⟩
  | start => exact ⟨Nat.le_succ _, fun b hb => hb⟩
  | _ => exact ⟨Nat.le_refl _, fun b hb => hb⟩

theorem Reads.does (hg : Known g) (hd : Does g l g' l') : Reads k g' l' := by
  cases hd with
  | idle _ _ _ _ hl' => exact of_not_disconnecting hl'
  | readNone => exact ⟨fun _ _ h => (nomatch h), fun _ _ h => (nomatch h)⟩
  | readSome b caller hb =>
    refine ⟨fun b' caller' h => ?_, fun _ _ h => (nomatch h)⟩
    obtain ⟨rfl, -⟩ := Thread.shutdown.inj h
    exact hg.backend b hb
  | shutdown b caller =>
    refine ⟨fun _ _ h => (nomatch h), fun b' caller' h => ?_⟩
    obtain ⟨hb, -⟩ := Thread.clear.inj h
    rw [← Option.some.inj hb]
    exact List.mem_cons_self ..
  | clear b caller => exact of_not_disconnecting (disconnecting_resume caller)
  | start => exact of_not_disconnecting rfl

theorem Reads.other (h : Reads j g m) (hd : Does g l g' l') : Reads j g' m :=
  ⟨fun b caller hm => Nat.lt_of_lt_of_le (h.started b caller hm) hd.mono.1,
    fun b caller hm => hd.mono.2 b (h.shut b caller hm)⟩

/-- **What holds in every run.** -/
theorem outline_reads (ok : State Shared Thread → Label Request Outcome → Prop) :
    program.Outline ok Known Reads where
  request := fun _ i _ _ => Reads.of_not_disconnecting (by cases i <;> rfl)
  shared := fun _ _ l c _ _ hs hl => hs.does hl (step_does _ l c)
  own := fun _ _ l c _ _ hs _ => Reads.does hs (step_does _ l c)
  started := fun _ _ l c _ _ _ _ m hm _ => Reads.of_not_disconnecting (step_started _ l c m hm)
  others := fun _ _ l c _ _ _ _ _ _ _ _ hm => hm.other (step_does _ l c)

theorem initial_reads : Holds Known Reads initial :=
  ⟨⟨fun _ h => (nomatch h), fun _ h => (nomatch h)⟩, fun _ _ h => (nomatch h)⟩

/-! ## Orderly runs -/

/-- While a `Disconnect` is under way, nothing is entered but the backend
it has read. -/
structure Undisturbed (k : ℕ) (g : Shared) (l : Thread) : Prop where
  shutdown : ∀ b caller, l = .shutdown b caller → g.backend = none ∨ g.backend = some b
  clear : ∀ b caller, l = .clear b caller → g.backend = none ∨ g.backend = b

theorem Undisturbed.of_not_disconnecting (h : l.disconnecting = false) : Undisturbed k g l := by
  refine ⟨fun b caller hl => ?_, fun b caller hl => ?_⟩
  · rw [hl] at h
    cases h
  · rw [hl] at h
    cases h

theorem AtMostOne.does (h : AtMostOne g) (hl : Undisturbed k g l) (hread : Reads k g l)
    (hstart : ∀ keepAlive, l = .startBackend keepAlive → g.backend = none)
    (hd : Does g l g' l') : AtMostOne g' := by
  intro b hb
  cases hd with
  | idle hbackend hnext hshut =>
    rw [hbackend, hshut]
    exact h b (hnext ▸ hb)
  | readNone => exact h b hb
  | readSome => exact h b hb
  | shutdown b' => exact (h b hb).imp_left (List.mem_cons_of_mem _)
  | clear b' caller =>
    -- what is cleared is the backend that was read, if anything
    rcases h b hb with hshut | hentered
    · exact Or.inl hshut
    · rcases hl.clear b' caller rfl with hnone | hsame
      · exact absurd (hentered.symm.trans hnone) (Option.some_ne_none b)
      · exact Or.inl (hread.shut b caller (by rw [← hsame, hentered]))
  | start keepAlive =>
    have hnone : g.backend = none := hstart keepAlive rfl
    rcases Nat.lt_succ_iff_lt_or_eq.1 hb with hlt | rfl
    · refine Or.inl ((h b hlt).resolve_right fun hentered => ?_)
      exact Option.some_ne_none b (hentered.symm.trans hnone)
    · exact Or.inr rfl

theorem Undisturbed.does (h : Undisturbed k g l) (hd : Does g l g' l') : Undisturbed k g' l' := by
  cases hd with
  | idle _ _ _ _ hl' => exact of_not_disconnecting hl'
  | readNone caller hnone => exact ⟨fun _ _ h => (nomatch h), fun _ _ _ => Or.inl hnone⟩
  | readSome b caller hb =>
    refine ⟨fun b' caller' h' => ?_, fun _ _ h => (nomatch h)⟩
    obtain ⟨rfl, -⟩ := Thread.shutdown.inj h'
    exact Or.inr hb
  | shutdown b caller =>
    refine ⟨fun _ _ h => (nomatch h), fun b' caller' h' => ?_⟩
    obtain ⟨rfl, -⟩ := Thread.clear.inj h'
    exact h.shutdown b caller rfl
  | clear b caller => exact of_not_disconnecting (disconnecting_resume caller)
  | start => exact of_not_disconnecting rfl

theorem Undisturbed.other (h : Undisturbed j g m)
    (hstart : ∀ keepAlive, l = .startBackend keepAlive → m.disconnecting = false)
    (hd : Does g l g' l') : Undisturbed j g' m := by
  cases hd with
  | idle hbackend =>
    refine ⟨fun b caller hm => ?_, fun b caller hm => ?_⟩
    · rw [hbackend]
      exact h.shutdown b caller hm
    · rw [hbackend]
      exact h.clear b caller hm
  | readNone => exact h
  | readSome => exact h
  | shutdown => exact ⟨h.shutdown, h.clear⟩
  | clear => exact ⟨fun _ _ _ => Or.inl rfl, fun _ _ _ => Or.inl rfl⟩
  | start keepAlive => exact of_not_disconnecting (hstart keepAlive rfl)

/-- **In an orderly run no backend is lost.** -/
theorem outline_undisturbed :
    program.Outline (fun s e => Orderly s e ∧ Holds Known Reads s) AtMostOne Undisturbed where
  request := fun _ i _ _ => Undisturbed.of_not_disconnecting (by cases i <;> rfl)
  shared := fun s k l c hk hok hs hl => by
    refine hs.does hl (hok.2.own k l hk) (fun keepAlive hstart => ?_) (step_does _ l c)
    exact (hok.1 keepAlive (hstart ▸ hk)).1
  own := fun _ _ l c _ _ _ hl => hl.does (step_does _ l c)
  started := fun _ _ l c _ _ _ _ m hm _ =>
    Undisturbed.of_not_disconnecting (step_started _ l c m hm)
  others := fun s k l c j m hk hok _ _ hj _ hm => by
    refine hm.other (fun keepAlive hstart => ?_) (step_does _ l c)
    exact (hok.1 keepAlive (hstart ▸ hk)).2 m (List.mem_of_getElem? hj)

/-! ## Runs that are not orderly -/

/-- A backend that has been shut down and is still entered is about to be
cleared. -/
def Pending (s : State Shared Thread) : Prop :=
  ∀ b, s.shared.backend = some b → b ∈ s.shared.shut →
    ∃ (j : ℕ) (caller : Caller), s.threads[j]? = some (.clear (some b) caller)

theorem Does.of_clear {b : Option ℕ} {caller : Caller} (hd : Does g (.clear b caller) g' l') :
    g'.backend = none := by
  cases hd with
  | idle _ _ _ hl => cases hl
  | clear => rfl

theorem Pending.run (h : Pending s) (hknown : Known s.shared) (hk : s.threads[k]? = some l)
    (c : Outcome) : Pending (program.exec s (.run k c)) := by
  intro b hb hshut
  have hd : Does s.shared l (step s.shared l c).1 (step s.shared l c).2.1 := step_does _ l c
  have hself : (program.exec s (.run k c)).threads[k]? = some (step s.shared l c).2.1 :=
    getElem?_exec_self hk c
  have hshared : (program.exec s (.run k c)).shared = (step s.shared l c).1 := by
    rw [exec_run hk]
    rfl
  rw [hshared] at hb hshut
  -- a backend that was entered and shut down before has its thread still
  have hold : s.shared.backend = some b → b ∈ s.shared.shut →
      ∃ (j : ℕ) (caller : Caller),
        (program.exec s (.run k c)).threads[j]? = some (.clear (some b) caller) := by
    intro hb' hshut'
    obtain ⟨j, caller, hj⟩ := h b hb' hshut'
    have hne : j ≠ k := by
      rintro rfl
      rw [hj] at hk
      obtain rfl := Option.some.inj hk
      exact Option.some_ne_none b (hb.symm.trans hd.of_clear)
    exact ⟨j, caller, getElem?_exec_ne hk hj hne c⟩
  generalize (step s.shared l c).1 = g' at hd hb hshut
  generalize (step s.shared l c).2.1 = l' at hd hself
  cases hd with
  | idle hbackend _ hshut' => exact hold (hbackend ▸ hb) (hshut' ▸ hshut)
  | readNone => exact hold hb hshut
  | readSome => exact hold hb hshut
  | shutdown b' caller =>
    rcases List.mem_cons.1 hshut with rfl | hshut
    · exact ⟨k, caller, hself⟩
    · exact hold hb hshut
  | clear => cases hb
  | start keepAlive =>
    -- the new backend has not been shut down
    have hlt := hknown.shut b hshut
    rw [← Option.some.inj hb] at hlt
    exact absurd hlt (Nat.lt_irrefl _)

theorem Pending.exec (h : Pending s) (hknown : Known s.shared) (e : Label Request Outcome) :
    Pending (program.exec s e) := by
  cases e with
  | request i =>
    intro b hb hshut
    obtain ⟨j, caller, hj⟩ := h b hb hshut
    have hlt : j < s.threads.length := (List.getElem?_eq_some_iff.1 hj).1
    exact ⟨j, caller, (List.getElem?_append_left hlt).trans hj⟩
  | run k c =>
    cases hk : s.threads[k]? with
    | some l => exact h.run hknown hk c
    | none =>
      have hsame : program.exec s (.run k c) = s := by simp only [Threads.exec, hk]
      rw [hsame]
      exact h

/-- From here a backend can be lost. -/
def Doomed (s : State Shared Thread) : Prop :=
  ∃ es : List (Label Request Outcome), ¬ AtMostOne (es.foldl program.exec s).shared

theorem Doomed.of_exec {e : Label Request Outcome} (h : Doomed (program.exec s e)) : Doomed s := by
  obtain ⟨es, hes⟩ := h
  exact ⟨e :: es, hes⟩

/-- The backend starts. -/
def starting : Outcome :=
  ⟨true, false⟩

theorem doomed_clear {b : ℕ} {x : Option ℕ} {caller : Caller}
    (hj : s.threads[j]? = some (.clear x caller)) (hb : b < s.shared.next)
    (hshut : b ∉ s.shared.shut) : Doomed s := by
  have hshared : (program.exec s (.run j starting)).shared = { s.shared with backend := none } := by
    rw [exec_run hj]
    rfl
  have hlost : Lost { s.shared with backend := none } b := ⟨hb, hshut, fun h => (nomatch h)⟩
  exact ⟨[.run j starting], Lost.not_atMostOne (b := b) (hshared ▸ hlost)⟩

theorem doomed_disconnecting {b : ℕ} (hj : s.threads[j]? = some m)
    (hm : m.disconnecting = true) (hb : b < s.shared.next)
    (hshut : b ∉ s.shared.shut) (hother : ∀ caller, m ≠ .shutdown b caller) : Doomed s := by
  cases m with
  | clear x caller => exact doomed_clear hj hb hshut
  | shutdown b' caller =>
    have hshared : (program.exec s (.run j starting)).shared =
        { s.shared with shut := b' :: s.shared.shut } := by
      rw [exec_run hj]
      rfl
    refine .of_exec (doomed_clear (b := b) (getElem?_exec_self hj starting) ?_ ?_)
    · rw [hshared]
      exact hb
    · rw [hshared]
      intro hmem
      rcases List.mem_cons.1 hmem with rfl | hmem
      · exact hother caller rfl
      · exact hshut hmem
  | _ => cases hm

/-- **A `StartBackend` in the middle of another request's change** can lose
a backend. -/
theorem doomed_of_not_settled {keepAlive : Bool} (hs : Holds Known Reads s) (hpending : Pending s)
    (hk : s.threads[k]? = some (.startBackend keepAlive)) (hsettled : ¬ Settled s) : Doomed s := by
  have hshared : (program.exec s (.run k starting)).shared =
      { s.shared with backend := some s.shared.next, next := s.shared.next + 1 } := by
    rw [exec_run hk]
    rfl
  -- a `Disconnect` under way clears the backend that is being started
  have hunderWay : ∀ (j : ℕ) (m : Thread), s.threads[j]? = some m → m.disconnecting = true →
      Doomed s := by
    intro j m hj hm
    have hne : j ≠ k := by
      rintro rfl
      rw [hk] at hj
      obtain rfl := Option.some.inj hj
      cases hm
    have hnew : s.shared.next ∉ s.shared.shut := fun hmem =>
      Nat.lt_irrefl _ (hs.shared.shut _ hmem)
    refine .of_exec (e := .run k starting) (doomed_disconnecting (b := s.shared.next)
      (getElem?_exec_ne hk hj hne starting) hm ?_ ?_ fun caller hshutdown => ?_)
    · rw [hshared]
      exact Nat.lt_succ_self _
    · rw [hshared]
      exact hnew
    · exact Nat.lt_irrefl _ ((hs.own j m hj).started _ caller hshutdown)
  by_cases hall : ∀ l ∈ s.threads, l.disconnecting = false
  · -- no `Disconnect` is under way, so the backend entered runs, and is lost at once
    have hentered : s.shared.backend ≠ none := fun hnone => hsettled ⟨hnone, hall⟩
    obtain ⟨b, hb⟩ := Option.ne_none_iff_exists'.1 hentered
    have hrunning : b ∉ s.shared.shut := by
      intro hshut
      obtain ⟨j, caller, hj⟩ := hpending b hb hshut
      exact Bool.noConfusion (hall _ (List.mem_of_getElem? hj))
    have hlt := hs.shared.backend b hb
    have hlost : Lost { s.shared with
        backend := some s.shared.next, next := s.shared.next + 1 } b :=
      ⟨Nat.lt_succ_of_lt hlt, hrunning, fun hsame =>
        Nat.lt_irrefl b (Option.some.inj hsame ▸ hlt)⟩
    exact ⟨[.run k starting], Lost.not_atMostOne (b := b) (hshared ▸ hlost)⟩
  · obtain ⟨l, hl⟩ := not_forall.1 hall
    obtain ⟨hmem, hl⟩ := Classical.not_imp.1 hl
    obtain ⟨j, hj⟩ := List.mem_iff_getElem?.1 hmem
    exact hunderWay j l hj ((Bool.not_eq_false _).mp hl)

/-- **When there is at most one backend.** In every run in which nothing is
entered and no `Disconnect` is between its read and its clearing whenever
a `StartBackend` runs, every backend that has been started has been shut
down or is the controller's. From every other state in which a
`StartBackend` is about to run, a backend can be lost. -/
theorem at_most_one_backend (s : State Shared Thread) :
    (Runs.Path program.exec Orderly initial s → AtMostOne s.shared) ∧
      ∀ (k : ℕ) (keepAlive : Bool),
        Runs.Path program.exec (fun _ _ => True) initial s →
        s.threads[k]? = some (.startBackend keepAlive) → ¬ Settled s →
        ∃ t, Runs.Path program.exec (fun _ _ => True) s t ∧ ¬ AtMostOne t.shared := by
  constructor
  · intro hpath
    have hpath' := (outline_reads Orderly).path_holds hpath initial_reads
    refine (outline_undisturbed.path hpath' ⟨fun b hb => ?_, fun k l hl => ?_⟩).shared
    · exact absurd hb (Nat.not_lt_zero b)
    · cases hl
  · intro k keepAlive hpath hk hsettled
    have hs := (outline_reads _).path hpath initial_reads
    have hpath' := (outline_reads _).path_holds hpath initial_reads
    have hpending : Pending s :=
      hpath'.invariant (fun _ e hp hok => hp.exec hok.2.shared e) fun b hb => by cases hb
    obtain ⟨es, hes⟩ := doomed_of_not_settled hs hpending hk hsettled
    exact ⟨_, .of_foldl es fun _ _ _ => trivial, hes⟩

/-! ## Runs -/

instance decidableSettled (s : State Shared Thread) : Decidable (Settled s) :=
  inferInstanceAs (Decidable (_ ∧ _))

instance decidableOrderly (s : State Shared Thread) :
    (e : Label Request Outcome) → Decidable (Orderly s e)
  | .request _ => inferInstanceAs (Decidable True)
  | .run k _ => inferInstanceAs (Decidable
      (∀ keepAlive : Bool, s.threads[k]? = some (.startBackend keepAlive) → Settled s))

/-- A `Start` with a keep-alive, a timeout while it is connected, and a
`Start` after it. -/
def oneAfterTheOther : List (Label Request Outcome) :=
  [.request (.start true), .run 0 starting, .run 0 starting, .run 0 starting,
    .run 1 ⟨true, true⟩, .run 1 starting, .run 1 starting, .run 1 starting, .run 1 starting,
    .run 1 starting, .request (.start false), .run 2 starting, .run 2 starting, .run 2 starting]

/-- Two `Start` requests that both find no backend. -/
def twoStarts : List (Label Request Outcome) :=
  [.request (.start false), .request (.start false), .run 0 starting, .run 1 starting,
    .run 0 starting, .run 1 starting, .run 0 starting, .run 1 starting]

/-- A `Stop` that is still shutting down a backend when a `Start` has shut
it down too and started another. -/
def stopAcrossStart : List (Label Request Outcome) :=
  [.request (.start false), .run 0 starting, .run 0 starting, .run 0 starting,
    .request .stop, .run 1 starting, .run 1 starting,
    .request (.start false), .run 2 starting, .run 2 starting, .run 2 starting, .run 2 starting,
    .run 2 starting, .run 2 starting, .run 2 starting,
    .run 1 starting, .run 1 starting]

/-- The first run is orderly, and ends with the second backend entered and
the first shut down; in the second a backend can be lost from where both
requests have looked. -/
theorem at_most_one_backend_in_turn :
    (oneAfterTheOther.foldl program.exec initial).shared.backend = some 1 ∧
      AtMostOne (oneAfterTheOther.foldl program.exec initial).shared ∧
      ∃ t, Runs.Path program.exec (fun _ _ => True)
        ((twoStarts.take 5).foldl program.exec initial) t ∧ ¬ AtMostOne t.shared := by
  have horderly : Runs.Allowed program.exec Orderly oneAfterTheOther initial := by decide
  refine ⟨by decide, ?_, ?_⟩
  · exact (at_most_one_backend _).1 (Runs.Path.append .refl horderly)
  · exact (at_most_one_backend _).2 1 false (.of_foldl _ fun _ _ _ => trivial) (by decide)
      (by decide)

instance decidableLost (g : Shared) (b : ℕ) : Decidable (Lost g b) :=
  inferInstanceAs (Decidable (_ ∧ _))

/-- **With every request answered a backend is lost**: the first of two
started at once, and one a `Stop` of its predecessor has cleared. -/
theorem backend_lost :
    ((twoStarts.foldl program.exec initial).threads = [.returned, .returned] ∧
      Lost (twoStarts.foldl program.exec initial).shared 0 ∧
      ¬ AtMostOne (twoStarts.foldl program.exec initial).shared) ∧
    (stopAcrossStart.foldl program.exec initial).threads = [.returned, .returned, .returned] ∧
      Lost (stopAcrossStart.foldl program.exec initial).shared 1 ∧
      ¬ AtMostOne (stopAcrossStart.foldl program.exec initial).shared := by
  have htwo : Lost (twoStarts.foldl program.exec initial).shared 0 := by decide
  have hstop : Lost (stopAcrossStart.foldl program.exec initial).shared 1 := by decide
  exact ⟨⟨by decide, htwo, htwo.not_atMostOne⟩, by decide, hstop, hstop.not_atMostOne⟩

end NodeAgent.Lifecycle
