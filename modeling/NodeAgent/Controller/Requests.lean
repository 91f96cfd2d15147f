import NodeAgent.Controller.Helpers.Chunks
import NodeAgent.Controller.Lifecycle
import NodeAgent.Controller.Model.Requests
/-!
# Whether a request can find its backend gone

The middleware lets a request through when there is a backend, but the
handler asks the controller for it again, before each of its calls. A
`Disconnect` that clears the field in between leaves it a nil one.

That is the only way. While no `Disconnect` clears the field under a
request that may still call, every call finds a backend.
-/

namespace NodeAgent.Serving

open Threads
open Lifecycle (Shared)

variable {s : State Shared Thread} {g : Shared} {l m : Thread} {h : Handler} {i : Input}
variable {k j : ℕ}

/-- The chunks received make a call. -/
def Assembles (r : ChunksReceived) : Prop :=
  ∃ turns update, callBackend id turns r = some (.ok update)

/-- They do if every index up to that of the last chunk is there, with a
user under one of them. -/
theorem assembles_iff (r : ChunksReceived) :
    Assembles r ↔ r.sawLast = true ∧ r.lastIndex.toNat + 1 < 2 ^ 64 ∧
      (∀ k ≤ r.lastIndex.toNat, r.chunks.lookup (UInt64.ofNat k) ≠ none) ∧
      between r.chunks 0 (r.lastIndex.toNat + 1) ≠ [] := by
  have hcall : Assembles r ↔ ∃ users turns,
      buildUsersFromChunks turns r.chunks r.lastIndex r.sawLast = some (.ok users) := by
    constructor
    · rintro ⟨turns, update, h⟩
      unfold callBackend at h
      split at h
      · cases h
      · cases h
      · next users hbuild => exact ⟨users, turns, hbuild⟩
    · rintro ⟨users, turns, hbuild⟩
      exact ⟨turns, updateBackend users, by rw [callBackend, hbuild]⟩
  rw [hcall]
  cases hsaw : r.sawLast with
  | false => simp [buildUsersFromChunks]
  | true =>
    simp only [buildUsersFromChunks_ok_iff, true_and]
    constructor
    · rintro ⟨users, hwrap, hall, hne, rfl⟩
      exact ⟨hwrap, hall, hne⟩
    · rintro ⟨hwrap, hall, hne⟩
      exact ⟨_, hwrap, hall, hne, rfl⟩

/-- The handler may still call the backend. -/
def Handler.MayCall : Handler → Prop
  | .syncUser _ => True
  | .syncUsers => True
  | .receiving _ => True
  | .assembling r => Assembles r
  | .call _ => True
  | .nilCall => False
  | .returned => False

/-- **A request for a sync that has found a backend, and may still call
it.** -/
def Thread.InFlight : Thread → Prop
  | .lifecycle _ => False
  | .check _ => False
  | .started m => m ≠ .stop
  | .handler h => h.MayCall

/-- `Disconnect` is about to clear `c.backend`. -/
def Thread.clearing : Thread → Bool
  | .lifecycle (.clear _ _) => true
  | _ => false

/-- **A step that is not the clearing of the field under a request in
flight.** -/
def Spares (s : State Shared Thread) : Label Request Input → Prop
  | .request _ => True
  | .run k _ => ∀ l ∈ s.threads[k]?, l.clearing = true → ∀ m ∈ s.threads, ¬ m.InFlight

/-! ## What the steps do -/

theorem backend_lifecycle {l : Lifecycle.Thread} (o : Lifecycle.Outcome)
    (hl : (Thread.lifecycle l).clearing = false) (hb : g.backend ≠ none) :
    (Lifecycle.step g l o).1.backend ≠ none := by
  have hd := Lifecycle.step_does g l o
  generalize (Lifecycle.step g l o).1 = g' at hd ⊢
  generalize (Lifecycle.step g l o).2.1 = l' at hd
  cases hd with
  | idle hbackend =>
    rw [hbackend]
    exact hb
  | readNone => exact hb
  | readSome => exact hb
  | shutdown => exact hb
  | clear b caller => cases hl
  | start => exact Option.some_ne_none _

theorem backend_step (l : Thread) (i : Input) (hl : l.clearing = false)
    (hb : g.backend ≠ none) : (step g l i).1.backend ≠ none := by
  cases l with
  | lifecycle l => exact backend_lifecycle i.outcome hl hb
  | check m =>
    simp only [step]
    split
    · exact hb
    · exact hb
  | started m => exact hb
  | handler h => exact hb

theorem Method.ne_stop_of_enter {m : Method} (hm : m.enter.InFlight) : m ≠ .stop := by
  rintro rfl
  exact hm

theorem Method.enter_ne (m : Method) : m.enter ≠ .handler .nilCall := by
  cases m <;> exact fun h => by cases h

theorem Handler.mayCall_of_step (hh : (h.step g i).MayCall) : h.MayCall := by
  cases h with
  | assembling r =>
    simp only [step] at hh
    split at hh
    · exact hh
    · exact hh.elim
    · next update hcall => exact ⟨i.turns, update, hcall⟩
  | nilCall => exact hh
  | returned => exact hh
  | _ => trivial

theorem Handler.step_ne (hh : h ≠ .nilCall) (hb : h.MayCall → g.backend ≠ none) :
    h.step g i ≠ .nilCall := by
  intro hnil
  cases h with
  | syncUser t =>
    simp only [step] at hnil
    split at hnil
    · cases hnil
    · split_ifs at hnil
  | syncUsers =>
    simp only [step] at hnil
    split at hnil <;> cases hnil
  | receiving r =>
    simp only [step] at hnil
    split at hnil
    · split_ifs at hnil
    · cases hnil
    · cases hnil
    · cases hnil
  | assembling r =>
    simp only [step] at hnil
    split at hnil <;> cases hnil
  | call c =>
    simp only [step] at hnil
    split at hnil
    · next hnone => exact hb trivial hnone
    · split_ifs at hnil
      cases c with
      | syncUser t user => cases t <;> cases hnil
      | syncUsers users => cases hnil
      | update u => cases hnil
  | nilCall => exact hh rfl
  | returned => cases hnil

/-! ## Runs that spare the requests in flight -/

/-- A request in flight has a backend. -/
structure Served (k : ℕ) (g : Shared) (l : Thread) : Prop where
  backend : l.InFlight → g.backend ≠ none
  called : l ≠ .handler .nilCall

theorem served_lifecycle (l : Lifecycle.Thread) : Served k g (.lifecycle l) :=
  ⟨False.elim, fun h => by cases h⟩

theorem served_returned : Served k g (.handler .returned) :=
  ⟨False.elim, fun h => by cases h⟩

theorem Served.own (hl : Served k g l) (i : Input) :
    Served k (step g l i).1 (step g l i).2.1 := by
  cases l with
  | lifecycle l => exact served_lifecycle _
  | check m =>
    simp only [step]
    split
    · exact served_returned
    · next hb => exact ⟨fun _ => hb ▸ Option.some_ne_none _, fun h => by cases h⟩
  | started m =>
    simp only [step]
    split_ifs
    · exact ⟨fun hm => hl.backend (Method.ne_stop_of_enter hm), m.enter_ne⟩
    · exact served_returned
  | handler h =>
    have hne : h ≠ .nilCall := fun heq => hl.called (congrArg _ heq)
    refine ⟨fun hh => hl.backend (Handler.mayCall_of_step hh), fun heq => ?_⟩
    exact Handler.step_ne hne hl.backend (Thread.handler.inj heq)

theorem Served.started (g g' : Shared) (l : Thread) (i : Input) :
    ∀ m ∈ (step g l i).2.2, Served j g' m := by
  intro m hm
  cases l with
  | lifecycle l =>
    obtain ⟨l', -, rfl⟩ := List.mem_map.1 hm
    exact served_lifecycle l'
  | check m' =>
    simp only [step] at hm
    split at hm <;> cases hm
  | started m' => cases hm
  | handler h => cases hm

theorem outline_served : program.Outline Spares (fun _ => True) Served where
  request := fun _ i _ _ => by
    cases i with
    | start keepAlive => exact served_lifecycle _
    | call m => exact ⟨False.elim, fun h => by cases h⟩
  shared := fun _ _ _ _ _ _ _ _ => trivial
  own := fun _ _ _ i _ _ _ hl => hl.own i
  started := fun _ _ l i _ _ _ _ m hm _ => Served.started _ _ l i m hm
  others := fun s k l i j m hk hok _ _ hj _ hm => by
    refine ⟨fun hflight => ?_, hm.called⟩
    refine backend_step l i ?_ (hm.backend hflight)
    -- the field is not cleared while `m` is in flight
    exact Bool.eq_false_iff.2 fun hl => hok l hk hl m (List.mem_of_getElem? hj) hflight

/-! ## Runs that do not -/

/-- A request in flight can come to its call by itself. -/
def Reaches (j : ℕ) (s : State Shared Thread) : Prop :=
  ∃ es : List (Label Request Input),
    (es.foldl program.exec s).threads[j]? = some (.handler .nilCall)

/-- The shared state, and what thread `j` does next. -/
def At (s : State Shared Thread) (g : Shared) (j : ℕ) (l : Thread) : Prop :=
  s.shared = g ∧ s.threads[j]? = some l

theorem Reaches.of_exec {e : Label Request Input} (h : Reaches j (program.exec s e)) :
    Reaches j s := by
  obtain ⟨es, hes⟩ := h
  exact ⟨e :: es, hes⟩

theorem At.run (hs : At s g j l) (i : Input) :
    At (program.exec s (.run j i)) (step g l i).1 j (step g l i).2.1 := by
  obtain ⟨rfl, hj⟩ := hs
  refine ⟨?_, getElem?_exec_self hj i⟩
  rw [exec_run hj]
  rfl

/-- A step in which the surroundings let a request go on: there is a user,
the users, a chunk that is all of a list, and turns enough. -/
def onward (turns : ℕ) : Input where
  outcome := Lifecycle.starting
  started := true
  user := some ⟨"user", none, []⟩
  users := some []
  turn := .chunk ⟨[⟨"user", none, []⟩], 0, true⟩
  turns := turns
  accepts := true

theorem reaches_call {c : Call} (hs : At s g j (.handler (.call c))) (hb : g.backend = none) :
    Reaches j s := by
  have hnext := (hs.run (onward 0)).2
  simp only [step, Handler.step, hb] at hnext
  exact ⟨[.run j (onward 0)], hnext⟩

theorem reaches_assembling {r : ChunksReceived} (hs : At s g j (.handler (.assembling r)))
    (hb : g.backend = none) (hr : Assembles r) : Reaches j s := by
  obtain ⟨turns, update, hcall⟩ := hr
  have hnext := hs.run (onward turns)
  have hstep : Handler.step g (onward turns) (.assembling r) = .call (.update update) := by
    simp only [Handler.step, onward, hcall]
  simp only [step, hstep] at hnext
  exact .of_exec (reaches_call hnext hb)

theorem assembles_add (r : ChunksReceived) (u : User) : Assembles (r.add ⟨[u], 0, true⟩) := by
  have hzero : (r.add ⟨[u], 0, true⟩).chunks.lookup (UInt64.ofNat 0) =
      some ((r.chunks.lookup 0).getD [] ++ [u]) := by
    simp [ChunksReceived.add]
  have hwrap : (0 : UInt64).toNat + 1 < 2 ^ 64 := by decide
  refine (assembles_iff _).2 ⟨rfl, hwrap, fun k hk => ?_, ?_⟩
  · obtain rfl : k = 0 := Nat.le_zero.1 hk
    rw [hzero]
    exact Option.some_ne_none _
  · show between (r.add ⟨[u], 0, true⟩).chunks 0 1 ≠ []
    rw [between_succ, hzero]
    simp

theorem reaches_handler (hs : At s g j (.handler h)) (hb : g.backend = none) (hh : h.MayCall) :
    Reaches j s := by
  cases h with
  | syncUser t =>
    have hnext := hs.run (onward 0)
    have hstep : Handler.step g (onward 0) (.syncUser t) =
        .call (.syncUser t ⟨"user", none, []⟩) := rfl
    simp only [step, hstep] at hnext
    exact .of_exec (reaches_call hnext hb)
  | syncUsers => exact .of_exec (reaches_call (hs.run (onward 0)) hb)
  | receiving r =>
    exact .of_exec (reaches_assembling (hs.run (onward 0)) hb (assembles_add r _))
  | assembling r => exact reaches_assembling hs hb hh
  | call c => exact reaches_call hs hb
  | nilCall => exact hh.elim
  | returned => exact hh.elim

theorem reaches_inFlight (hs : At s g j l) (hb : g.backend = none) (hl : l.InFlight) :
    Reaches j s := by
  cases l with
  | lifecycle l => exact hl.elim
  | check m => exact hl.elim
  | started m =>
    have hnext := hs.run (onward 0)
    have henter : (step g (.started m) (onward 0)).2.1 = m.enter := rfl
    rw [henter] at hnext
    refine .of_exec (e := .run j (onward 0)) ?_
    cases m with
    | stop => exact absurd rfl hl
    | syncUser t => exact reaches_handler hnext hb trivial
    | rpcSyncUsers users => exact reaches_handler hnext hb trivial
    | restSyncUsers => exact reaches_handler hnext hb trivial
    | syncUsersChunked => exact reaches_handler hnext hb trivial
  | handler h => exact reaches_handler hs hb hl

/-- **The field cleared under a request in flight.** -/
theorem reaches_of_clearing (hk : s.threads[k]? = some m) (hm : m.clearing = true)
    (hj : s.threads[j]? = some l) (hl : l.InFlight) : Reaches j s := by
  have hne : j ≠ k := by
    rintro rfl
    rw [hk] at hj
    obtain rfl := Option.some.inj hj
    cases m with
    | lifecycle => exact hl
    | _ => cases hm
  have hcleared : (step s.shared m (onward 0)).1.backend = none := by
    unfold Thread.clearing at hm
    split at hm
    · rfl
    · cases hm
  refine .of_exec (e := .run k (onward 0)) (reaches_inFlight ⟨rfl, ?_⟩ ?_ hl)
  · exact getElem?_exec_ne hk hj hne (onward 0)
  · rw [exec_run hk]
    exact hcleared

/-- **When no request finds its backend gone.** In every run in which no
`Disconnect` clears the field while a request for a sync that has found a
backend may still call it, no method is called on a nil backend. From
every other state in which a `Disconnect` is about to clear the field, a
run goes on to such a call. -/
theorem no_nil_call (s : State Shared Thread) :
    (Runs.Path program.exec Spares initial s → ∀ l ∈ s.threads, l ≠ .handler .nilCall) ∧
      ((∃ m ∈ s.threads, m.clearing = true) → (∃ l ∈ s.threads, l.InFlight) →
        ∃ t, Runs.Path program.exec (fun _ _ => True) s t ∧ .handler .nilCall ∈ t.threads) := by
  constructor
  · intro hpath l hl
    obtain ⟨j, hj⟩ := List.mem_iff_getElem?.1 hl
    have hstart : Holds (fun _ => True) Served initial := ⟨trivial, fun _ _ h => (nomatch h)⟩
    exact ((outline_served.path hpath hstart).own j l hj).called
  · rintro ⟨m, hmem, hm⟩ ⟨l, hlmem, hl⟩
    obtain ⟨k, hk⟩ := List.mem_iff_getElem?.1 hmem
    obtain ⟨j, hj⟩ := List.mem_iff_getElem?.1 hlmem
    obtain ⟨es, hes⟩ := reaches_of_clearing hk hm hj hl
    exact ⟨_, .of_foldl es fun _ _ _ => trivial, List.mem_of_getElem? hes⟩

/-! ## Runs -/

instance decidableAssembles (r : ChunksReceived) : Decidable (Assembles r) :=
  decidable_of_iff _ (assembles_iff r).symm

instance decidableMayCall : (h : Handler) → Decidable h.MayCall
  | .syncUser _ => inferInstanceAs (Decidable True)
  | .syncUsers => inferInstanceAs (Decidable True)
  | .receiving _ => inferInstanceAs (Decidable True)
  | .assembling r => inferInstanceAs (Decidable (Assembles r))
  | .call _ => inferInstanceAs (Decidable True)
  | .nilCall => inferInstanceAs (Decidable False)
  | .returned => inferInstanceAs (Decidable False)

instance decidableInFlight : (l : Thread) → Decidable l.InFlight
  | .lifecycle _ => instDecidableFalse
  | .check _ => instDecidableFalse
  | .started m =>
    match m with
    | .stop => isFalse fun h => h rfl
    | .syncUser _ => isTrue fun h => by cases h
    | .rpcSyncUsers _ => isTrue fun h => by cases h
    | .restSyncUsers => isTrue fun h => by cases h
    | .syncUsersChunked => isTrue fun h => by cases h
  | .handler h => decidableMayCall h

instance decidableSpares (s : State Shared Thread) :
    (e : Label Request Input) → Decidable (Spares s e)
  | .request _ => inferInstanceAs (Decidable True)
  | .run k _ => inferInstanceAs (Decidable
      (∀ l ∈ s.threads[k]?, l.clearing = true → ∀ m ∈ s.threads, ¬ m.InFlight))

/-- Thread `k` goes on, `n` steps. -/
def goOn (k n : ℕ) : List (Label Request Input) :=
  List.replicate n (.run k (onward 3))

/-- A backend is started. -/
def up : List (Label Request Input) :=
  .request (.start false) :: goOn 0 3

/-- A `Stop`, as thread `k`, up to the clearing of the field. -/
def stopping (k : ℕ) : List (Label Request Input) :=
  .request (.call .stop) :: goOn k 5

/-- A list sent in a chunk is applied, and then there is a `Stop`. -/
def synced : List (Label Request Input) :=
  up ++ .request (.call .syncUsersChunked) :: goOn 1 5 ++ stopping 2 ++ goOn 2 1

/-- A unary call has passed the check when there is a `Stop`. -/
def overtaken : List (Label Request Input) :=
  up ++ .request (.call (.rpcSyncUsers [])) :: goOn 1 2 ++ stopping 2

/-- Of the users of a stream, the first has been applied when there is a
`Stop`. -/
def betweenUsers : List (Label Request Input) :=
  up ++ .request (.call (.syncUser .rpc)) :: goOn 1 4 ++ stopping 2

/-- The first of these runs spares its request; in the second the field is
about to be cleared under one. -/
theorem no_nil_call_synced :
    (∀ l ∈ (synced.foldl program.exec initial).threads, l ≠ .handler .nilCall) ∧
      ∃ t, Runs.Path program.exec (fun _ _ => True) (overtaken.foldl program.exec initial) t ∧
        .handler .nilCall ∈ t.threads := by
  have hspares : Runs.Allowed program.exec Spares synced initial := by decide +kernel
  refine ⟨(no_nil_call _).1 (Runs.Path.append .refl hspares), ?_⟩
  exact (no_nil_call _).2 (by decide +kernel) (by decide +kernel)

/-- **A method is called on a nil backend**: of a unary call that was let
through before a `Stop`, and of a stream whose next user comes after
it. -/
theorem nil_call :
    .handler .nilCall ∈ ((overtaken ++ goOn 2 1 ++ goOn 1 1).foldl program.exec initial).threads ∧
      .handler .nilCall ∈
        ((betweenUsers ++ goOn 2 1 ++ goOn 1 2).foldl program.exec initial).threads := by
  have hunary : ((overtaken ++ goOn 2 1 ++ goOn 1 1).foldl program.exec initial).threads[1]? =
      some (.handler .nilCall) := rfl
  have hstream : ((betweenUsers ++ goOn 2 1 ++ goOn 1 2).foldl program.exec
      initial).threads[1]? = some (.handler .nilCall) := rfl
  exact ⟨List.mem_of_getElem? hunary, List.mem_of_getElem? hstream⟩

end NodeAgent.Serving
