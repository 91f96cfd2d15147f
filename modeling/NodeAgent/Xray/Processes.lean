import Mathlib.Data.List.Nodup
import NodeAgent.Xray.Model.Process
/-!
# What is read of a process, and who is killed for it

The state, the parent and the group of a process are taken from its `stat`
line by position, after cutting it at white space. They are the right ones
whatever the process is, unless its name has white space in it: such a name
takes up more than one field, and what follows is read from the name. With
the group right, the signals to it stay in it, but for a group numbered
`1`, where the signal goes to everybody, and for a process that has no
group left, where it goes to the first process.
-/

namespace NodeAgent

namespace Unix

open Fields

variable {σ : Type} {os : Os σ} {s : σ} {T : TaskTable} {t q : Task}

/-- **The system is read right about a process**: its state, its group, its
parent; a cleanup kills it only if it is the node's or a zombie without a
parent; and killing it signals nobody outside of its group. -/
structure Os.ReadsRight (os : Os σ) (s : σ) (T : TaskTable) (t : Task) : Prop where
  zombie : os.isProcessZombie s t.pid = decide (t.state = .zombie)
  group : os.getProcessGroupID s t.pid = .ok t.pgrp
  /-- Nothing else is said of it, -/
  listed : ∀ absPath infos, os.findXrayProcessesFromProc s absPath = .ok infos →
    ∀ info ∈ infos, info.pid = t.pid → info = t.info
  /-- and that much is where it runs the executable. -/
  found : ∀ absPath entries name exePath, os.readDir s = some entries → (name, true) ∈ entries →
    atoi name = some t.pid → os.readlink s t.pid = some exePath →
    os.pathsMatch s exePath absPath = true →
    ∃ infos, os.findXrayProcessesFromProc s absPath = .ok infos ∧ t.info ∈ infos
  cleaned : ∀ executablePath currentPID done,
    os.cleanupOrphanedProcesses s executablePath currentPID = .ok done → t.pid ∈ done.targets →
    t.ppid = os.getpid ∨ t.state = .zombie ∧ (t.ppid = 0 ∨ t.ppid = 1)
  /-- The state is the one `killProcessTree` has come to when it reads the
  group. -/
  signalled : ∀ s₀, (os.kill s₀ t.pid .term).1 = s →
    ∀ x ∈ (os.killProcessTree s₀ t.pid).sent, ∀ q ∈ T.tasks, os.Reaches T x.1 q →
    q.pgrp = t.pgrp

/-! ## The line of a process -/

/-- The name in its parentheses. -/
def Comm.field (c : Comm) : List UInt8 :=
  0x28 :: c.bytes ++ [0x29]

theorem visible_letter (state : TaskState) : Visible state.letter := by
  cases state <;> decide

theorem zombieText_letter (state : TaskState) :
    zombieText [state.letter] = decide (state = .zombie) := by
  cases state <;> decide

/-- **Every field of the line is what it should be, but for the name.** -/
theorem Task.fields_statLine (t : Task) :
    fields space t.statLine = itoa t.pid :: (fields space t.comm.field ++
      [t.state.letter] :: itoa t.ppid :: itoa t.pgrp :: fields space t.rest) := by
  have hnumber : ∀ n, fields space (itoa n) = [itoa n] :=
    fun n => fields_of_visible visible_of_mem_itoa (itoa_ne_nil n)
  have hletter : fields space [t.state.letter] = [[t.state.letter]] :=
    fields_of_visible (by simpa using visible_letter t.state) (List.cons_ne_nil _ _)
  simp only [Task.statLine, fields_blank, hnumber, hletter, Comm.field]
  simp

theorem Comm.field_of_whole {c : Comm} (h : Whole space c.bytes) :
    fields space c.field = [c.field] :=
  fields_of_whole (h.wrap (Visible.notMem (by decide)) (Visible.notMem (by decide)))
    (List.cons_ne_nil _ _)

theorem Comm.field_of_not_whole {c : Comm} (h : ¬ Whole space c.bytes) :
    ∃ f g more, fields space c.field = f :: g :: more := by
  have hlen := two_le_length_fields (Visible.notMem (by decide : Visible 0x28))
    (Visible.notMem (by decide : Visible 0x29)) h
  change 2 ≤ (fields space c.field).length at hlen
  match hfields : fields space c.field, hlen with
  | f :: g :: more, _ => exact ⟨f, g, more, rfl⟩

theorem atoi_itoa_of_range {n : ℤ} (h : -1 ≤ n ∧ n ≤ pidMax) : atoi (itoa n) = some n := by
  have hmax : pidMax = 4194304 := rfl
  exact atoi_itoa (by omega) (by omega)

/-! ## Entries of `/proc` -/

variable {info : ProcessInfo} {pid : ℤ}

theorem pid_of_statInfo {data : List UInt8}
    (h : Os.statInfo pid data = some info) : info.pid = pid := by
  rw [Os.statInfo] at h
  split at h
  · obtain ⟨ppid, -, rfl⟩ := Option.map_eq_some_iff.1 h
    rfl
  · cases h

theorem Os.procEntry_some {absPath : List UInt8} {entry : List UInt8 × Bool}
    (h : os.procEntry s absPath entry = some info) :
    ∃ data, os.readStat s info.pid = some data ∧ Os.statInfo info.pid data = some info := by
  rw [Os.procEntry] at h
  split_ifs at h
  split at h
  · cases h
  split_ifs at h
  split at h
  · cases h
  split_ifs at h
  split at h
  · cases h
  · next hstat =>
      rw [pid_of_statInfo h]
      exact ⟨_, hstat, h⟩

theorem Os.procEntry_of_stat {absPath name exePath data : List UInt8} (hpid : 0 < pid)
    (hname : atoi name = some pid) (hexe : os.readlink s pid = some exePath)
    (hsame : os.pathsMatch s exePath absPath = true) (hdata : os.readStat s pid = some data) :
    os.procEntry s absPath (name, true) = Os.statInfo pid data := by
  have hpos : ¬ pid ≤ 0 := Int.not_le.2 hpid
  simp only [Os.procEntry, hname, hexe, hsame, hdata, Bool.not_true, Bool.false_eq_true, if_false,
    if_neg hpos]

theorem Os.targets_foldl (currentPID : ℤ) (processes : List ProcessInfo) (done : Os.Cleanup σ) :
    (processes.foldl (os.cleanupOne currentPID) done).targets =
      done.targets ++ (processes.filter (os.orphaned currentPID)).map ProcessInfo.pid := by
  induction processes generalizing done with
  | nil => simp
  | cons info rest ih =>
    rw [List.foldl_cons, ih, Os.cleanupOne]
    cases horphan : os.orphaned currentPID info with
    | false => simp [horphan]
    | true => simp [horphan]

/-- Every signal of a cleanup is for one of its targets. -/
def Os.Cleanup.Owned (os : Os σ) (done : Os.Cleanup σ) : Prop :=
  ∀ x ∈ done.sent, ∃ pid ∈ done.targets, ∃ s₀, x ∈ (os.killProcessTree s₀ pid).sent

variable {done : Os.Cleanup σ}

theorem Os.Cleanup.Owned.cleanupOne (h : done.Owned os) (currentPID : ℤ)
    (info : ProcessInfo) : (os.cleanupOne currentPID done info).Owned os := by
  rw [Os.cleanupOne]
  split_ifs
  · intro x hx
    rcases List.mem_append.1 hx with hbefore | hnow
    · obtain ⟨pid, hpid, hsent⟩ := h x hbefore
      exact ⟨pid, List.mem_append_left _ hpid, hsent⟩
    · exact ⟨info.pid, by simp, done.state, hnow⟩
  · exact h

theorem Os.Cleanup.Owned.foldl (h : done.Owned os) (currentPID : ℤ) (processes : List ProcessInfo) :
    (processes.foldl (os.cleanupOne currentPID) done).Owned os := by
  induction processes generalizing done with
  | nil => exact h
  | cons info rest ih => exact ih (h.cleanupOne currentPID info)

variable {executablePath : List UInt8} {currentPID : ℤ}

theorem Os.owned_of_cleanup
    (h : os.cleanupOrphanedProcesses s executablePath currentPID = .ok done) : done.Owned os := by
  rw [Os.cleanupOrphanedProcesses] at h
  split at h
  · cases h
  · rw [← Except.ok.inj h]
    have hstart : (⟨s, [], []⟩ : Os.Cleanup σ).Owned os := fun x hx => by cases hx
    exact hstart.foldl currentPID _

theorem Os.exists_orphaned (hlinux : os.linux = true) (hdir : os.readDir s ≠ none)
    (h : os.cleanupOrphanedProcesses s executablePath currentPID = .ok done)
    (hpid : pid ∈ done.targets) :
    ∃ absPath infos info, os.findXrayProcessesFromProc s absPath = .ok infos ∧ info ∈ infos ∧
      info.pid = pid ∧ os.orphaned currentPID info = true := by
  obtain ⟨entries, hentries⟩ := Option.ne_none_iff_exists'.1 hdir
  rw [Os.cleanupOrphanedProcesses, Os.findXrayProcesses] at h
  cases habs : os.abs executablePath with
  | none =>
    rw [habs] at h
    cases h
  | some absPath =>
    have hproc : os.findXrayProcessesFromProc s absPath =
        .ok (entries.filterMap (os.procEntry s absPath)) := by
      rw [Os.findXrayProcessesFromProc, hentries]
    simp only [habs, hlinux, if_true, hproc, Except.ok.injEq] at h
    rw [← h, Os.targets_foldl, List.nil_append] at hpid
    obtain ⟨info, hmem, rfl⟩ := List.mem_map.1 hpid
    rw [List.mem_filter] at hmem
    exact ⟨absPath, _, info, hproc, hmem.1, rfl, hmem.2⟩

theorem Os.of_orphaned (h : os.orphaned currentPID t.info = true) :
    t.ppid = os.getpid ∨ t.state = .zombie ∧ (t.ppid = 0 ∨ t.ppid = 1) := by
  rw [Os.orphaned] at h
  split_ifs at h with hcurrent hzombie
  · rw [Bool.and_eq_true, Bool.or_eq_true, decide_eq_true_eq, decide_eq_true_eq] at hzombie
    exact Or.inr ⟨of_decide_eq_true hzombie.1, hzombie.2⟩
  · exact Or.inl (of_decide_eq_true h)

variable {x : ℤ × Signal}

theorem Os.mem_sent (h : x ∈ (os.killProcessTree s pid).sent) :
    x.1 = pid ∨ ∃ pgid, os.getProcessGroupID (os.kill s pid .term).1 pid = .ok pgid ∧
      pgid ≠ 0 ∧ x.1 = -pgid := by
  simp only [Os.killProcessTree, List.mem_cons, List.mem_append, List.not_mem_nil, or_false] at h
  rcases h with rfl | hgroup | rfl
  · exact Or.inl rfl
  · right
    cases hpgid : os.getProcessGroupID (os.kill s pid .term).1 pid with
    | error err => simp [hpgid] at hgroup
    | ok pgid =>
      simp only [hpgid] at hgroup
      split_ifs at hgroup with hzero
      · refine ⟨pgid, rfl, hzero, ?_⟩
        simp only [List.mem_cons, List.not_mem_nil, or_false] at hgroup
        rcases hgroup with rfl | rfl <;> rfl
      · cases hgroup
  · exact Or.inl rfl

/-! ## Reading it, where the name is one field -/

section Named

variable (hshow : os.Shows s T) (ht : t ∈ T.tasks) (hname : Whole space t.comm.bytes)
include hshow ht hname

theorem Os.Shows.isProcessZombie :
    os.isProcessZombie s t.pid = decide (t.state = .zombie) := by
  rw [Os.isProcessZombie, hshow.readStat t ht]
  simp only [t.fields_statLine, Comm.field_of_whole hname, List.singleton_append,
    zombieText_letter]

theorem Os.Shows.getProcessGroupID : os.getProcessGroupID s t.pid = .ok t.pgrp := by
  rw [Os.getProcessGroupID, hshow.readStat t ht]
  simp only [t.fields_statLine, Comm.field_of_whole hname, List.singleton_append,
    atoi_itoa_of_range t.pgrp_range]

omit hshow ht in
theorem statInfo_statLine : Os.statInfo t.pid t.statLine = some t.info := by
  have hparent : atoi (itoa t.ppid) = some t.ppid := by
    have hrange := t.ppid_range
    exact atoi_itoa_of_range ⟨by omega, hrange.2⟩
  simp only [Os.statInfo, t.fields_statLine, Comm.field_of_whole hname, List.singleton_append,
    hparent, Option.map_some, zombieText_letter]
  rfl

theorem Os.Shows.info_eq {absPath : List UInt8} {infos : List ProcessInfo}
    (h : os.findXrayProcessesFromProc s absPath = .ok infos) (hmem : info ∈ infos)
    (hpid : info.pid = t.pid) : info = t.info := by
  rw [Os.findXrayProcessesFromProc] at h
  split at h
  · cases h
  · obtain rfl := Except.ok.inj h
    obtain ⟨entry, -, hentry⟩ := List.mem_filterMap.1 hmem
    obtain ⟨data, hdata, hinfo⟩ := Os.procEntry_some hentry
    rw [hpid] at hdata hinfo
    obtain rfl : t.statLine = data := Option.some.inj ((hshow.readStat t ht).symm.trans hdata)
    exact Option.some.inj (hinfo.symm.trans (statInfo_statLine hname))

theorem Os.Shows.pgrp_of_reaches (hgroup : t.pgrp ≠ 1 ∧ t.pgrp ≠ -1) {s₀ : σ}
    (hkill : (os.kill s₀ t.pid .term).1 = s)
    (hx : x ∈ (os.killProcessTree s₀ t.pid).sent) (hq : q ∈ T.tasks)
    (hreach : os.Reaches T x.1 q) : q.pgrp = t.pgrp := by
  rw [Os.Reaches] at hreach
  rcases Os.mem_sent hx with hself | ⟨pgid, hpgid, hzero, hneg⟩
  · rw [hself, if_pos t.pid_range.1] at hreach
    rw [List.inj_on_of_nodup_map T.nodup hq ht hreach]
  · rw [hkill] at hpgid
    obtain rfl : t.pgrp = pgid :=
      Except.ok.inj ((hshow.getProcessGroupID ht hname).symm.trans hpgid)
    have hrange := t.pgrp_range
    rw [hneg, if_neg (by omega), if_neg (by omega), if_neg (by omega), Int.neg_neg] at hreach
    exact hreach

/-- **A process with such a name, and a group of its own, is read
right.** -/
theorem Os.Shows.readsRight (hgroup : t.pgrp ≠ 1 ∧ t.pgrp ≠ -1) : os.ReadsRight s T t where
  zombie := hshow.isProcessZombie ht hname
  group := hshow.getProcessGroupID ht hname
  listed _ _ h info hmem hpid := hshow.info_eq ht hname h hmem hpid
  found absPath entries name exePath hentries hmem hpid hexe hsame := by
    refine ⟨_, by rw [Os.findXrayProcessesFromProc, hentries], List.mem_filterMap.2 ⟨_, hmem, ?_⟩⟩
    rw [Os.procEntry_of_stat t.pid_range.1 hpid hexe hsame (hshow.readStat t ht),
      statInfo_statLine hname]
  cleaned executablePath currentPID done hdone hmem := by
    obtain ⟨absPath, infos, info, hinfos, hinfo, hpid, horphan⟩ :=
      Os.exists_orphaned hshow.linux hshow.readDir hdone hmem
    rw [hshow.info_eq ht hname hinfos hinfo hpid] at horphan
    exact Os.of_orphaned horphan
  signalled _ hkill _ hx _ hq hreach := hshow.pgrp_of_reaches ht hname hgroup hkill hx hq hreach

end Named

/-- **A whole cleanup**, where every name is one field and every group its
own: each signal is for a process that was the node's or a zombie without a
parent when it was found, and reaches only the group that this process has
when the signal is sent. -/
theorem cleanup_confined {tables : σ → TaskTable} (hshow : ∀ s, os.Shows s (tables s))
    (hplain : ∀ s, ∀ t ∈ (tables s).tasks,
      Whole space t.comm.bytes ∧ t.pgrp ≠ 1 ∧ t.pgrp ≠ -1)
    (hdone : os.cleanupOrphanedProcesses s executablePath currentPID = .ok done)
    (hx : x ∈ done.sent) :
    ∃ pid ∈ done.targets,
      (∀ t ∈ (tables s).tasks, t.pid = pid →
        t.ppid = os.getpid ∨ t.state = .zombie ∧ (t.ppid = 0 ∨ t.ppid = 1)) ∧
      ∃ now, ∀ t ∈ (tables now).tasks, t.pid = pid →
        ∀ q ∈ (tables now).tasks, os.Reaches (tables now) x.1 q → q.pgrp = t.pgrp := by
  obtain ⟨pid, hpid, s₀, hsent⟩ := Os.owned_of_cleanup hdone x hx
  have hright : ∀ s, ∀ t ∈ (tables s).tasks, os.ReadsRight s (tables s) t :=
    fun s t ht => (hshow s).readsRight ht (hplain s t ht).1 (hplain s t ht).2
  refine ⟨pid, hpid, ?_, (os.kill s₀ pid .term).1, ?_⟩
  · rintro t ht rfl
    exact (hright s t ht).cleaned _ _ _ hdone hpid
  · rintro t ht rfl q hq hreach
    exact (hright _ t ht).signalled s₀ rfl x hsent q hq hreach

/-! ## Reading it, where it is not -/

/-- A system that shows a table of processes, and where every signal is
taken. -/
def showing (node : ℤ) (exe : ℤ → Option (List UInt8)) (T : TaskTable) : Os Unit where
  linux := true
  getpid := node
  abs := some
  evalSymlinks _ path := some path
  readDir _ := some (T.tasks.map fun t => (itoa t.pid, true))
  readlink _ := exe
  readStat _ pid := (T.tasks.find? fun t => t.pid = pid).map Task.statLine
  psAll _ := none
  psCommand _ _ := none
  psState _ _ := none
  kill _ _ _ := ((), true)
  sleep := id

theorem shows_showing (node : ℤ) (exe : ℤ → Option (List UInt8)) (T : TaskTable) :
    (showing node exe T).Shows () T where
  linux := rfl
  readDir := Option.some_ne_none _
  readStat t ht := by
    have hfind : (T.tasks.find? fun r => r.pid = t.pid) = some t := by
      cases hfound : T.tasks.find? fun r => r.pid = t.pid with
      | none => simpa using List.find?_eq_none.1 hfound t ht
      | some r =>
        have hpid : r.pid = t.pid := by simpa using List.find?_some hfound
        rw [List.inj_on_of_nodup_map T.nodup (List.mem_of_find?_eq_some hfound) ht hpid]
    show ((T.tasks.find? fun r => r.pid = t.pid).map Task.statLine) = _
    rw [hfind, Option.map_some]

/-- **With white space in the name, what is read of the state is in the
name.** -/
theorem isProcessZombie_of_not_whole (hname : ¬ Whole space t.comm.bytes) :
    ∃ read, ∀ {σ : Type} (os : Os σ) (s : σ) (r : Task), r.comm = t.comm →
      os.readStat s r.pid = some r.statLine → os.isProcessZombie s r.pid = read := by
  obtain ⟨f, g, more, hfields⟩ := Comm.field_of_not_whole hname
  refine ⟨zombieText g, fun os s r hcomm hstat => ?_⟩
  rw [Os.isProcessZombie, hstat]
  simp only [r.fields_statLine, hcomm, hfields, List.cons_append]

theorem mem_sent_of_group {pid pgid : ℤ}
    (h : os.getProcessGroupID (os.kill s pid .term).1 pid = .ok pgid) (hzero : pgid ≠ 0) :
    (-pgid, Signal.term) ∈ (os.killProcessTree s pid).sent := by
  simp [Os.killProcessTree, h, hzero]

/-- A table of one process. -/
def alone (t : Task) : TaskTable :=
  ⟨[t], by simp⟩

/-- A process, with another of another number. -/
def beside (t q : Task) (h : t.pid ≠ q.pid) : TaskTable :=
  ⟨[t, q], by simpa using h⟩

/-- A process in a group of its own. -/
def leader (pid : ℤ) (h : 0 < pid ∧ pid ≤ pidMax) : Task :=
  ⟨pid, ⟨[], by decide, by decide⟩, .sleeping, 0, pid, [], h, by decide, by omega⟩

/-- **A name and a group that are read right**: in every process that has
them, on every system that shows it. -/
def Task.Legible (t₀ : Task) : Prop :=
  ∀ (σ : Type) (os : Os σ) (s : σ) (T : TaskTable), os.Shows s T → ∀ t ∈ T.tasks,
    t.comm = t₀.comm → t.pgrp = t₀.pgrp → os.ReadsRight s T t

/-- Of two processes with white space in their name, one a zombie and one
not, one is read wrong. -/
theorem Task.Legible.whole {t₀ : Task} (h : t₀.Legible) : Whole space t₀.comm.bytes := by
  by_contra hname
  obtain ⟨read, hread⟩ := isProcessZombie_of_not_whole hname
  have hstate : ∀ state : TaskState, read = decide (state = .zombie) := by
    intro state
    let t : Task := { t₀ with state := state }
    have hshow := shows_showing 1 (fun _ => none) (alone t)
    have ht : t ∈ (alone t).tasks := List.mem_singleton_self t
    rw [← hread _ () t rfl (hshow.readStat t ht)]
    exact (h _ _ _ _ hshow t ht rfl rfl).zombie
  have hboth := (hstate .zombie).symm.trans (hstate .sleeping)
  exact absurd hboth (by decide)

/-- The same process under number `2`. -/
def Task.renumbered (t : Task) : Task :=
  { t with pid := 2, pid_range := by decide }

theorem Task.Legible.pgrp_eq {t₀ : Task} (h : t₀.Legible) (hzero : t₀.pgrp ≠ 0) {q : Task}
    (hpid : t₀.renumbered.pid ≠ q.pid)
    (hreach : (showing 5 (fun _ => none) (beside t₀.renumbered q hpid)).Reaches
      (beside t₀.renumbered q hpid) (-t₀.pgrp) q) : q.pgrp = t₀.pgrp := by
  have hshow := shows_showing 5 (fun _ => none) (beside t₀.renumbered q hpid)
  have ht : t₀.renumbered ∈ (beside t₀.renumbered q hpid).tasks := by simp [beside]
  have hq : q ∈ (beside t₀.renumbered q hpid).tasks := by simp [beside]
  have hright := h _ _ _ _ hshow t₀.renumbered ht rfl rfl
  exact hright.signalled () rfl _ (mem_sent_of_group hright.group hzero) q hq hreach

/-- **A process name and a group are read right** exactly if there is no
white space in the name, and the group is neither `1` nor gone. -/
theorem legible_iff (t₀ : Task) :
    t₀.Legible ↔ Whole space t₀.comm.bytes ∧ t₀.pgrp ≠ 1 ∧ t₀.pgrp ≠ -1 := by
  constructor
  · intro h
    refine ⟨h.whole, fun hone => ?_, fun hgone => ?_⟩
    · -- a signal to group 1 reaches everybody
      have hpid : t₀.renumbered.pid ≠ (leader 3 (by decide)).pid := by
        show (2 : ℤ) ≠ 3
        decide
      have hthree := h.pgrp_eq (by omega) hpid (by
        rw [Os.Reaches, hone, if_neg (by decide), if_neg (by decide), if_pos rfl]
        exact ⟨by decide, by show (3 : ℤ) ≠ 5; decide⟩)
      rw [hone] at hthree
      exact absurd hthree (by decide)
    · -- and one to group -1 the first process
      have hpid : t₀.renumbered.pid ≠ (leader 1 (by decide)).pid := by
        show (2 : ℤ) ≠ 1
        decide
      have hfirst := h.pgrp_eq (by omega) hpid (by
        rw [Os.Reaches, hgone, if_pos (by decide)]
        rfl)
      rw [hgone] at hfirst
      exact absurd hfirst (by decide)
  · rintro ⟨hname, hgroup⟩ σ os s T hshow t ht hcomm hpgrp
    rw [← hcomm] at hname
    rw [← hpgrp] at hgroup
    exact hshow.readsRight ht hname hgroup

/-- The executable, `/x`. -/
def exampleExe : List UInt8 := [0x2F, 0x78]

/-- A sleeping process named `x Z 1 7 y`, of parent `500` and group
`900`. -/
def shifted : Task :=
  ⟨4321, ⟨[0x78, 0x20, 0x5A, 0x20, 0x31, 0x20, 0x37, 0x20, 0x79], by decide, by decide⟩,
    .sleeping, 500, 900, [0x39], by decide, by decide, by decide⟩

/-- It, and a process of group `7` that has nothing to do with it. -/
def shiftedTable : TaskTable :=
  beside shifted (leader 7 (by decide)) (by decide)

/-- The node is process `100`, and the executable runs in the first of the
two. -/
def shiftedOs : Os Unit :=
  showing 100 (fun pid => if pid = 4321 then some exampleExe else none) shiftedTable

/-- **A name that is read for a state, a parent and a group**: the process
is taken for a zombie without a parent and killed, and all of group `7`
with it. -/
theorem fields_shifted :
    shiftedOs.Shows () shiftedTable ∧ shifted ∈ shiftedTable.tasks ∧
      shiftedOs.isProcessZombie () 4321 = true ∧
      shiftedOs.getProcessGroupID () 4321 = .ok 7 ∧
      shiftedOs.findXrayProcessesFromProc () exampleExe = .ok [⟨4321, 1, true⟩] ∧
      (∃ done, shiftedOs.cleanupOrphanedProcesses () exampleExe 0 = .ok done ∧
        done.targets = [4321] ∧ done.sent =
          [(4321, .term), (-7, .term), (-7, .kill), (4321, .kill)]) ∧
      shiftedOs.Reaches shiftedTable (-7) (leader 7 (by decide)) ∧
      ¬ shiftedOs.ReadsRight () shiftedTable shifted := by
  refine ⟨shows_showing _ _ _, by simp [shiftedTable, beside], by decide +kernel,
    by decide +kernel, by decide +kernel, ⟨_, rfl, by decide +kernel, by decide +kernel⟩,
    ?_, fun h => ?_⟩
  · rw [Os.Reaches, if_neg (by decide), if_neg (by decide), if_neg (by decide)]
    rfl
  · have hzombie : shiftedOs.isProcessZombie () 4321 = true := by decide +kernel
    have hright : shiftedOs.isProcessZombie () 4321 = false := h.zombie
    rw [hzombie] at hright
    cases hright

end Unix

end NodeAgent
