import NodeAgent.Common.Fields
import NodeAgent.Common.Strings
/-!
# Finding and killing Xray processes

`backend/xray/process_unix.go`, and `Core.cleanupOrphanedProcesses`. Texts
are bytes, for a process may have any name. What the operating system
answers is a parameter over the states of the machine, which the signals
change and the waiting too. The signals sent are kept beside the results;
what is logged is left out.

Then the other side: a process as the kernel has it, the line it shows of
it in `/proc/<pid>/stat`, and whom `kill(2)` reaches.
-/

namespace NodeAgent

namespace Unix

open Fields

/-! ## What is asked of the system -/

inductive Signal
  | term
  | kill
  /-- Signal `0`, which only asks. -/
  | probe
  deriving DecidableEq

/-- The system, over its states. -/
structure Os (σ : Type) where
  /-- `runtime.GOOS == "linux"` -/
  linux : Bool
  /-- `os.Getpid()` -/
  getpid : ℤ
  /-- `filepath.Abs` -/
  abs : List UInt8 → Option (List UInt8)
  /-- `filepath.EvalSymlinks` -/
  evalSymlinks : σ → List UInt8 → Option (List UInt8)
  /-- `os.ReadDir("/proc")`: the names, and which are directories -/
  readDir : σ → Option (List (List UInt8 × Bool))
  /-- `os.Readlink("/proc/<pid>/exe")` -/
  readlink : σ → ℤ → Option (List UInt8)
  /-- `os.ReadFile("/proc/<pid>/stat")` -/
  readStat : σ → ℤ → Option (List UInt8)
  /-- `ps -eo pid,ppid,state,command` -/
  psAll : σ → Option (List UInt8)
  /-- `ps -p <pid> -o command=` -/
  psCommand : σ → ℤ → Option (List UInt8)
  /-- `ps -p <pid> -o state=` -/
  psState : σ → ℤ → Option (List UInt8)
  /-- `kill(2)`, and whether it succeeds; `os.FindProcess` always does. -/
  kill : σ → ℤ → Signal → σ × Bool
  /-- `time.Sleep(100 * time.Millisecond)` -/
  sleep : σ → σ

inductive ProcErr
  /-- The error of `filepath.Abs`. -/
  | abs
  /-- The error of `os.ReadDir`. -/
  | readDir
  /-- The error of `os.ReadFile`. -/
  | readStat
  /-- "failed to list processes: %w" -/
  | listProcesses
  /-- "failed to read process path: %w (ps fallback error: %v)" -/
  | readPath
  /-- "failed to read process path: empty command for pid %d" -/
  | emptyCommand (pid : ℤ)
  /-- "invalid stat format" -/
  | invalidStat
  /-- The error of `strconv.Atoi`. -/
  | atoi
  /-- "process %d is still running after kill attempt" -/
  | stillRunning (pid : ℤ)
  /-- "failed to find xray processes: %w" -/
  | findXray (err : ProcErr)
  deriving DecidableEq

structure ProcessInfo where
  pid : ℤ
  ppid : ℤ
  isZombie : Bool
  deriving DecidableEq

/-- `state == "Z" || state == "z"`. -/
def zombieText (state : List UInt8) : Bool :=
  state = [0x5A] || state = [0x7A]

/-- `filepath.Base`. -/
def base (path : List UInt8) : List UInt8 :=
  if path = [] then [0x2E]
  else
    let stripped := path.reverse.dropWhile (· = 0x2F)
    let name := (stripped.takeWhile (· ≠ 0x2F)).reverse
    if name = [] then [0x2F] else name

namespace Os

variable {σ : Type} (os : Os σ) (s : σ)

/-- Two executable paths compared, made absolute and with links
resolved. -/
def pathsMatch (candidate target : List UInt8) : Bool :=
  if candidate = [] ∨ target = [] then false
  else
    match os.abs candidate, os.abs target with
    | some candidateAbs, some targetAbs =>
      if candidateAbs = targetAbs then true
      else
        match os.evalSymlinks s candidateAbs, os.evalSymlinks s targetAbs with
        | some candidateReal, some targetReal => candidateReal = targetReal
        | _, _ => false
    | _, _ => false

/-! ## Finding processes -/

/-- What `findXrayProcessesFromProc` takes from the `stat` of a process. -/
def statInfo (pid : ℤ) (data : List UInt8) : Option ProcessInfo :=
  match fields space data with
  | _ :: _ :: state :: parent :: _ =>
    (atoi parent).map fun ppid => ⟨pid, ppid, zombieText state⟩
  | _ => none

/-- One turn of the loop of `findXrayProcessesFromProc`. -/
def procEntry (absPath : List UInt8) (entry : List UInt8 × Bool) : Option ProcessInfo :=
  if !entry.2 then none
  else
    match atoi entry.1 with
    | none => none
    | some pid =>
      if pid ≤ 0 then none
      else
        match os.readlink s pid with
        | none => none
        | some exePath =>
          if !os.pathsMatch s exePath absPath then none
          else
            match os.readStat s pid with
            | none => none
            | some data => statInfo pid data

/-- The processes running the executable, from `/proc`. -/
def findXrayProcessesFromProc (absPath : List UInt8) : Except ProcErr (List ProcessInfo) :=
  match os.readDir s with
  | none => .error .readDir
  | some entries => .ok (entries.filterMap (os.procEntry s absPath))

def getProcessPath (pid : ℤ) : Except ProcErr (List UInt8) :=
  match os.readlink s pid with
  | some path => .ok path
  | none =>
    match os.psCommand s pid with
    | none => .error .readPath
    | some psOutput =>
      let cmdline := trimSpace psOutput
      if cmdline = [] then .error (.emptyCommand pid)
      else
        match fields space cmdline with
        | [] => .error (.emptyCommand pid)
        | path :: _ => .ok path

/-- One line of what `ps` prints. -/
def psLine (absPath line : List UInt8) : Option ProcessInfo :=
  let line := trimSpace line
  if line = [] ∨ [0x50, 0x49, 0x44].isPrefixOf line = true then none
  else
    match fields space line with
    | pidStr :: ppidStr :: state :: cmdPath :: _ =>
      match atoi pidStr, atoi ppidStr with
      | some pid, some ppid =>
        let same := match os.getProcessPath s pid with
          | .ok procPath => os.pathsMatch s procPath absPath
          | .error _ => false
        if same || os.pathsMatch s cmdPath absPath || base cmdPath = base absPath then
          some ⟨pid, ppid, zombieText state⟩
        else none
      | _, _ => none
    | _ => none

/-- The processes running the executable. -/
def findXrayProcesses (executablePath : List UInt8) : Except ProcErr (List ProcessInfo) :=
  match os.abs executablePath with
  | none => .error .abs
  | some absPath =>
    let fromPs :=
      match os.psAll s with
      | none => .error .listProcesses
      | some output => .ok ((GoStrings.splitList [0x0A] output).filterMap (os.psLine s absPath))
    if os.linux then
      match os.findXrayProcessesFromProc s absPath with
      | .ok procs => .ok procs
      | .error _ => fromPs
    else fromPs

def isProcessZombie (pid : ℤ) : Bool :=
  match os.readStat s pid with
  | none =>
    match os.psState s pid with
    | none => false
    | some out =>
      let state := trimSpace out
      [0x5A].isPrefixOf state || [0x7A].isPrefixOf state
  | some data =>
    match fields space data with
    | _ :: _ :: state :: _ => zombieText state
    | _ => false

/-! ## Killing a process -/

def getProcessGroupID (pid : ℤ) : Except ProcErr ℤ :=
  match os.readStat s pid with
  | none => .error .readStat
  | some data =>
    match fields space data with
    | _ :: _ :: _ :: _ :: pgrp :: _ =>
      match atoi pgrp with
      | none => .error .atoi
      | some pgid => .ok pgid
    | _ => .error .invalidStat

/-- Whether the process is running, and the state after asking. -/
def isProcessRunning (pid : ℤ) : σ × Bool :=
  os.kill s pid .probe

/-- The waiting loop of `killProcessTree`: `true` if the process was seen
to have gone. -/
def waitForExit (pid : ℤ) : ℕ → σ → σ × Bool
  | 0, s => (s, false)
  | turns + 1, s =>
    let asked := os.isProcessRunning s pid
    if !asked.2 then (asked.1, true) else waitForExit pid turns (os.sleep asked.1)

/-- What a call of `killProcessTree` does. -/
structure Killed (σ : Type) where
  state : σ
  /-- The arguments of `kill(2)`, in order. -/
  sent : List (ℤ × Signal)
  err : Option ProcErr

/-- The group is asked for after the first signal. -/
def killProcessTree (pid : ℤ) : Killed σ :=
  let s := (os.kill s pid .term).1
  let group : List (ℤ × Signal) :=
    match os.getProcessGroupID s pid with
    | .ok pgid => if pgid ≠ 0 then [(-pgid, .term), (-pgid, .kill)] else []
    | .error _ => []
  let rest := group ++ [(pid, .kill)]
  let s := rest.foldl (fun s x => (os.kill s x.1 x.2).1) s
  let waited := os.waitForExit pid 10 s
  ⟨waited.1, (pid, .term) :: rest, if waited.2 then none else some (.stillRunning pid)⟩

/-! ## Cleaning up -/

/-- Whether `cleanupOrphanedProcesses` kills a process it has found; the
current process is `0` if there is none. -/
def orphaned (currentPID : ℤ) (procInfo : ProcessInfo) : Bool :=
  if procInfo.pid = currentPID then false
  else if procInfo.isZombie && (procInfo.ppid = 0 || procInfo.ppid = 1) then true
  else procInfo.ppid = os.getpid

/-- What a cleanup does. -/
structure Cleanup (σ : Type) where
  state : σ
  /-- The processes `killProcessTree` was called for. -/
  targets : List ℤ
  sent : List (ℤ × Signal)

/-- One turn of its loop. -/
def cleanupOne (currentPID : ℤ) (done : Cleanup σ) (procInfo : ProcessInfo) : Cleanup σ :=
  if os.orphaned currentPID procInfo then
    let killed := os.killProcessTree done.state procInfo.pid
    ⟨killed.state, done.targets ++ [procInfo.pid], done.sent ++ killed.sent⟩
  else done

def cleanupOrphanedProcesses (executablePath : List UInt8) (currentPID : ℤ) :
    Except ProcErr (Cleanup σ) :=
  match os.findXrayProcesses s executablePath with
  | .error err => .error (.findXray err)
  | .ok processes => .ok (processes.foldl (os.cleanupOne currentPID) ⟨s, [], []⟩)

end Os

/-! ## What the kernel has -/

/-- The states of a process the kernel tells apart. -/
inductive TaskState
  | running
  | sleeping
  | diskSleep
  | stopped
  | tracingStop
  | dead
  | zombie
  | parked
  | idle
  deriving DecidableEq

/-- The letter it shows of one. -/
def TaskState.letter : TaskState → UInt8
  | .running => 0x52
  | .sleeping => 0x53
  | .diskSleep => 0x44
  | .stopped => 0x54
  | .tracingStop => 0x74
  | .dead => 0x58
  | .zombie => 0x5A
  | .parked => 0x50
  | .idle => 0x49

/-- The name of a process: up to fifteen bytes, any but `0`. -/
structure Comm where
  bytes : List UInt8
  short : bytes.length ≤ 15
  noNul : 0 ∉ bytes

/-- `PID_MAX_LIMIT`. -/
def pidMax : ℤ := 4194304

/-- A process. The parent and the group are `0` where they are outside of
the namespace, and the group is `-1` once it has none. -/
structure Task where
  pid : ℤ
  comm : Comm
  state : TaskState
  ppid : ℤ
  pgrp : ℤ
  /-- The fields that follow. -/
  rest : List UInt8
  pid_range : 0 < pid ∧ pid ≤ pidMax
  ppid_range : 0 ≤ ppid ∧ ppid ≤ pidMax
  pgrp_range : -1 ≤ pgrp ∧ pgrp ≤ pidMax

namespace Task

/-- **The line of a process in `/proc/<pid>/stat`**, with the name as it
is: it is escaped in `/proc/<pid>/status` only. -/
def statLine (t : Task) : List UInt8 :=
  itoa t.pid ++ 0x20 :: (0x28 :: t.comm.bytes ++ [0x29]) ++ 0x20 :: [t.state.letter] ++
    0x20 :: itoa t.ppid ++ 0x20 :: itoa t.pgrp ++ 0x20 :: t.rest

/-- What `findXrayProcesses` should tell of it. -/
def info (t : Task) : ProcessInfo :=
  ⟨t.pid, t.ppid, t.state = .zombie⟩

end Task

/-- The processes of a machine, no two with one number. -/
structure TaskTable where
  tasks : List Task
  nodup : (tasks.map Task.pid).Nodup

namespace Os

variable {σ : Type} (os : Os σ)

/-- The system shows these processes in `/proc`. -/
structure Shows (s : σ) (T : TaskTable) : Prop where
  linux : os.linux = true
  readDir : os.readDir s ≠ none
  readStat : ∀ t ∈ T.tasks, os.readStat s t.pid = some t.statLine

/-- **Whom `kill(2)` reaches**: a process, the group of the caller, every
process but the first and the caller, or a group. -/
def Reaches (T : TaskTable) (n : ℤ) (t : Task) : Prop :=
  if 0 < n then t.pid = n
  else if n = 0 then ∃ self ∈ T.tasks, self.pid = os.getpid ∧ t.pgrp = self.pgrp
  else if n = -1 then t.pid ≠ 1 ∧ t.pid ≠ os.getpid
  else t.pgrp = -n

end Os

end Unix

end NodeAgent
