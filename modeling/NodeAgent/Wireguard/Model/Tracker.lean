import NodeAgent.Common.Maps
import NodeAgent.Xray.Model.Stats
/-!
# Traffic of the peers

`pkg/stats/tracker.go`: what is kept for a key of the traffic of its peer.
Samples of the kernel's counters come in, pulls take out what has been
seen since the last one that reset, and a key outlives its peer until what
is left of it has been reported.
-/

namespace NodeAgent

namespace Wireguard

/-- The counters of one key. A time that is not set is `none`. -/
structure Entry where
  email : String
  currentRx : Int64
  currentTx : Int64
  baseRx : Int64
  baseTx : Int64
  lastDeltaRx : Int64
  lastDeltaTx : Int64
  lastActiveTime : Option ℤ
  endpointIP : String
  isDeleted : Bool
  deriving DecidableEq

/-- `stats.Tracker`: counters by key. -/
abbrev Tracker := GoMap String Entry

/-- An entry once its peer is gone: what is not reported yet is set
aside. -/
def Entry.removed (e : Entry) : Entry :=
  { e with
    lastDeltaRx := e.currentRx - e.baseRx
    lastDeltaTx := e.currentTx - e.baseTx
    isDeleted := true
    lastActiveTime := none }

/-- `RemoveStats`. -/
def Tracker.removeStats (t : Tracker) (publicKey : String) : Tracker :=
  match t.lookup publicKey with
  | none => t
  | some entry => t.insert publicKey entry.removed

/-! ## Samples -/

/-- `stats.Sample`: what the kernel counts for a key. -/
structure Sample where
  publicKey : String
  email : String
  rx : Int64
  tx : Int64
  endpointIP : String
  deriving DecidableEq

/-- An entry just made. -/
def Entry.new (email : String) : Entry where
  email := email
  currentRx := 0
  currentTx := 0
  baseRx := 0
  baseTx := 0
  lastDeltaRx := 0
  lastDeltaTx := 0
  lastActiveTime := none
  endpointIP := ""
  isDeleted := false

/-- What `applySampleLocked` does to an entry. -/
def Entry.applySample (entry : Entry) (sample : Sample) (activeAt : ℤ) : Entry :=
  let readded := entry.lastDeltaRx ≠ 0 ∨ entry.lastDeltaTx ≠ 0
  let entry := { entry with email := sample.email, isDeleted := false }
  -- what was set aside at the removal is still to be reported
  let entry :=
    if readded then
      { entry with
        baseRx := sample.rx - entry.lastDeltaRx
        baseTx := sample.tx - entry.lastDeltaTx
        lastDeltaRx := 0
        lastDeltaTx := 0 }
    else entry
  if entry.currentRx = sample.rx ∧ entry.currentTx = sample.tx then
    { entry with endpointIP := sample.endpointIP }
  else
    -- the kernel's counters have started again
    let entry :=
      if ¬ readded ∧ (sample.rx < entry.currentRx ∨ sample.tx < entry.currentTx) then
        let pendingRx := entry.currentRx - entry.baseRx
        let pendingTx := entry.currentTx - entry.baseTx
        { entry with
          baseRx := sample.rx - if pendingRx < 0 then 0 else pendingRx
          baseTx := sample.tx - if pendingTx < 0 then 0 else pendingTx }
      else entry
    let entry :=
      if entry.currentRx < sample.rx ∨ entry.currentTx < sample.tx then
        { entry with lastActiveTime := some activeAt }
      else entry
    { entry with
      currentRx := sample.rx
      currentTx := sample.tx
      endpointIP := sample.endpointIP }

/-- `applySampleLocked`. -/
def Tracker.applySample (t : Tracker) (sample : Sample) (activeAt : ℤ) : Tracker :=
  let entry := (t.lookup sample.publicKey).getD (Entry.new sample.email)
  t.insert sample.publicKey (entry.applySample sample activeAt)

/-- `UpdateStatsBatch`, at a time. -/
def Tracker.updateStatsBatch (t : Tracker) (samples : List Sample) (now : ℤ) : Tracker :=
  samples.foldl (fun t sample => t.applySample sample now) t

/-! ## Pulls -/

/-- `buildDeltaStats`: a row for each direction with traffic. -/
def buildDeltaStats (name link : String) (rx tx : Int64) : List Stat :=
  if rx = 0 ∧ tx = 0 then []
  else
    (if 0 < tx then [⟨name, Direction.uplink.name, link, tx⟩] else []) ++
      if 0 < rx then [⟨name, Direction.downlink.name, link, rx⟩] else []

/-- An entry of which everything has been reported. -/
def Entry.reset (e : Entry) : Entry :=
  { e with baseRx := e.currentRx, baseTx := e.currentTx }

/-- One key of a pull: its rows, and with `reset` a new base, or no entry
if its peer is gone. -/
def Tracker.pullOne (reset : Bool) (acc : Tracker × List Stat) (key : String) :
    Tracker × List Stat :=
  match acc.1.lookup key with
  | none => acc
  | some entry =>
    let stats := buildDeltaStats entry.email key (entry.currentRx - entry.baseRx)
      (entry.currentTx - entry.baseTx)
    let t :=
      if !reset then acc.1
      else if entry.isDeleted then acc.1.erase key
      else acc.1.insert key entry.reset
    (t, acc.2 ++ stats)

/-- `GetStats`. -/
def Tracker.getStats (t : Tracker) (keys : List String) (reset : Bool) : Tracker × List Stat :=
  keys.foldl (pullOne reset) (t, [])

/-- `GetUsersStats`: every key, in the order of the loop. -/
def Tracker.getUsersStats (o : Order String) (t : Tracker) (reset : Bool) : Tracker × List Stat :=
  t.getStats ((GoMap.range o t).map Prod.fst) reset

/-! ## Dropping entries -/

/-- `ClearAllStats`. -/
def Tracker.clearAllStats (_ : Tracker) : Tracker :=
  ∅

/-- An entry of a peer that is gone, with nothing left to report. -/
def Entry.isSpent (e : Entry) : Bool :=
  e.isDeleted && decide (e.currentRx = e.baseRx) && decide (e.currentTx = e.baseTx)

/-- `CleanupDeletedEntries`. -/
def Tracker.cleanupDeletedEntries (o : Order String) (t : Tracker) : Tracker :=
  GoMap.eraseKeys t (((GoMap.range o t).filter fun p => p.2.isSpent).map Prod.fst)

end Wireguard

end NodeAgent
