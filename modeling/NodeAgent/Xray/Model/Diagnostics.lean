import Mathlib.Data.Int.Notation
import Mathlib.Data.List.Basic
/-!
# The startup log ring

`startupLogRing` of `backend/xray/startup_diagnostics.go`: the last lines
a core has logged. An index that is out of range is `none`.
-/

namespace NodeAgent

structure StartupLogRing where
  lines : List String
  next : ℕ
  full : Bool
  deriving DecidableEq

namespace StartupLogRing

/-- `newStartupLogRing`. -/
def new (size : ℤ) : StartupLogRing :=
  let size := if size ≤ 0 then 1 else size
  ⟨List.replicate size.toNat "", 0, false⟩

def reset (r : StartupLogRing) : StartupLogRing :=
  ⟨r.lines.map fun _ => "", 0, false⟩

def add (r : StartupLogRing) (line : String) : Option StartupLogRing :=
  if r.lines.length = 0 then some r
  else if r.next < r.lines.length then
    let next := (r.next + 1) % r.lines.length
    some ⟨r.lines.set r.next line, next, if next = 0 then true else r.full⟩
  else none

def tail (r : StartupLogRing) (n : ℤ) : Option (List String) :=
  let count := if r.full then r.lines.length else r.next
  if count = 0 then some []
  else
    let n := if n ≤ 0 ∨ (count : ℤ) < n then count else n.toNat
    let oldest := if r.full then r.next else 0
    let start := count - n
    (List.range n).mapM fun i => r.lines[(oldest + start + i) % r.lines.length]?

end StartupLogRing

/-- The calls that change a ring. -/
inductive RingCall
  | add (line : String)
  | reset

/-- A call. -/
def StartupLogRing.call (r : StartupLogRing) : RingCall → Option StartupLogRing
  | .add line => r.add line
  | .reset => some r.reset

/-- The lines added since the last reset. -/
def RingCall.added : List RingCall → List String → List String
  | [], lines => lines
  | .add line :: calls, lines => added calls (lines ++ [line])
  | .reset :: calls, _ => added calls []

end NodeAgent
