import NodeAgent.Common.Strings
/-!
# Traffic counters and their names

Xray counts the traffic of a user under a name built from the email, and
`backend/xray/api/stats.go` takes the name apart again to say whose
traffic a row of the answer is.
-/

namespace NodeAgent

open GoStrings

/-- A row of the core's answer: a counter's name and value. -/
structure QueryStat where
  name : String
  value : Int64
  deriving DecidableEq

/-- A row of a `StatResponse`. -/
structure Stat where
  name : String
  type : String
  link : String
  value : Int64
  deriving DecidableEq

/-- The two directions a user's traffic is counted in. -/
inductive Direction
  | uplink
  | downlink
  deriving DecidableEq

def Direction.name : Direction → String
  | uplink => "uplink"
  | downlink => "downlink"

/-- The name Xray counts a user's traffic under. -/
def counterName (email : String) (d : Direction) : String :=
  "user>>>" ++ email ++ ">>>traffic>>>" ++ d.name

/-- The name, link and type in a counter's name: the second, third and
fourth part between `>>>`s, if there are that many and none is empty. -/
def parseStatName (raw : String) : Option (String × String × String) :=
  match split raw ">>>" with
  | _ :: name :: link :: statType :: _ =>
    if name = "" ∨ link = "" ∨ statType = "" then none else some (name, link, statType)
  | _ => none

/-- The rows whose names can be taken apart. -/
def buildStatResponse (queryStats : List QueryStat) : List Stat :=
  queryStats.filterMap fun stat =>
    (parseStatName stat.name).map fun p => ⟨p.1, p.2.2, p.2.1, stat.value⟩

end NodeAgent
