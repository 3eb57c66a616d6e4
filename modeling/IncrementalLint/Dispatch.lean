import IncrementalLint.Outcome
import IncrementalLint.Units

/-!
# Dispatching units

A stale unit is analyzed by one shell line: it makes the unit's dependency listing anew with the
unit's own compile command, then runs the analysis, whether or not the first step worked.

* `Dispatch.jobCommand`  the line for a unit;
* `Dispatch.batch?`      the jobs of all stale units, if there are any;
* `Dispatch.run`         their outcomes, as an executor answers and the settings count them.
-/

namespace IncrementalLint

/-- named jobs, how many may run at once, and for how many milliseconds each -/
structure Batch where
  jobs : SortedMap String String
  parallelism : Nat
  timeout : Nat
  deriving DecidableEq, Inhabited

/-- runs a batch; what the jobs do to the files shows in the workspace -/
abbrev Executor := Batch → Workspace → Workspace × Outcomes

structure Dispatch where
  workDir : Path
  listingDir : Path
  analysisCommand : String
  ruleSetId : String
  parallelism : Nat
  timeout : Nat
  multilineOutputFails : Bool
  deriving DecidableEq, Inhabited

namespace Dispatch

/-! ## the line for a unit -/

def listingStep (d : Dispatch) (u : SourceUnit) : String :=
  let listing := u.listing d.listingDir
  let parent := (listing.parent?).getD d.listingDir
  "mkdir -p " ++ Shell.quote parent.text ++ " && cd " ++ Shell.quote u.directory.text ++ " && " ++
    u.command ++ " -MM -MF " ++ Shell.quote listing.text

def analysisStep (d : Dispatch) (u : SourceUnit) : String :=
  Text.replaceAll Settings.filePlaceholder (Shell.quote u.path.text)
    (Text.replaceAll Settings.rulesPlaceholder d.ruleSetId d.analysisCommand)

def jobCommand (d : Dispatch) (u : SourceUnit) : String :=
  "cd " ++ Shell.quote d.workDir.text ++ " && ( ( " ++ d.listingStep u ++ " ); " ++
    d.analysisStep u ++ " )"

/-! ## batches -/

/-- the jobs of the stale units; no batch if there are none -/
def batch? (d : Dispatch) (stale : List SourceUnit) : Option Batch :=
  if stale.isEmpty then none
  else some ⟨SortedMap.ofList (stale.map fun u => (u.id, d.jobCommand u)), d.parallelism, d.timeout⟩

/-- an outcome as the settings count it -/
def judge (d : Dispatch) (o : Outcome) : Outcome := if d.multilineOutputFails then o.normalize else o

/-- what a dispatch did: the batches it submitted, the workspace after, and the outcomes -/
structure Result where
  batches : List Batch
  workspace : Workspace
  outcomes : Outcomes

/-- submits the stale units and judges the answers -/
def run (d : Dispatch) (exec : Executor) (stale : List SourceUnit) (w : Workspace) : Result :=
  match d.batch? stale with
  | none => ⟨[], w, .empty⟩
  | some b =>
    let (w, raw) := exec b w
    ⟨[b], w, raw.map fun _ o => d.judge o⟩

end Dispatch

end IncrementalLint
