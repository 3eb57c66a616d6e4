import IncrementalLint.Json.Decode
import IncrementalLint.Json.Writer
import IncrementalLint.Text.Blank
import IncrementalLint.Text.Replace

/-!
# Outcomes

What came of one job: its exit status and all it printed. Zero is success.

* `Outcome.normalize`         a success with more than one line of output becomes a failure;
* `Outcome.timedOut`          whether the job was cut off at its deadline;
* `Outcome.passed_normalize`  no failure becomes a success.
-/

namespace IncrementalLint

structure Outcome where
  result : Int32
  output : String
  deriving DecidableEq, Inhabited

/-- the outcomes of units, by id -/
abbrev Outcomes := SortedMap String Outcome

namespace Outcome

def passed (o : Outcome) : Bool := o.result == 0

/-! ## results with a meaning of their own -/

/-- a job cut off at its deadline -/
def timeoutResult : Int32 := 124

/-- a shell that could not be started -/
def spawnFailedResult : Int32 := 126

/-- a success with too much to say -/
def multilineResult : Int32 := 127

/-- a unit for which there is no result -/
def missingResult : Int32 := -1

/-- stands in the output of a job that was cut off -/
def timeoutMarker : String := "recheck: job timed out"

/-- the outcome of a unit for which there is no result -/
def missing : Outcome := ⟨missingResult, "recheck: no result was produced for this unit"⟩

def timedOut (o : Outcome) : Bool := o.result == timeoutResult && Text.contains timeoutMarker o.output

/-! ## output that counts as a failure -/

/-- whether a text has more than one line between its first and its last character that is no
blank -/
def multiline (text : String) : Bool := (Text.lines (Text.trim text)).length > 1

/-- a success with more than one line of output becomes a failure -/
def normalize (o : Outcome) : Outcome :=
  if o.result = 0 && multiline o.output then { o with result := multilineResult } else o

theorem output_normalize (o : Outcome) : o.normalize.output = o.output := by
  unfold normalize
  split <;> rfl

theorem passed_normalize {o : Outcome} (h : o.normalize.passed = true) : o.passed = true := by
  unfold normalize at h
  split at h
  next hc => exact absurd h (by simp [passed, multilineResult])
  next => exact h

/-! ## in JSON -/

def toJson (o : Outcome) : Json :=
  .object [("result", .int o.result.toInt), ("output", .string o.output)]

open Json in
def ofJson? (v : Json) : Option Outcome := do
  let fs ← Fields.ofJson? ["result", "output"] v
  return { result := ← fs.required? "result" asInt32?, output := ← fs.required? "output" asString? }

end Outcome

end IncrementalLint
