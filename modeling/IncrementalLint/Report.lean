import IncrementalLint.Cache.Store

/-!
# Reports

The units of a run counted, and the failed ones listed in their order with what they printed.

* `Report.ofOutcomes`  the report for one outcome each of a list of units;
* `aggregate`          takes each unit's outcome from the fresh ones, else from the reused ones, and
                       records all of them in the store;
* `Report.render`      the failed units as text.
-/

namespace IncrementalLint

inductive Status where
  | passed
  | failed
  deriving DecidableEq, Inhabited

structure Verdict where
  status : Status
  output : String
  deriving DecidableEq, Inhabited

def Verdict.ofOutcome (o : Outcome) : Verdict := ⟨if o.passed then .passed else .failed, o.output⟩

structure Report where
  total : Nat := 0
  failed : Nat := 0
  /-- in the order of the units -/
  failedUnits : List String := []
  /-- of the failed units only -/
  details : SortedMap String Verdict := .empty
  deriving DecidableEq, Inhabited

namespace Report

def passed (r : Report) : Bool := r.failed == 0

/-! ## counting -/

/-- counts one more unit -/
def count (r : Report) (id : String) (o : Outcome) : Report :=
  if o.passed then { r with total := r.total + 1 }
  else {
    total := r.total + 1
    failed := r.failed + 1
    failedUnits := r.failedUnits ++ [id]
    details := r.details.insert id (Verdict.ofOutcome o) }

/-- the report for units with their outcomes -/
def ofOutcomes (os : List (String × Outcome)) : Report := os.foldl (fun r o => r.count o.1 o.2) {}

end Report

/-- the outcome of each unit: the fresh one, which counts once, else the reused one -/
def outcomesOf (reused : Outcomes) : Outcomes → List String → List (String × Outcome)
  | _, [] => []
  | fresh, id :: ids =>
    (id, (fresh.get? id).getD ((reused.get? id).getD Outcome.missing)) ::
      outcomesOf reused (fresh.erase id) ids

/-- the report for units, and the store with their outcomes and no others -/
def aggregate (ids : List String) (fresh reused : Outcomes) (s : Store) : Report × Store :=
  let os := outcomesOf reused fresh ids
  (Report.ofOutcomes os, (os.foldl (fun s o => s.put o.1 o.2) s).retain ids.contains)

/-! ## in JSON -/

namespace Status

def text : Status → String
  | passed => "passed"
  | failed => "failed"

def ofText? : String → Option Status
  | "passed" => some passed
  | "failed" => some failed
  | _ => none

def ofJson? : Json → Option Status
  | .string s => ofText? s
  | .object [(s, .null)] => ofText? s
  | _ => none

end Status

namespace Verdict

def toJson (v : Verdict) : Json := .object [("status", .string v.status.text), ("output", .string v.output)]

open Json in
def ofJson? (v : Json) : Option Verdict := do
  let fs ← Fields.ofJson? ["status", "output"] v
  return { status := ← fs.required? "status" Status.ofJson?, output := ← fs.required? "output" asString? }

end Verdict

namespace Report

def toJson (r : Report) : Json :=
  .object [
    ("total", .int r.total),
    ("failed", .int r.failed),
    ("failedUnits", .array (r.failedUnits.map .string)),
    ("details", .object (r.details.toList.map fun e => (e.1, e.2.toJson)))]

open Json in
def ofJson? (v : Json) : Option Report := do
  let fs ← Fields.ofJson? ["total", "failed", "failedUnits", "details"] v
  return {
    total := ← fs.required? "total" asCount?
    failed := ← fs.required? "failed" asCount?
    failedUnits := ← fs.required? "failedUnits" (asList? asString?)
    details := ← fs.required? "details" (asMap? Verdict.ofJson?) }

def parse? (text : String) : Option Report := (Json.read? text).bind ofJson?

/-! ## as text -/

/-- how many lines of output are shown for a unit -/
def shownLines : Nat := 20

/-- one failed unit with the first lines of its output -/
def renderUnit (r : Report) (id : String) : String :=
  let head := "   FAIL  " ++ id ++ "\n"
  match r.details.get? id with
  | none => head
  | some v =>
    let lines := Text.lines (Text.trimEnd v.output)
    let shown := (lines.take shownLines).map fun l => "         " ++ l ++ "\n"
    let more :=
      if lines.length > shownLines then
        "         ... (" ++ toString (lines.length - shownLines) ++ " more line(s))\n"
      else ""
    head ++ String.join shown ++ more

def render (r : Report) : String := String.join (r.failedUnits.map r.renderUnit)

end Report

end IncrementalLint
