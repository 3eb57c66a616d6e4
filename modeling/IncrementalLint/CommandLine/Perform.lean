import IncrementalLint.CommandLine.Request
import IncrementalLint.Project
import IncrementalLint.Run

/-!
# Doing what was asked for

Every command finds its project first. What is wrong is said on the standard error, after what was
shown until then, and ends the command with status one.

* `Command.perform`  what a command does to the workspace, and what it shows;
* `perform`          the same for the words of a command line.
-/

namespace IncrementalLint

structure Shown where
  stdout : String := ""
  stderr : String := ""
  status : Nat := 0
  deriving DecidableEq, Inhabited

namespace Shown

/-- lines that are shown unless silence was asked for -/
def unlessQuiet (r : Request) (text : String) : String := if r.quiet then "" else text

/-- ends with an error -/
def failure (before message : String) : Shown where
  stderr := before ++ "error: " ++ message ++ "\n"
  status := 1

end Shown

open Shown

/-! ## runs -/

def Time.inSeconds (t : Time) : String :=
  let tenths := (t.toNat + 50000000) / 100000000
  toString (tenths / 10) ++ "." ++ toString (tenths % 10)

namespace RunOptions

def override (o : RunOptions) (s : Settings) : Settings :=
  { s with jobs := {
      parallelism := o.jobs.or s.jobs.parallelism
      timeoutSecs := o.timeout.getD s.jobs.timeoutSecs } }

end RunOptions

namespace Runner.Summary

/-- what was reused and what was analyzed -/
def effortLines (s : Summary) (elapsed : Time) : String :=
  (if s.invalidated then
    "   Discarded cached results (rule set or analyzer version changed)\n" else "") ++
  "   Reused " ++ toString s.cached ++ " cached result(s), analyzed " ++ toString s.dispatched ++
    " unit(s) in " ++ elapsed.inSeconds ++ "s\n"

def resultLine (s : Summary) : String :=
  "   Result: " ++ toString (s.report.total - s.report.failed) ++ " passed, " ++
    toString s.report.failed ++ " failed out of " ++ toString s.report.total ++ " unit(s)\n"

end Runner.Summary

/-- shows a report in the form and at the place asked for; `before` was shown already -/
def showReport (o : RunOptions) (r : Report) (before : String) (w : Workspace) :
    Workspace × Except Shown Shown :=
  let text := match o.form with
    | .text => r.render
    | .json => Json.pretty r.toJson ++ "\n"
  match o.output, o.form with
  | some path, _ =>
    match w.saveText path text with
    | (w, .ok ()) => (w, .ok { stderr := before })
    | (w, .error e) => (w, .error (failure before e.message))
  | none, .text => (w, .ok { stderr := before ++ text })
  | none, .json => (w, .ok { stdout := text, stderr := before })

def performRun (h : Host) (q : Request) (o : RunOptions) (dir : Path) (s : Settings)
    (w : Workspace) : Workspace × Shown :=
  let before := unlessQuiet q ("   Checking " ++ s.project.name ++ "\n")
  match Runner.create w (o.override s) dir with
  | .error e => (w, failure before e.message)
  | .ok r =>
    let done := r.run h w
    match done.summary with
    | .error e => (done.workspace, failure before e.message)
    | .ok sum =>
      let effort := unlessQuiet q (sum.effortLines (done.workspace.clock - w.clock))
      match showReport o sum.report (before ++ effort) done.workspace with
      | (w, .error shown) => (w, shown)
      | (w, .ok shown) =>
        (w, { shown with
          stderr := shown.stderr ++ unlessQuiet q sum.resultLine
          status := if sum.report.passed then 0 else 1 })

/-! ## plans -/

namespace Plan

def render (p : Plan) : String :=
  (if p.invalidated then
    "   Cached results will be discarded (rule set or analyzer version changed)\n" else "") ++
  String.join (p.stale.map fun s => "   STALE " ++ s.id ++ ": " ++ s.reason.message ++ "\n") ++
  "   Result: " ++ toString p.cached.size ++ " cached, " ++ toString p.stale.length ++
    " to analyze out of " ++ toString p.units.length ++ " unit(s)\n"

/-- the members of every object stand in the order of their names -/
def toJson (p : Plan) : Json :=
  .object [
    ("cached", .int p.cached.size),
    ("invalidated", .bool p.invalidated),
    ("ruleSetId", .string p.ruleSetId),
    ("stale", .array (p.stale.map fun s =>
      .object [("reason", .string s.reason.message), ("unit", .string s.id)])),
    ("toolVersionId", .string p.toolVersionId),
    ("total", .int p.units.length)]

end Plan

def performStatus (h : Host) (q : Request) (form : Form) (dir : Path) (s : Settings)
    (w : Workspace) : Workspace × Shown :=
  match Runner.create w s dir with
  | .error e => (w, failure "" e.message)
  | .ok r =>
    match r.plan h w with
    | (w, .error e) => (w, failure "" e.message)
    | (w, .ok p) =>
      (w, match form with
        | .text => { stderr := unlessQuiet q p.render }
        | .json => { stdout := Json.pretty p.toJson ++ "\n" })

/-! ## cleaning -/

def performClean (q : Request) (dir : Path) (s : Settings) (w : Workspace) : Workspace × Shown :=
  match Runner.create w s dir with
  | .error e => (w, failure "" e.message)
  | .ok r =>
    match r.clean w with
    | (w, .error e) => (w, failure "" e.message)
    | (w, .ok removed) =>
      let line := if removed then "   Removed " ++ r.cachePath.text else "   Nothing to clean"
      (w, { stderr := unlessQuiet q (line ++ "\n") })

/-! ## commands -/

def Request.perform (h : Host) (q : Request) (w : Workspace) : Workspace × Shown :=
  match Project.locate w q.project with
  | .error e => (w, failure "" e.message)
  | .ok (dir, s) =>
    match q.command with
    | .run o => performRun h q o dir s w
    | .status form => performStatus h q form dir s w
    | .clean => performClean q dir s w

def usage : String :=
  "Usage: recheck [OPTIONS] <run|status|clean>\n\n" ++
  "Options:\n" ++
  "  -q, --quiet            Suppress all output except errors\n" ++
  "  -v, --verbose          Enable verbose output\n" ++
  "      --config <CONFIG>  Settings file, or directory with one\n" ++
  "  -h, --help             Print help\n" ++
  "  -V, --version          Print version\n\n" ++
  "Options of run:\n" ++
  "  -j, --jobs <JOBS>        Maximum number of concurrent analysis jobs\n" ++
  "      --timeout <TIMEOUT>  Per-unit timeout in seconds\n" ++
  "  -f, --format <FORMAT>    Form of the report: text or json\n" ++
  "  -o, --output <OUTPUT>    Write the report to this file\n\n" ++
  "Options of status:\n" ++
  "  -f, --format <FORMAT>    Form of the plan: text or json\n"

def NoRequest.shown : NoRequest → Shown
  | .help => { stdout := usage }
  | .version => { stdout := "recheck 0.1.0\n" }
  | .misuse => { stderr := usage, status := 2 }

/-- does what the words of a command line ask for -/
def perform (h : Host) (words : List String) (w : Workspace) : Workspace × Shown :=
  match Request.read words with
  | .error e => (w, e.shown)
  | .ok q => q.perform h w

end IncrementalLint
