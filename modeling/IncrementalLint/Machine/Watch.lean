import IncrementalLint.Dispatch
import IncrementalLint.Machine.Kernel

/-!
# Running a job

A job is a shell in a process of its own. It is watched until it has ended or its deadline has
passed; then whatever it left running is killed, and what was captured is its output.

* `Machine.watch`   looks until a look settles the job;
* `traceJob`        what is seen of a job, and the workspace after it;
* `runJob`          the outcome of a job.
-/

namespace IncrementalLint

/-- how the text of a command becomes a program -/
abbrev Interpreter := String → Program Nat

namespace Machine

/-- looks at the first process until a look settles the job, last look first in `seen`; a machine without
a deadline in which nothing can happen any more is looked at no longer -/
def watch (deadline : Option Time) : Nat → Machine → List Poll → Machine × List Poll
  | 0, m, seen => (m, seen.reverse)
  | looks + 1, m, seen =>
    let p : Poll := ⟨m.observe, m.clock⟩
    if (p.settles deadline).isSome || deadline.isNone && m.isStuck then (m, (p :: seen).reverse)
    else watch deadline looks (m.advance (m.clock + Job.pollInterval)) (p :: seen)

/-- how often a job without a deadline is looked at, at most -/
def maxPolls : Nat := 5000000

/-- how often a job is looked at, at most: no look after its deadline leaves it open -/
def looks (start : Time) : Option Time → Nat
  | none => maxPolls
  | some deadline => ((deadline - start) / Job.pollInterval).toNat + 2

end Machine

/-- the longest command that a shell can be started with, in bytes -/
def maxCommand : Nat := 131071

/-- the command line of a job: its standard error goes where its output goes -/
def jobLine (command : String) : String := "exec 2>&1\n" ++ command

/-- where a job is to run, if it can be started there -/
def jobDirectory (w : Workspace) (command : String) (dir : Option Path) :
    Except FileError Location :=
  let hasNul (s : String) : Bool := s.toList.contains (Char.ofNat 0)
  if hasNul command || (dir.map fun d => hasNul d.text).getD false then .error .nulInData
  else
    match dir with
    | none => if (jobLine command).utf8ByteSize > maxCommand then .error .argumentsTooLong else .ok w.cwd
    | some d =>
      match w.find d with
      | .error e => .error e
      | .ok (l, .directory _) =>
        if (jobLine command).utf8ByteSize > maxCommand then .error .argumentsTooLong else .ok l
      | .ok _ => .error .notDirectory

/-- what is seen of a job, and the workspace after it; `timeout` is in milliseconds -/
def traceJob (shell : Interpreter) (command : String) (dir : Option Path) (timeout : Option Nat)
    (w : Workspace) : Workspace × Job.Trace :=
  match jobDirectory w command dir with
  | .error e => (w, ⟨.error e, [], .empty⟩)
  | .ok l =>
    let deadline := Job.deadline w.clock timeout
    let m := Machine.boot w l (shell (Raw.ofText (jobLine command)))
    let (m, polls) := m.watch deadline (Machine.looks w.clock deadline) []
    ({ m.workspace with cwd := w.cwd }, ⟨.ok w.clock, polls, m.captured⟩)

/-- runs a job; there is no result for one that never ends -/
def runJob (shell : Interpreter) (name command : String) (dir : Option Path) (timeout : Option Nat)
    (w : Workspace) : Workspace × Outcome :=
  let (w, t) := traceJob shell command dir timeout w
  (w, (t.conclude name timeout).getD .missing)

def runBatch (shell : Interpreter) (dir : Option Path) (b : Batch) (w : Workspace) :
    Workspace × Outcomes :=
  b.jobs.toList.foldl (fun (w, os) (job : String × String) =>
    let (w, o) := runJob shell job.1 job.2 dir (some b.timeout) w
    (w, os.insert job.1 o)) (w, .empty)

end IncrementalLint
