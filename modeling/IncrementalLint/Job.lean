import IncrementalLint.Files.Error
import IncrementalLint.Files.Workspace
import IncrementalLint.Outcome
import IncrementalLint.Text.Utf8

/-!
# Jobs under watch

A job is a shell that is looked at again and again until it has ended or its deadline has passed.
An end that is seen counts, even if the deadline has passed at the same look.

* `Poll.settles`         what one look settles;
* `Job.ending`           how a job ends for a sequence of looks;
* `Job.outcome`          the outcome of an end: an exit status, 128 and a signal, or one of the results
                         with a meaning of their own;
* `Job.Trace.conclude`   the outcome of a job for all that is seen of it.
-/

namespace IncrementalLint

inductive Observation where
  | running
  | exited (status : UInt8)
  | signaled (signal : UInt8)
  /-- the system does not say -/
  | lost (cause : FileError)
  deriving DecidableEq, Repr, Inhabited

/-- a look at a job, and the time at which it was taken -/
structure Poll where
  seen : Observation
  time : Time
  deriving DecidableEq, Inhabited

inductive JobEnd where
  | exited (status : UInt8)
  | signaled (signal : UInt8)
  | lost (cause : FileError)
  | cutOff
  deriving DecidableEq, Repr, Inhabited

/-- what one look settles -/
def Poll.settles (deadline : Option Time) (p : Poll) : Option JobEnd :=
  match p.seen with
  | .exited status => some (.exited status)
  | .signaled signal => some (.signaled signal)
  | .lost cause => some (.lost cause)
  | .running => if deadline.any (· ≤ p.time) then some .cutOff else none

namespace Job

/-- how a job ends for a sequence of looks, if it does -/
def ending (deadline : Option Time) (polls : List Poll) : Option JobEnd :=
  polls.findSome? (·.settles deadline)

/-- time between two looks -/
def pollInterval : Time := 20000000

/-- the deadline of a job that starts at a time and may run for some milliseconds -/
def deadline (start : Time) (timeout : Option Nat) : Option Time :=
  timeout.map fun ms => start + ms * 1000000

/-! ## outcomes -/

/-- text that is empty or ends in a line feed -/
def endLine (text : String) : String :=
  if text.isEmpty || Text.endsWith text "\n" then text else text ++ "\n"

/-- what stands at the end of the output of a job that was cut off, on a line of its own -/
def timeoutNote (timeout : Option Nat) : String :=
  Outcome.timeoutMarker ++ " after " ++ toString (timeout.getD 0 / 1000) ++ "s"

def notStarted (name : String) (cause : FileError) : Outcome :=
  ⟨Outcome.spawnFailedResult, "failed to spawn `" ++ name ++ "`: " ++ cause.message⟩

def notWatched (name : String) (cause : FileError) : Outcome :=
  ⟨Outcome.spawnFailedResult, "failed to wait for `" ++ name ++ "`: " ++ cause.message⟩

/-- the outcome of a job that printed `captured` and is still running at its deadline -/
def overdue (timeout : Option Nat) (captured : ByteArray) : Outcome :=
  ⟨Outcome.timeoutResult, endLine (Utf8.decodeLossy captured) ++ timeoutNote timeout ++ "\n"⟩

def outcome (name : String) (timeout : Option Nat) (captured : ByteArray) : JobEnd → Outcome
  | .exited status => ⟨Int32.ofNat status.toNat, Utf8.decodeLossy captured⟩
  | .signaled signal => ⟨Int32.ofNat (128 + signal.toNat), Utf8.decodeLossy captured⟩
  | .lost cause => notWatched name cause
  | .cutOff => overdue timeout captured

/-- what is seen of a job: when it started, or why it did not, every look at it, and what it printed -/
structure Trace where
  start : Except FileError Time
  polls : List Poll
  captured : ByteArray

namespace Trace

/-- how a job ends, if it started and does -/
def ending (t : Trace) (timeout : Option Nat) : Option JobEnd :=
  match t.start with
  | .error _ => none
  | .ok start => Job.ending (deadline start timeout) t.polls

/-- the outcome of a job; none while it runs -/
def conclude (name : String) (timeout : Option Nat) (t : Trace) : Option Outcome :=
  match t.start with
  | .error e => some (notStarted name e)
  | .ok _ => (t.ending timeout).map (outcome name timeout t.captured)

end Trace

end Job

end IncrementalLint
