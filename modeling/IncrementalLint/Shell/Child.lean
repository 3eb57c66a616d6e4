import IncrementalLint.Shell.Session

/-!
# Children of a shell

A subshell is a copy of the shell that runs one command and ends. Its traps are gone, other than
those that ignore a signal, and its end is what the shell waits for.

* `Act.spawn`       starts a subshell;
* `Act.await`       waits for one child;
* `Act.foreground`  runs children and takes over the status of the last one;
* `Act.finish`      ends a shell.
-/

namespace IncrementalLint

def Ending.status : Ending → Nat
  | .exited n => n
  | .killed s => 128 + s

namespace Shell.Act

/-- more rounds than any loop makes -/
def rounds : Nat := 1000000000

/-! ## ends -/

/-- ends a shell; what was to be done at its end is done first -/
def finish {α : Type} (l : Level) : Act α := do
  let s ← get
  match s.traps.lookup 0 with
  | none => pure ()
  | some action =>
    set { s with traps := s.traps.filter (·.1 != 0), beforeTrap := some s.status, loops := 0 }
    match ← attempt (l.runText action) with
    | .error .ended => pure ()
    | .error .failed => pure ()
    | _ => setStatus s.status
  let e ← ask (.exit (← get).status)
  nomatch e

/-! ## starts -/

/-- a copy of the shell forgets its traps and its children -/
def enterChild : Act Unit := do
  let s ← get
  for (signal, action) in s.traps do
    if signal != 0 && !action.isEmpty then ask (.arrange signal .default)
  set { s with
    traps := s.traps.filter fun t => t.1 != 0 && t.2.isEmpty
    background := []
    pending := []
    beforeTrap := none }

/-- starts a copy of the shell that does one thing and ends -/
def spawn (l : Level) (child : Act Unit) : Act Nat := do
  match ← ask .fork with
  | some pid => return pid
  | none =>
    enterChild
    let _ ← attempt child
    finish l

/-- a child in the background is not interrupted from outside and reads nothing -/
def enterBackground : Act Unit := do
  ask (.arrange Signal.interrupt .ignored)
  ask (.arrange 3 .ignored)
  ask (.close 0)
  match ← ask (.openFile ⟨"/dev/null"⟩ OpenMode.reading) with
  | .ok fd =>
    if fd != 0 then
      let _ ← ask (.duplicate fd 0)
      ask (.close fd)
  | .error _ => pure ()

/-! ## waiting -/

def collect : Act Unit := do
  let caught : List Signal ← ask .caught
  if !caught.isEmpty then modify fun s => { s with pending := s.pending ++ caught }

def awaitFrom (pid : Nat) : Nat → Act Ending
  | 0 => return .exited 0
  | fuel + 1 => do
    match ← ask (.wait (some pid) true) with
    | .ended _ how => return how
    | .childless => return .exited 127
    | _ =>
      collect
      awaitFrom pid fuel

/-- says how a child was killed, other than by an interruption or a pipe that nobody reads -/
def reportEnd (how : Ending) : Act Unit := do
  match how with
  | .exited _ => return
  | .killed s => if s != Signal.interrupt && s != Signal.pipe then put 2 (s.describe ++ "\n")

def await (pid : Nat) : Act Ending := do
  let how ← awaitFrom pid rounds
  reportEnd how
  return how

/-- waits for children and takes over the status of the last one -/
def foreground (pids : List Nat) : Act Unit := do
  for pid in pids do
    let how ← await pid
    setStatus how.status

def noteBackground (pid : Nat) : Act Unit := modify fun s =>
  { s with lastBackground := some pid, background := s.background ++ [(pid, none)], status := 0 }

/-! ## pipes -/

def connect (fd dest : Nat) : Act Unit := do
  if fd != dest then
    let _ ← ask (.duplicate fd dest)
    ask (.close fd)

/-- all that comes out of a pipe, last piece first -/
def drainFrom (fd : Nat) : Nat → List ByteArray → Act (List ByteArray)
  | 0, acc => return acc
  | fuel + 1, acc => do
    match ← ask (.read fd 65536) with
    | .ok bs => if bs.isEmpty then return acc else drainFrom fd fuel (bs :: acc)
    | .error _ => return acc

/-- what a subshell writes, without the line feeds at its end -/
def capture (l : Level) (child : Act Unit) : Act String := do
  let (out, in_) ← ask .pipe
  let pid ← spawn l do
    ask (.close out)
    connect in_ 1
    child
  ask (.close in_)
  let pieces ← drainFrom out rounds []
  ask (.close out)
  let how ← await pid
  modify fun s => { s with substituted := how.status }
  let bytes := pieces.reverse.foldl (· ++ ·) ByteArray.empty
  let cs := (Raw.ofBytes bytes).toList.filter (·.toNat != 0)
  return String.ofList (cs.reverse.dropWhile (· == '\n')).reverse

end Shell.Act

end IncrementalLint
