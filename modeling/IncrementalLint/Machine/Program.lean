import IncrementalLint.Files.Change
import IncrementalLint.Machine.Signal

/-!
# Programs

A program is a tree: it ends with a value, or asks the system for something and goes on with the
answer. Two programs that run at the same time take turns between what they ask for.

* `Call`, `Call.Reply`  what can be asked for, and the type of the answer;
* `Program`             programs, which follow one another as a monad.
-/

namespace IncrementalLint

/-- how a file is opened -/
structure OpenMode where
  read : Bool := false
  write : Bool := false
  create : Bool := false
  truncate : Bool := false
  append : Bool := false
  /-- fails if the file is there -/
  new : Bool := false

namespace OpenMode

def reading : OpenMode := { read := true }
def writing : OpenMode := { write := true, create := true, truncate := true }
def appending : OpenMode := { write := true, create := true, append := true }
def both : OpenMode := { read := true, write := true, create := true }
def fresh : OpenMode := { write := true, create := true, new := true }

end OpenMode

inductive Ending where
  | exited (status : Nat)
  | killed (signal : Signal)
  deriving DecidableEq, Inhabited

/-- the answer to a question for ended children -/
inductive Waited where
  | childless
  | running
  | interrupted
  | ended (pid : Nat) (how : Ending)
  deriving DecidableEq, Inhabited

/-- what a program can ask for -/
inductive Call where
  | time
  | sleep (nanos : Nat)
  | files
  | change (f : Workspace → Workspace × Except FileError Unit)
  | enter (dir : Location)
  | openFile (path : Path) (mode : OpenMode)
  | close (fd : Nat)
  /-- makes `dest` stand for what `fd` stands for -/
  | duplicate (fd dest : Nat)
  | isOpen (fd : Nat)
  | pipe
  | read (fd size : Nat)
  | write (fd : Nat) (bytes : ByteArray)
  /-- goes on twice; the new process gets no number -/
  | fork
  /-- a child that has ended: this one, or any -/
  | wait (child : Option Nat) (block : Bool)
  | kill (target : Int) (signal : Signal)
  | self
  | parent
  | arrange (signal : Signal) (d : Disposition)
  | arranged (signal : Signal)
  /-- the signals caught since the last question -/
  | caught
  | exit (status : Nat)

/-- the type of the answer -/
abbrev Call.Reply : Call → Type
  | .time => Time
  | .sleep _ => Unit
  | .files => Workspace
  | .change _ => Except FileError Unit
  | .enter _ => Unit
  | .openFile _ _ => Except FileError Nat
  | .close _ => Unit
  | .duplicate _ _ => Except FileError Unit
  | .isOpen _ => Bool
  | .pipe => Nat × Nat
  | .read _ _ => Except FileError ByteArray
  | .write _ _ => Except FileError Unit
  | .fork => Option Nat
  | .wait _ _ => Waited
  | .kill _ _ => Except FileError Unit
  | .self => Nat
  | .parent => Nat
  | .arrange _ _ => Unit
  | .arranged _ => Disposition
  | .caught => List Signal
  | .exit _ => Empty

inductive Program (α : Type) where
  | done (a : α)
  | ask (c : Call) (next : c.Reply → Program α)

namespace Program

def bind {α β : Type} (p : Program α) (f : α → Program β) : Program β :=
  match p with
  | done a => f a
  | ask c next => ask c fun r => (next r).bind f

instance : Monad Program where
  pure := done
  bind := bind

instance {α : Type} [Inhabited α] : Inhabited (Program α) := ⟨done default⟩

/-- asks for one thing -/
def call (c : Call) : Program c.Reply := ask c done

/-! ## asking -/

def files : Program Workspace := call .files
def change (f : Workspace → Workspace × Except FileError Unit) : Program (Except FileError Unit) :=
  call (.change f)
def exit {α : Type} (status : Nat) : Program α := ask (.exit status) fun e => nomatch e

end Program

end IncrementalLint
