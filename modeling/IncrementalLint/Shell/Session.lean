import IncrementalLint.Machine.Executable
import IncrementalLint.Shell.Field
import IncrementalLint.Shell.Command

/-!
# Shell sessions

What a shell remembers between commands, and the actions that use it: they ask the system, change
the session, and may stop in one of several ways.

* `Session`   variables, functions, traps, options and the status of the last command;
* `Stop`      why an action does not go on to the next;
* `Act`       actions;
* `Level`     what an action can ask of the pieces below it.
-/

namespace IncrementalLint.Shell

/-! ## sessions -/

structure Variable where
  value : Option String
  exported : Bool := false
  fixed : Bool := false
  deriving Inhabited

/-- the options that the shell was started with or that were set later -/
structure Options where
  exportAll : Bool := false
  noClobber : Bool := false
  endOnFailure : Bool := false
  noFileNames : Bool := false
  noExecution : Bool := false
  refuseUnset : Bool := false
  echoInput : Bool := false
  trace : Bool := false
  deriving Inhabited

structure Session where
  name : String
  params : List String := []
  vars : SortedMap String Variable := .empty
  functions : SortedMap String Command := .empty
  /-- the texts of here-documents -/
  documents : List (Nat × Word) := []
  nextDocument : Nat := 0
  status : Nat := 0
  /-- the status of the last command that an expansion ran -/
  substituted : Nat := 0
  line : Nat := 1
  /-- the builtin that is running -/
  builtin : Option String := none
  options : Options := {}
  /-- what to do at a signal, and at the end under number zero -/
  traps : List (Nat × String) := []
  pid : Nat := 0
  lastBackground : Option Nat := none
  /-- children in the background and how they ended, the oldest first -/
  background : List (Nat × Option Ending) := []
  /-- signals that were caught and not yet answered -/
  pending : List Signal := []
  /-- the status before the trap that is running -/
  beforeTrap : Option Nat := none
  /-- how far `getopts` got in a word -/
  optionOffset : Nat := 0
  /-- the rights that new files do not get -/
  mask : Nat := 18
  loops : Nat := 0
  functionDepth : Nat := 0
  /-- the variables that functions made their own, with what they were before -/
  locals : List (List (String × Option Variable)) := []
  /-- the directory under the name that was used to get there -/
  dir : String := "/"
  /-- descriptors that keep what others stood for -/
  kept : List Nat := []
  deriving Inhabited

/-- why an action does not go on to the next -/
inductive Stop where
  /-- the shell ends with the status of the session -/
  | ended
  /-- an error was reported -/
  | failed
  | left (loops : Nat)
  | nextRound (loops : Nat)
  | returned
  deriving DecidableEq, Inhabited

abbrev Act := ExceptT Stop (StateT Session Program)

namespace Act

def ask (c : Call) : Act c.Reply := fun s => .ask c fun r => .done (.ok r, s)

/-- the outcome of an action, which never stops the one around it -/
def attempt {α : Type} (a : Act α) : Act (Except Stop α) := fun s => do
  let (r, s) ← a s
  return (.ok r, s)

/-- goes on as an action went on -/
def resume {α : Type} (r : Except Stop α) : Act α := fun s => .done (r, s)

def stop {α : Type} (why : Stop) : Act α := fun s => .done (.error why, s)

def setStatus (n : Nat) : Act Unit := modify fun s => { s with status := n }

/-! ## messages -/

/-- writes to a descriptor; a failure is not reported -/
def put (fd : Nat) (text : String) : Act Unit := do
  if text.isEmpty then return
  let _ ← ask (.write fd (Raw.toBytes text))

/-- a line about a fault, with the shell's name and the line of the command -/
def complain (message : String) : Act Unit := do
  let s ← get
  put 2 (s.name ++ ": " ++ toString s.line ++ ": " ++
    (match s.builtin with
      | some b => b ++ ": "
      | none => "") ++ message ++ "\n")

/-- reports a fault and gives up -/
def fail {α : Type} (message : String) : Act α := do
  complain message
  setStatus 2
  stop .failed

/-! ## variables -/

def setting? (name : String) : Act (Option String) := do
  return ((← get).vars.get? name).bind (·.value)

def value (name : String) : Act String := do return (← setting? name).getD ""

/-- sets a variable; a fixed one cannot be set -/
def assign (name text : String) (exported : Bool) : Act Unit := do
  let s ← get
  let old := (s.vars.get? name).getD { value := none }
  if old.fixed then
    complain (name ++ ": is read only")
    setStatus 2
    stop .failed
  else
    set { s with
      vars := s.vars.insert name
        { old with
          value := some text
          exported := old.exported || exported || s.options.exportAll } }

/-- remembers a variable so that it can be put back -/
def keepVariable (name : String) : Act Unit := modify fun s =>
  match s.locals with
  | frame :: rest =>
    if frame.any (·.1 == name) then s
    else { s with locals := ((name, s.vars.get? name) :: frame) :: rest }
  | [] => s

def pushFrame : Act Unit := modify fun s => { s with locals := [] :: s.locals }

/-- puts back what the last frame remembers -/
def popFrame : Act Unit := modify fun s =>
  match s.locals with
  | frame :: rest =>
    { s with
      locals := rest
      vars := frame.foldl (fun vs (name, v) =>
        match v with
        | some v => vs.insert name v
        | none => vs.erase name) s.vars }
  | [] => s

/-- the variables that programs get to see -/
def environment (s : Session) : List (String × String) :=
  s.vars.toList.filterMap fun (name, v) =>
    if v.exported then v.value.map fun text => (name, text) else none

/-- characters that separate fields -/
def separators : Act (List Char) := do
  return ((← setting? "IFS").getD " \t\n").toList

end Act

/-! ## levels -/

/-- where a tilde stands for a home directory -/
inductive Tilde where
  | never
  | front
  /-- also behind colons -/
  | assignment
  deriving DecidableEq

/-- what an action can ask of the pieces below it -/
structure Level where
  /-- runs a command; the flag says that its status is looked at, so that a failure ends nothing -/
  run : Bool → Command → Act Unit
  expand : Tilde → Word → Act Bits
  /-- runs a text -/
  runText : String → Act Unit
  launch : Launch

end IncrementalLint.Shell
