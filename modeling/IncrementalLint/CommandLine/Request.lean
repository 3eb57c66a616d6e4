import IncrementalLint.Path

/-!
# What a command line asks for

A command line names one command. Switches and settings that all commands know may stand in front
of its name or behind it; those behind it count more. No switch and no setting is given twice on
one side.

* `Request.read`  what the words of a command line ask for, or why they ask for nothing.
-/

namespace IncrementalLint

/-! ## requests -/

inductive Form where
  | text
  | json
  deriving DecidableEq, Repr, Inhabited

/-- what can be said about a run -/
structure RunOptions where
  jobs : Option Nat := none
  /-- in seconds -/
  timeout : Option Nat := none
  form : Form := .text
  output : Option Path := none
  deriving DecidableEq, Inhabited

inductive Command where
  | run (o : RunOptions)
  | status (form : Form)
  | clean
  deriving DecidableEq, Inhabited

structure Request where
  command : Command
  quiet : Bool := false
  /-- asks for more log lines; what a command shows does not depend on it -/
  verbose : Bool := false
  project : Option Path := none
  deriving DecidableEq, Inhabited

/-- why a command line asks for nothing to be done -/
inductive NoRequest where
  | help
  | version
  | misuse
  deriving DecidableEq, Repr, Inhabited

/-! ## the words of a command line -/

/-- a word that stands for itself -/
inductive Switch where
  | quiet
  | verbose
  | help
  | version
  deriving DecidableEq, Repr, Inhabited

/-- a word that takes a value -/
inductive Setting where
  | project
  | jobs
  | timeout
  | form
  | output
  deriving DecidableEq, Repr, Inhabited

/-- where a word stands: in front of the name of the command, or behind it -/
inductive Side where
  | front
  | behindRun
  | behindStatus
  | behindClean
  deriving DecidableEq, Repr, Inhabited

namespace Side

def ofName? : String → Option Side
  | "run" => some behindRun
  | "status" => some behindStatus
  | "clean" => some behindClean
  | _ => none

def long? (l : Side) (name : String) : Option (Switch ⊕ Setting) :=
  match name, l with
  | "quiet", _ => some (.inl .quiet)
  | "verbose", _ => some (.inl .verbose)
  | "help", _ => some (.inl .help)
  | "version", front => some (.inl .version)
  | "config", _ => some (.inr .project)
  | "jobs", behindRun => some (.inr .jobs)
  | "timeout", behindRun => some (.inr .timeout)
  | "format", behindRun => some (.inr .form)
  | "format", behindStatus => some (.inr .form)
  | "output", behindRun => some (.inr .output)
  | _, _ => none

def short? (l : Side) (letter : Char) : Option (Switch ⊕ Setting) :=
  match letter, l with
  | 'q', _ => some (.inl .quiet)
  | 'v', _ => some (.inl .verbose)
  | 'h', _ => some (.inl .help)
  | 'V', front => some (.inl .version)
  | 'j', behindRun => some (.inr .jobs)
  | 'f', behindRun => some (.inr .form)
  | 'f', behindStatus => some (.inr .form)
  | 'o', behindRun => some (.inr .output)
  | _, _ => none

end Side

inductive ArgumentWord where
  /-- ends the options -/
  | stop
  /-- an option with a long name, and the value written behind it -/
  | long (name : String) (value : Option String)
  | letters (cs : List Char)
  | plain
  deriving DecidableEq, Repr, Inhabited

namespace ArgumentWord

def ofText (w : String) : ArgumentWord :=
  match w.toList with
  | '-' :: '-' :: [] => stop
  | '-' :: '-' :: cs =>
    let name := String.ofList (cs.takeWhile (· != '='))
    match cs.dropWhile (· != '=') with
    | [] => long name none
    | _ :: value => long name (some (String.ofList value))
  | ['-'] => plain
  | '-' :: cs => letters cs
  | _ => plain

end ArgumentWord

/-! ## values -/

/-- a decimal number, perhaps with a plus sign, from one up to a greatest one -/
def count? (most : Nat) (s : String) : Option Nat :=
  let digits := match s.toList with
    | '+' :: cs => cs
    | cs => cs
  if digits.isEmpty || !digits.all Char.isDigit then none
  else
    let n := digits.foldl (fun n c => 10 * n + (c.toNat - '0'.toNat)) 0
    if 1 ≤ n ∧ n ≤ most then some n else none

def Form.ofText? : String → Option Form
  | "text" => some .text
  | "json" => some .json
  | _ => none

def maxJobs : Nat := UInt32.size - 1

def maxTimeout : Nat := UInt64.size - 1

/-! ## what was given on one side -/

structure Given where
  quiet : Bool := false
  verbose : Bool := false
  project : Option String := none
  jobs : Option Nat := none
  timeout : Option Nat := none
  form : Option Form := none
  output : Option Path := none
  deriving DecidableEq, Inhabited

namespace Given

/-- notes something once -/
def once (old : Option α) (new : Option α) : Except NoRequest (Option α) :=
  match old, new with
  | none, some a => .ok (some a)
  | _, _ => .error .misuse

def onceTrue (old : Bool) : Except NoRequest Bool := if old then .error .misuse else .ok true

def addSwitch (g : Given) : Switch → Except NoRequest Given
  | .quiet => do return { g with quiet := ← onceTrue g.quiet }
  | .verbose => do return { g with verbose := ← onceTrue g.verbose }
  | .help => .error .help
  | .version => .error .version

def addSetting (g : Given) (s : Setting) (value : String) : Except NoRequest Given := do
  match s with
  | .project => return { g with project := ← once g.project (some value) }
  | .jobs => return { g with jobs := ← once g.jobs (count? maxJobs value) }
  | .timeout => return { g with timeout := ← once g.timeout (count? maxTimeout value) }
  | .form => return { g with form := ← once g.form (Form.ofText? value) }
  | .output => return { g with output := ← once g.output (if value.isEmpty then none else some ⟨value⟩) }

/-- reads letters; the setting that still lacks its value is left over -/
def addLetters (l : Side) (g : Given) : List Char → Except NoRequest (Given × Option Setting)
  | [] => .ok (g, none)
  | c :: cs =>
    match l.short? c with
    | none => .error .misuse
    | some (.inl s) => do addLetters l (← g.addSwitch s) cs
    | some (.inr s) =>
      match cs with
      | [] => .ok (g, some s)
      | '=' :: value => do return (← g.addSetting s (String.ofList value), none)
      | value => do return (← g.addSetting s (String.ofList value), none)

/-- reads an option with a long name; the setting that still lacks its value is left over -/
def addLong (l : Side) (g : Given) (name : String) (value : Option String) :
    Except NoRequest (Given × Option Setting) :=
  match l.long? name, value with
  | some (.inl s), none => do return (← g.addSwitch s, none)
  | some (.inr s), some v => do return (← g.addSetting s v, none)
  | some (.inr s), none => .ok (g, some s)
  | _, _ => .error .misuse

/-- reads words up to the first that is no option, which is left over with those behind it;
`lacking` is the setting whose value comes next -/
def readWords (l : Side) (g : Given) (lacking : Option Setting) :
    List String → Except NoRequest (Given × List String)
  | [] => if lacking.isSome then .error .misuse else .ok (g, [])
  | w :: ws =>
    match lacking, ArgumentWord.ofText w with
    | some s, .plain => do readWords l (← g.addSetting s w) none ws
    | some _, _ => .error .misuse
    | none, .stop => if ws.isEmpty then .ok (g, []) else .error .misuse
    | none, .long name value => do
      let (g, lacking) ← g.addLong l name value
      readWords l g lacking ws
    | none, .letters cs => do
      let (g, lacking) ← g.addLetters l cs
      readWords l g lacking ws
    | none, .plain => .ok (g, w :: ws)

def command? (g : Given) : Side → Option Command
  | .front => none
  | .behindRun => some (.run ⟨g.jobs, g.timeout, g.form.getD .text, g.output⟩)
  | .behindStatus => some (.status (g.form.getD .text))
  | .behindClean => some .clean

end Given

/-! ## reading -/

namespace Request

def readHelp : List String → NoRequest
  | [] => .help
  | [w] => if w == "help" || (Side.ofName? w).isSome then .help else .misuse
  | _ => .misuse

def read (words : List String) : Except NoRequest Request := do
  let (front, rest) ← Given.readWords .front {} none words
  match rest with
  | [] => .error .misuse
  | name :: ws =>
    match Side.ofName? name with
    | none => .error (if name == "help" then readHelp ws else .misuse)
    | some l =>
      let (g, rest) ← Given.readWords l {} none ws
      match rest, g.command? l with
      | [], some command =>
        return {
          command
          quiet := front.quiet || g.quiet
          verbose := front.verbose || g.verbose
          project := (g.project.or front.project).map (⟨·⟩) }
      | _, _ => .error .misuse

end Request

end IncrementalLint
