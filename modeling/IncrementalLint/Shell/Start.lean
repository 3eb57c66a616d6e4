import IncrementalLint.Shell.Evaluation

/-!
# Starting a shell

A shell reads its commands from a text among its arguments, from a file, or from its input.

* `Shell.run`  a shell with its arguments and what it knows from its parent.
-/

namespace IncrementalLint.Shell

open Act

/-- what a shell is asked to run -/
inductive Job? where
  | text (commands : String)
  | file (name : String)
  | input

namespace Start

/-! ## arguments -/

/-- what the options say: whether a text follows, and whether the input is to be read -/
structure Asked where
  text : Bool := false
  input : Bool := false

/-- the options in front of the other arguments -/
def readOptions (asked : Asked) : List String → Act (Asked × List String)
  | [] => return (asked, [])
  | w :: rest => do
    let letters (on : Bool) (cs : List Char) : Act Asked := do
      let mut a := asked
      for c in cs do
        if c == 'c' && on then a := { a with text := true }
        else if c == 's' then a := { a with input := true }
        else Builtin.setOption c on
      return a
    match w.toList with
    | ['-'] => return (asked, rest)
    | ['-', '-'] => return (asked, rest)
    | ['-', 'o'] =>
      match rest with
      | name :: rest => do
        Builtin.setNamedOption name true
        readOptions asked rest
      | [] => return (asked, [])
    | '-' :: cs => readOptions (← letters true cs) rest
    | '+' :: cs => readOptions (← letters false cs) rest
    | _ => return (asked, w :: rest)

def job (args : List String) : Act Job? := do
  let (asked, rest) ← readOptions {} args
  if asked.text then
    match rest with
    | [] => fail "-c requires an argument"
    | commands :: rest =>
      match rest with
      | name :: params => modify fun s => { s with name, params }
      | [] => pure ()
      return .text commands
  else if asked.input then
    modify fun s => { s with params := rest }
    return .input
  else
    match rest with
    | [] => return .input
    | name :: params =>
      modify fun s => { s with params }
      return .file name

/-! ## the environment -/

/-- where programs are looked for if nothing else is said -/
def defaultPath : String := "/usr/local/sbin:/usr/local/bin:/usr/sbin:/usr/bin:/sbin:/bin"

/-- the directory under the name that the parent used, if it still is one of its names -/
def startDir (w : Workspace) (env : Environment) : String :=
  let here := Raw.ofText w.cwdPath.text
  match env.lookup "PWD" with
  | some dir =>
    match w.find ⟨Raw.toText dir⟩ with
    | .ok (l, _) => if Text.startsWith dir "/" && l == w.cwd then dir else here
    | .error _ => here
  | none => here

def startVariables (env : Environment) (dir : String) : SortedMap String Variable :=
  let own : List (String × Variable) := [
    ("IFS", { value := some " \t\n" }), ("OPTIND", { value := some "1" }),
    ("PATH", { value := some defaultPath }), ("PS1", { value := some "$ " }),
    ("PS2", { value := some "> " }), ("PS4", { value := some "+ " })]
  let given := (env.filter fun e => isName e.1 && e.1 != "IFS").map fun e =>
    (e.1, ({ value := some e.2, exported := true } : Variable))
  SortedMap.ofList (own ++ given ++
    [("PWD", { value := some dir, exported := (env.lookup "PWD").isSome })])

/-- how deep commands and expansions may nest -/
def depth : Nat := 3000

def commands : Job? → Act String
  | .text s => return s
  | .input => do
    let pieces ← drainFrom 0 rounds []
    return Raw.ofBytes (pieces.reverse.foldl (· ++ ·) ByteArray.empty)
  | .file name => do
    let w : Workspace ← ask .files
    match w.read ⟨Raw.toText name⟩ with
    | .ok content =>
      modify fun s => { s with name }
      return Raw.ofBytes content
    | .error e => fail ("cannot open " ++ name ++ ": " ++ Redirection.faultText true e)

def main (l : Level) (args : List String) : Act Unit := do
  let todo ← job args
  let text ← commands todo
  modify fun s => { s with line := 1 }
  l.runText text

end Start

/-- a shell with its arguments, the first of which is its name -/
def run (launch : Launch) (argv : List String) (env : Environment) : Program Nat := do
  let w : Workspace ← Program.files
  let pid ← Program.call .self
  let dir := Start.startDir w env
  let session : Session := {
    name := argv.headD "sh"
    vars := Start.startVariables env dir
    pid := pid
    line := 0
    dir := dir }
  let l := levels launch Start.depth
  let (_, s) ← (do
    let _ ← attempt (Start.main l argv.tail)
    finish l : Act Unit) session
  return s.status

end IncrementalLint.Shell
