import IncrementalLint.CommandLine.Perform
import IncrementalLint.Machine.Host

/-!
# The command line

The words are the arguments of the program. The files of the workspace are read from the standard
input: one JSON object, with the content of every file under its path. A path that is not absolute
starts at the home directory, which is the current one.
-/

namespace IncrementalLint

/-- a system with some files, all older than anything written from now on -/
def Workspace.ofFiles (now : Time) (files : List (String × String)) : Workspace :=
  let home := { Workspace.fresh now with cwd := ["root"] }
  files.foldl (fun w f => (w.saveText ⟨f.1⟩ f.2).1) home

/-- the paths and contents that a JSON object lists; nothing lists none -/
def filesOf? (text : String) : Option (List (String × String)) :=
  if (Text.trim text).isEmpty then some []
  else (Json.read? text).bind fun v => (Json.asMap? Json.asString? v).map (·.toList)

end IncrementalLint

open IncrementalLint in
def main (words : List String) : IO UInt32 := do
  let input ← (← IO.getStdin).readToEnd
  match filesOf? input with
  | none =>
    IO.eprintln "error: the standard input lists no files"
    return 1
  | some files =>
    let now ← IO.monoNanosNow
    let (_, shown) := perform Host.standard words (Workspace.ofFiles now files)
    IO.print shown.stdout
    IO.eprint shown.stderr
    return shown.status.toUInt32
