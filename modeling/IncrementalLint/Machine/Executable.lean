import IncrementalLint.Machine.Program
import IncrementalLint.Machine.Raw

/-!
# Files that can be run

An installed tool is a file that holds a mark and the tool's name. Any other file that can be run
is a script: its first line may name the program that reads it, and the shell reads the rest.

* `resolve`  the tool that running a file starts, and its arguments.
-/

namespace IncrementalLint

/-- what programs know of each other when they start -/
abbrev Environment := List (String × String)

/-- starts a tool with its arguments, the first of which is its own name -/
abbrev Launch := String → List String → Environment → Program Nat

namespace Executable

def mark : String := "\x7fELF "

/-- the content of an installed tool -/
def content (tool : String) : ByteArray := Raw.toBytes (mark ++ tool)

def isGap (c : Char) : Bool := c == ' ' || c == '\t'

def trimGaps (cs : List Char) : List Char :=
  ((cs.dropWhile isGap).reverse.dropWhile isGap).reverse

/-- how much of a file is looked at -/
def headSize : Nat := 256

/-- the first line of a script behind its mark: a program and an argument -/
def interpreter? (text : String) : Option (String × Option String) :=
  match text.toList with
  | '#' :: '!' :: cs =>
    let line := trimGaps (cs.takeWhile (· != '\n'))
    let name := line.takeWhile (!isGap ·)
    let rest := trimGaps (line.dropWhile (!isGap ·))
    some (String.ofList name, if rest.isEmpty then none else some (String.ofList rest))
  | _ => none

/-- the shell that reads scripts -/
def scriptShell : String := "/bin/sh"

/-- the tool that running a file starts, and its arguments -/
def resolve (w : Workspace) : Nat → Path → List String → Except FileError (String × List String)
  | 0, _, _ => .error .tooManyLinks
  | fuel + 1, path, args =>
    match w.find path with
    | .error e => .error e
    | .ok (_, .file content _ true) =>
      let text := Raw.ofBytes (content.extract 0 headSize)
      if Text.startsWith text mark then .ok ((text.drop mark.length).toString, args)
      else
        match interpreter? text with
        | some (name, arg) =>
          resolve w fuel ⟨Raw.toText name⟩
            (name :: (arg.toList ++ (Raw.ofText path.text) :: args.tail))
        | none => .ok ("sh", scriptShell :: Raw.ofText path.text :: args.tail)
    | .ok _ => .error .permissionDenied

/-- the file of a program in the directories of a search path -/
def inPath (w : Workspace) (path name : String) : Option String :=
  let dirs := (Chars.splitAt (· == ':') path.toList).map String.ofList
  let files := dirs.map fun d => if d.isEmpty then name else d ++ "/" ++ name
  files.find? fun f =>
    match w.find ⟨Raw.toText f⟩ with
    | .ok (_, .file _ _ true) => true
    | _ => false

end Executable

end IncrementalLint
