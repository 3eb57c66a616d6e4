import IncrementalLint.Files.Change

/-!
# Dependency listings

A compiler lists the files that a unit's compilation pulled in as make rules: a line that starts a
rule names the target first, lines that continue it start with a blank, and a lone backslash only
says that the rule goes on. All other words are files.

* `Listing.parse`  the files of a listing, as a set of paths;
* `Listing.read`   the listing in a file, if there is one.
-/

namespace IncrementalLint.Listing

def isContinuation (word : List Char) : Bool := word == ['\\']

def startsWithBlank : List Char → Bool
  | c :: _ => Chars.isBlank c
  | [] => false

/-- the files that one line names -/
def lineFiles (line : List Char) : List (List Char) :=
  let ws := Chars.words line
  (if startsWithBlank line then ws else ws.drop 1).filter fun w => !isContinuation w

def words (text : List Char) : List (List Char) := (Chars.lines text).flatMap lineFiles

/-- the set of files that a listing names -/
def parse (text : String) : PathSet :=
  PathSet.ofList ((words text.toList).map fun w => ⟨String.ofList w⟩)

/-- the listing in a file; none if there is no such file -/
def read (w : Workspace) (path : Path) : Except FileError (Option PathSet) :=
  match w.readText path with
  | .ok text => .ok (some (parse text))
  | .error .notFound => .ok none
  | .error e => .error e

end IncrementalLint.Listing
