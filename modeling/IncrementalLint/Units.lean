import IncrementalLint.Config.Settings
import IncrementalLint.Files.Change
import IncrementalLint.Json.Decode
import IncrementalLint.Json.Reader
import IncrementalLint.Shell.Quote

/-!
# Units

A compilation database lists how each file of a project is compiled. The units of a run are the
files below the source root that the filter accepts, each once, with the first entry that names it.

* `SourceUnit.id`         the file below the source root, its components joined by `/`;
* `SourceUnit.listing`    where the unit's dependencies are listed;
* `CompileEntry.select`   the units among the entries of a database;
* `SourceUnit.enumerate`  the units of a database file.
-/

namespace IncrementalLint

structure SourceUnit where
  id : String
  path : Path
  command : String
  directory : Path
  deriving DecidableEq, Inhabited

/-- where the dependencies of a unit are listed -/
def SourceUnit.listing (u : SourceUnit) (dir : Path) : Path := dir.join ⟨u.id ++ ".d"⟩

theorem SourceUnit.text_listing (u : SourceUnit) (dir : Path) :
    ∃ cs, (u.listing dir).text.toList = cs ++ ".d".toList := by
  unfold SourceUnit.listing Path.join
  split
  · exact ⟨_, String.toList_append⟩
  · split
    · exact ⟨dir.text.toList ++ u.id.toList, by simp⟩
    · exact ⟨dir.text.toList ++ "/".toList ++ u.id.toList, by simp⟩

theorem SourceUnit.exists_parent_listing (u : SourceUnit) (dir : Path) :
    ∃ q, (u.listing dir).parent? = some q := by
  obtain ⟨cs, hcs⟩ := u.text_listing dir
  refine Path.exists_parent (show 'd' ≠ '/' by decide) (by decide) ?_
  rw [hcs]
  cases cs with
  | nil => decide
  | cons c cs => simp

inductive CompileDbError where
  | unreadable (path : Path) (cause : FileError)
  | malformed (path : Path)
  | noUnits (path : Path)
  deriving DecidableEq, Inhabited

def CompileDbError.message : CompileDbError → String
  | .unreadable path cause =>
    "failed to read compilation database " ++ path.text ++ ": " ++ cause.message
  | .malformed path =>
    "malformed compilation database " ++ path.text ++ ": not a list of compile commands"
  | .noUnits path => "compilation database " ++ path.text ++ " contains no units to analyze"

/-! ## entries of a database -/

structure CompileEntry where
  directory : Path
  file : Path
  command : Option String := none
  arguments : Option (List String) := none
  deriving DecidableEq, Inhabited

namespace CompileEntry

open Json in
def ofJson? (v : Json) : Option CompileEntry := do
  let fs ← Fields.ofJson? ["directory", "file", "command", "arguments"] v
  return {
    directory := ⟨← fs.required? "directory" asString?⟩
    file := ⟨← fs.required? "file" asString?⟩
    command := ← fs.withDefault? "command" none (asOption? asString?)
    arguments := ← fs.withDefault? "arguments" none (asOption? (asList? asString?)) }

def path (e : CompileEntry) : Path := e.directory.join e.file

/-- the file below the source root; none if it lies elsewhere -/
def id? (e : CompileEntry) (root : Path) : Option String :=
  (e.path.below? root).map fun cs => Text.joinWith "/" (cs.map Component.text)

/-- the command as it is written, or its arguments quoted for the shell -/
def commandLine? (e : CompileEntry) : Option String :=
  match e.command, e.arguments with
  | some c, _ => some c
  | none, some (a :: as) => some (Shell.quoteAll (a :: as))
  | none, _ => none

def unit (e : CompileEntry) (id command : String) : SourceUnit := ⟨id, e.path, command, e.directory⟩

/-- the units among entries, `seen` being the ids of those in front -/
def selectFrom (root : Path) (filter : UnitFilter) (seen : List String) :
    List CompileEntry → List SourceUnit
  | [] => []
  | e :: es =>
    match e.id? root with
    | none => selectFrom root filter seen es
    | some id =>
      if !filter.accepts id || seen.contains id then selectFrom root filter seen es
      else
        match e.commandLine? with
        | none => selectFrom root filter (id :: seen) es
        | some command => e.unit id command :: selectFrom root filter (id :: seen) es

/-- the units among the entries of a database -/
def select (root : Path) (filter : UnitFilter) (es : List CompileEntry) : List SourceUnit :=
  selectFrom root filter [] es

end CompileEntry

/-- the units of a database file -/
def SourceUnit.enumerate (w : Workspace) (db root : Path) (filter : UnitFilter) :
    Except CompileDbError (List SourceUnit) :=
  match w.readText db with
  | .error e => .error (.unreadable db e)
  | .ok text =>
    match (Json.read? text).bind (Json.asList? CompileEntry.ofJson?) with
    | none => .error (.malformed db)
    | some es =>
      match CompileEntry.select root filter es with
      | [] => .error (.noUnits db)
      | us => .ok us

end IncrementalLint
