import IncrementalLint.Config.Load

/-!
# Finding a project

A project is the directory that holds its settings. It is named by its directory or by a file with
settings in it, or it is the nearest one from the current directory upwards.

* `Project.root?`      the nearest directory upwards that holds settings;
* `Project.locate`     the directory and the settings that a command is about.
-/

namespace IncrementalLint

inductive ProjectError where
  | noRoot (start : Path)
  | settings (cause : ConfigError)
  | file (cause : FileError)
  deriving DecidableEq, Inhabited

def ProjectError.message : ProjectError → String
  | .noRoot start =>
    "could not find " ++ Settings.fileName ++ " in " ++ start.text ++ " or any parent directory"
  | .settings cause => cause.message
  | .file cause => cause.message

namespace Project

def hasSettings (w : Workspace) (dir : Path) : Bool := w.present (dir.join ⟨Settings.fileName⟩)

/-- the nearest directory that holds settings, from a path upwards -/
def root? (w : Workspace) (p : Path) : Option Path :=
  if hasSettings w p then some p
  else
    match _ : p.parent? with
    | none => none
    | some up => root? w up
termination_by p.text.toList.length
decreasing_by exact Path.length_parent? (by assumption)

def root (w : Workspace) (start : Path) : Except ProjectError Path :=
  match root? w start with
  | some dir => .ok dir
  | none => .error (.noRoot start)

/-- the directory around a file -/
def around (file : Path) : Path :=
  match file.parent? with
  | some dir => if dir.isEmpty then ⟨"."⟩ else dir
  | none => ⟨"."⟩

/-- a directory with the settings found for it -/
def under (dir : Path) (s : Except ConfigError Settings) : Except ProjectError (Path × Settings) :=
  match s with
  | .ok s => .ok (dir, s)
  | .error e => .error (.settings e)

/-- a project named by a file or a directory; the nearest one if none is named -/
def named (w : Workspace) : Option Path → Except ProjectError (Path × Settings)
  | some p =>
    if w.isFile p then under (around p) (Settings.loadFile w p) else under p (Settings.load w p)
  | none =>
    match root w w.cwdPath with
    | .ok dir => under dir (Settings.load w dir)
    | .error e => .error e

/-- the directory, in its one spelling, and the settings of a project -/
def locate (w : Workspace) (name : Option Path) : Except ProjectError (Path × Settings) :=
  match named w name with
  | .error e => .error e
  | .ok (dir, s) =>
    match w.canonical dir with
    | .ok dir => .ok (dir, s)
    | .error e => .error (.file e)

end Project

end IncrementalLint
