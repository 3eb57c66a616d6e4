import IncrementalLint.Files.Workspace
import IncrementalLint.Text.Utf8

/-!
# Changing files

Every change stamps what it writes with the clock and moves the clock on, so that later changes
have later times. An operation that fails leaves the workspace as far as it got.
-/

namespace IncrementalLint.Workspace

/-- what a change leaves behind, and whether it succeeded -/
abbrev Changed := Workspace × Except FileError Unit

/-- notes that the entries of the directory around a location changed -/
def touchParent (w : Workspace) (l : Location) : Workspace :=
  match w.node? l.dropLast with
  | some (.directory _) => if l = [] then w else w.put l.dropLast (.directory w.clock)
  | _ => w

def add (w : Workspace) (l : Location) (n : Node) : Workspace := ((w.put l n).touchParent l).tick

def overwrite (w : Workspace) (l : Location) (n : Node) : Workspace := (w.put l n).tick

def remove (w : Workspace) (l : Location) : Workspace := ((w.drop l).touchParent l).tick

/-! ## files -/

def write (w : Workspace) (path : Path) (content : ByteArray) : Changed :=
  match w.locate path true with
  | .error e => (w, .error e)
  | .ok (.free l mustBeDirectory) =>
    if mustBeDirectory then (w, .error .isDirectory)
    else (w.add l (.file content w.clock false), .ok ())
  | .ok (.found l (.file _ _ x)) => (w.overwrite l (.file content w.clock x), .ok ())
  | .ok (.found _ (.directory _)) => (w, .error .isDirectory)
  | .ok (.found _ _) => (w, .ok ())

def unlink (w : Workspace) (path : Path) : Changed :=
  match w.locate path false with
  | .error e => (w, .error e)
  | .ok (.free _ _) => (w, .error .notFound)
  | .ok (.found _ (.directory _)) => (w, .error .isDirectory)
  | .ok (.found l _) => (w.remove l, .ok ())

def setModified (w : Workspace) (path : Path) (t : Time) : Changed :=
  match w.find path with
  | .error e => (w, .error e)
  | .ok (l, n) => (w.put l (n.touch t), .ok ())

def link (w : Workspace) (path : Path) (target : String) : Changed :=
  if target.toList.contains (Char.ofNat 0) then (w, .error .nulInName)
  else if target = "" then (w, .error .notFound)
  else
    match w.locate path false with
    | .error e => (w, .error e)
    | .ok (.found _ _) => (w, .error .alreadyExists)
    | .ok (.free l mustBeDirectory) =>
      if mustBeDirectory then (w, .error .notFound) else (w.add l (.link target), .ok ())

/-! ## directories -/

def createDirectory (w : Workspace) (path : Path) : Changed :=
  match w.locate path false with
  | .error e => (w, .error e)
  | .ok (.found _ _) => (w, .error .alreadyExists)
  | .ok (.free l _) => (w.add l (.directory w.clock), .ok ())

/-- how often a parent can be taken at most -/
def depth (path : Path) : Nat := path.text.length + 1

/-- makes a directory and those above it that are missing -/
def createDirectoriesFrom (w : Workspace) (path : Path) : Nat → Changed
  | 0 => (w, .error .notFound)
  | fuel + 1 =>
    if path.components.isEmpty then (w, .ok ())
    else
      match w.createDirectory path with
      | (w, .ok ()) => (w, .ok ())
      | (_, .error e) =>
        if e = .notFound then
          match path.parent? with
          | none => (w, .error .notFound)
          | some up =>
            match createDirectoriesFrom w up fuel with
            | (w, .error e) => (w, .error e)
            | (w, .ok ()) =>
              match w.createDirectory path with
              | (w, .ok ()) => (w, .ok ())
              | (w, .error e) => if w.isDirectory path then (w, .ok ()) else (w, .error e)
        else if w.isDirectory path then (w, .ok ())
        else (w, .error e)

def createDirectories (w : Workspace) (path : Path) : Changed :=
  createDirectoriesFrom w path (depth path)

/-- makes the directory that a file is to stand in, if its path names one; the path is for the
message -/
def createParent (w : Workspace) (path : Path) : Workspace × Except (Path × FileError) Unit :=
  match path.parent? with
  | none => (w, .ok ())
  | some up =>
    if up.isEmpty then (w, .ok ())
    else
      match w.createDirectories up with
      | (w, .ok ()) => (w, .ok ())
      | (w, .error e) => (w, .error (up, e))

def removeDirectory (w : Workspace) (path : Path) : Changed :=
  match w.locate path false with
  | .error e => (w, .error e)
  | .ok (.free _ _) => (w, .error .notFound)
  | .ok (.found l (.directory _)) =>
    if (w.below l).isEmpty then (w.remove l, .ok ()) else (w, .error .notEmpty)
  | .ok (.found _ _) => (w, .error .notDirectory)

/-- takes a node away with all that lies below it -/
def removeTree (w : Workspace) (l : Location) : Workspace :=
  ({ w with nodes := w.nodes.filterKeys fun k => !l.isPrefixOf k }.touchParent l).tick

/-- moves a node with all that lies below it; what is at its new place goes away -/
def moveTree (w : Workspace) (l dest : Location) : Workspace :=
  let moved := (w.nodes.toList.filter fun e => l.isPrefixOf e.1).map fun e =>
    (dest ++ e.1.drop l.length, e.2)
  let w := (w.removeTree l).drop dest
  ((moved.foldl (fun w e => w.put e.1 e.2) w).touchParent dest).tick

def setExecutable (w : Workspace) (path : Path) (f : Bool → Bool) : Changed :=
  match w.find path with
  | .error e => (w, .error e)
  | .ok (l, .file c t x) => (w.put l (.file c t (f x)), .ok ())
  | .ok _ => (w, .ok ())

/-! ## reading as text -/

def readText (w : Workspace) (path : Path) : Except FileError String := do
  match Utf8.decode? (← w.read path) with
  | some s => .ok s
  | none => .error .notText

def writeText (w : Workspace) (path : Path) (text : String) : Changed :=
  w.write path (Utf8.encode text)

def saveText (w : Workspace) (path : Path) (text : String) : Changed :=
  match w.createParent path with
  | (w, .error (_, e)) => (w, .error e)
  | (w, .ok ()) => w.writeText path text

end IncrementalLint.Workspace
