import IncrementalLint.SortedMap
import IncrementalLint.Path
import IncrementalLint.Files.Error

/-!
# A workspace

The files that a run works on: a tree of nodes, each at its location below the root, a clock that
stamps what is written, and the directory that relative paths start from.

* `Workspace.locate`  where a path leads: to a node, or to a free place in a directory.

Links are followed on the way, at most forty of them.  Whoever runs may list, read and write all that
is here: a node has no owner and no permissions beyond whether it can be executed.
-/

namespace IncrementalLint

/-- nanoseconds since the start of 1970 -/
abbrev Time := Int

def Time.ofParts (seconds nanos : Int) : Time := seconds * 1000000000 + nanos
def Time.seconds (t : Time) : Int := Int.fdiv t 1000000000
def Time.nanos (t : Time) : Int := Int.fmod t 1000000000

/-- the names from the root down -/
abbrev Location := List String

inductive Device where
  | null
  | zero
  deriving DecidableEq, Repr

instance decidableEqBytes : DecidableEq ByteArray := ByteArray.instDecidableEq

inductive Node where
  | file (content : ByteArray) (modified : Time) (executable : Bool)
  | directory (modified : Time)
  | link (target : String)
  | device (kind : Device)
  deriving DecidableEq, Inhabited

namespace Node

def modified : Node → Time
  | file _ t _ => t
  | directory t => t
  | link _ => 0
  | device _ => 0

def isDirectory : Node → Bool
  | directory _ => true
  | _ => false

def touch (t : Time) : Node → Node
  | file c _ x => file c t x
  | directory _ => directory t
  | n => n

end Node

structure Workspace where
  nodes : SortedMap Location Node
  clock : Time
  cwd : Location
  deriving Inhabited

namespace Workspace

/-! ## nodes -/

/-- the node at a location; the root is always a directory -/
def node? (w : Workspace) (l : Location) : Option Node :=
  match w.nodes.get? l with
  | some n => some n
  | none => if l = [] then some (.directory 0) else none

def put (w : Workspace) (l : Location) (n : Node) : Workspace := { w with nodes := w.nodes.insert l n }

def drop (w : Workspace) (l : Location) : Workspace := { w with nodes := w.nodes.erase l }

theorem node?_put (w : Workspace) (l m : Location) (n : Node) :
    (w.put l n).node? m = if m = l then some n else w.node? m := by
  unfold node? put
  rw [SortedMap.get?_insert]
  by_cases h : m = l
  · simp [h]
  · simp [h]

/-- the clock moves on by one nanosecond -/
def tick (w : Workspace) : Workspace := { w with clock := w.clock + 1 }

/-! ## where a path leads -/

/-- the longest name, in bytes -/
def maxName : Nat := 255

/-- the longest path, in bytes, with its end mark -/
def maxPath : Nat := 4096

def maxLinks : Nat := 40

/-- a node, or a free place in a directory that exists -/
inductive Place where
  | found (location : Location) (node : Node)
  | free (location : Location) (mustBeDirectory : Bool)
  deriving Inhabited

def pieces (path : String) : List String :=
  (Chars.splitAt PathText.isSlash path.toList).map String.ofList

def isAbsolute (path : String) : Bool := PathText.isAbsolute path.toList

/--
follows the pieces of a path from the directory `here`, with `links` links to go; the last piece is
followed too if it is a link and `follow` is set
-/
def walk (w : Workspace) (follow : Bool) (links : Nat) (here : Location) :
    List String → Except FileError Place
  | [] =>
    match w.node? here with
    | some n => .ok (.found here n)
    | none => .error .notFound
  | piece :: rest =>
    if piece = "" || piece = "." then walk w follow links here rest
    else if piece = ".." then walk w follow links here.dropLast rest
    else if piece.utf8ByteSize > maxName then .error .nameTooLong
    else
      let there := here ++ [piece]
      match w.node? there with
      | none =>
        if rest.all (· = "") then .ok (.free there !rest.isEmpty) else .error .notFound
      | some (.directory _) => walk w follow links there rest
      | some (.link target) =>
        if rest.isEmpty && !follow then .ok (.found there (.link target))
        else
          match links with
          | 0 => .error .tooManyLinks
          | links + 1 =>
            walk w follow links (if isAbsolute target then [] else here) (pieces target ++ rest)
      | some node => if rest.isEmpty then .ok (.found there node) else .error .notDirectory
termination_by ps => (links, ps.length)

/-- where a path leads -/
def locate (w : Workspace) (path : Path) (follow : Bool) : Except FileError Place :=
  if path.text.toList.contains (Char.ofNat 0) then .error .nulInName
  else if path.text = "" then .error .notFound
  else if path.text.utf8ByteSize ≥ maxPath then .error .nameTooLong
  else walk w follow maxLinks (if path.isAbsolute then [] else w.cwd) (pieces path.text)

/-! ## questions -/

def find (w : Workspace) (path : Path) : Except FileError (Location × Node) := do
  match ← w.locate path true with
  | .found l n => .ok (l, n)
  | .free _ _ => .error .notFound

def present (w : Workspace) (path : Path) : Bool := (w.find path).isOk

def isDirectory (w : Workspace) (path : Path) : Bool :=
  match w.find path with
  | .ok (_, n) => n.isDirectory
  | .error _ => false

def isFile (w : Workspace) (path : Path) : Bool :=
  match w.find path with
  | .ok (_, .file _ _ _) => true
  | _ => false

def modified (w : Workspace) (path : Path) : Except FileError Time := do
  let (_, n) ← w.find path
  return n.modified

/-- all that a path leads to, read to its end -/
def read (w : Workspace) (path : Path) : Except FileError ByteArray := do
  match ← w.find path with
  | (_, .file content _ _) => .ok content
  | (_, .directory _) => .error .isDirectory
  -- zeros without an end: the read goes on for as long as there is memory
  | (_, .device .zero) => .error .outOfMemory
  | _ => .ok ByteArray.empty

def pathOf (l : Location) : Path := ⟨"/" ++ Text.joinWith "/" l⟩

/-- the directory that relative paths start from -/
def cwdPath (w : Workspace) : Path := pathOf w.cwd

/-- the one spelling of a path that exists, without links -/
def canonical (w : Workspace) (path : Path) : Except FileError Path := do
  let (l, _) ← w.find path
  return pathOf l

def isBelow (dir l : Location) : Bool := dir.isPrefixOf l && dir != l

def below (w : Workspace) (dir : Location) : List (Location × Node) :=
  w.nodes.toList.filter fun e => isBelow dir e.1

def children (w : Workspace) (dir : Location) : List String :=
  ((w.below dir).filter fun e => e.1.length == dir.length + 1).filterMap fun e => e.1.getLast?

end Workspace

end IncrementalLint
