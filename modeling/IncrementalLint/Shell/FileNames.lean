import IncrementalLint.Files.Workspace
import IncrementalLint.Machine.Raw
import IncrementalLint.Shell.Field

/-!
# File names for patterns

A field with a pattern in it stands for the names of all files that fit, in order. A name that
starts with a point fits only a pattern that says so.

* `FileNames.matching`  the names that a field stands for.
-/

namespace IncrementalLint.Shell.FileNames

/-- a field between its slashes -/
def components : Field → List Field
  | [] => [[]]
  | g :: gs =>
    if g.char == '/' then [] :: components gs
    else
      match components gs with
      | [] => [[g]]
      | c :: cs => (g :: c) :: cs

def pathOf (name : String) : Path := ⟨Raw.toText (if name.isEmpty then "." else name)⟩

/-- the names in a directory, with the two that every directory has -/
def namesIn (w : Workspace) (dir : String) : List String :=
  match w.find (pathOf dir) with
  | .ok (l, .directory _) => "." :: ".." :: (w.children l).map Raw.ofText
  | _ => []

/-- whether a pattern fits a name, which shows its first point -/
def fitsName (p : Pattern) (name : String) : Bool :=
  (!Text.startsWith name "." || p.head? == some (.literal '.')) && p.fits name.toList

/-- whether there is such a file; a link to nothing counts -/
def isThere (w : Workspace) (name : String) : Bool :=
  match w.locate (pathOf name) false with
  | .ok (.found _ _) => true
  | _ => false

/-- the names behind `front` that fit some components -/
def grow (w : Workspace) (front : String) : List Pattern → List String
  | [] => [front]
  | [p] =>
    if p.isLiteral then
      let name := front ++ p.literalText
      if isThere w name then [name] else []
    else ((namesIn w front).filter (fitsName p)).map (front ++ ·)
  | p :: rest =>
    if p.isLiteral then grow w (front ++ p.literalText ++ "/") rest
    else
      ((namesIn w front).filter fun n => fitsName p n && w.isDirectory (pathOf (front ++ n))).flatMap
        fun n => grow w (front ++ n ++ "/") rest

def isPattern (f : Field) : Bool := (components f).any fun c => !c.pattern.isLiteral

/-- the names that a field stands for: those that fit it, or its own text if there are none -/
def matching (w : Workspace) (f : Field) : List String :=
  match (grow w "" ((components f).map Field.pattern)).mergeSort fun a b => a ≤ b with
  | [] => [f.text]
  | names => names

end IncrementalLint.Shell.FileNames
