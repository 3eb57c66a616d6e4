import IncrementalLint.Shell.Pattern

/-!
# Fields

What an expanded word consists of: characters that remember whether they were quoted and whether
an expansion made them, places where an empty text was quoted, and ends of fields. Splitting makes
fields of it.

* `Bits.split`  the fields, cut at separators that expansions made;
* `Bits.text`   the text, cut nowhere.
-/

namespace IncrementalLint.Shell

structure Glyph where
  char : Char
  quoted : Bool
  /-- whether an expansion outside quotes made it -/
  expanded : Bool
  deriving DecidableEq

/-- a piece of an expanded word -/
inductive Bit where
  | glyph (g : Glyph)
  /-- an empty quoted text -/
  | mark
  /-- the end of a field -/
  | cut
  deriving DecidableEq

abbrev Field := List Glyph
abbrev Bits := List Bit

namespace Field

def text (f : Field) : String := String.ofList (f.map (·.char))

def pattern (f : Field) : Pattern := Pattern.ofMarked (f.map fun g => (g.char, g.quoted))

end Field

namespace Bits

/-- the bits of a text; a quoted one leaves a mark if it is empty -/
def ofText (s : String) (quoted expanded : Bool) : Bits :=
  if quoted && s.isEmpty then [.mark] else s.toList.map fun c => .glyph ⟨c, quoted, expanded⟩

/-- the text without cuts -/
def field (bs : Bits) : Field := bs.filterMap fun
  | .glyph g => some g
  | .mark => none
  | .cut => some ⟨' ', true, false⟩

def text (bs : Bits) : String := (field bs).text

/-! ## splitting -/

/-- blanks between fields, which come in any number -/
def isBlank (c : Char) : Bool := c == ' ' || c == '\t' || c == '\n'

/-- the fields so far, last one first, and the one under construction -/
structure Splitting where
  fields : List Field := []
  current : Option (List Glyph) := none
  /-- whether the last field ended at a blank, which a following separator belongs to -/
  open_ : Bool := false

namespace Splitting

def finish (s : Splitting) : Splitting :=
  match s.current with
  | some gs => { s with fields := gs.reverse :: s.fields, current := none }
  | none => s

def step (separators : List Char) (s : Splitting) : Bit → Splitting
  | .mark => { s with current := some (s.current.getD []), open_ := false }
  | .cut => { s.finish with open_ := false }
  | .glyph g =>
    if g.expanded && !g.quoted && separators.contains g.char then
      if isBlank g.char then
        { s.finish with open_ := s.open_ || s.current.isSome }
      else if s.current.isSome then { s.finish with open_ := false }
      else if s.open_ then { s with open_ := false }
      else { s with fields := [] :: s.fields }
    else { s with current := some (g :: s.current.getD []), open_ := false }

end Splitting

def split (separators : List Char) (bs : Bits) : List Field :=
  (bs.foldl (Splitting.step separators) {}).finish.fields.reverse

end Bits

/-! ## fields of a line -/

/-- a character of a line and whether a backslash stood in front of it -/
abbrev LineChar := Char × Bool

def isSeparator (separators : List Char) (c : LineChar) : Bool := separators.contains c.1 && !c.2

def isBlankSeparator (separators : List Char) (c : LineChar) : Bool :=
  isSeparator separators c && Bits.isBlank c.1

/-- a text without the blanks at its end -/
def dropEndBlanks (separators : List Char) (cs : List LineChar) : List LineChar :=
  (cs.reverse.dropWhile (isBlankSeparator separators)).reverse

/-- what follows the separator at the front of a text -/
def dropSeparator (separators : List Char) (cs : List LineChar) : List LineChar :=
  match cs.dropWhile (isBlankSeparator separators) with
  | c :: rest =>
    if isSeparator separators c then rest.dropWhile (isBlankSeparator separators) else c :: rest
  | [] => []

/-- a line as that many fields; the last one takes all that is left -/
def lineFields (separators : List Char) : Nat → List LineChar → List String
  | 0, _ => []
  | 1, cs =>
    let cs := dropEndBlanks separators cs
    let one := cs.takeWhile (!isSeparator separators ·)
    let rest := dropSeparator separators (cs.dropWhile (!isSeparator separators ·))
    [String.ofList ((if rest.isEmpty then one else cs).map (·.1))]
  | n + 1, cs =>
    String.ofList ((cs.takeWhile (!isSeparator separators ·)).map (·.1)) ::
      lineFields separators n
        (dropSeparator separators (cs.dropWhile (!isSeparator separators ·)))

end IncrementalLint.Shell
