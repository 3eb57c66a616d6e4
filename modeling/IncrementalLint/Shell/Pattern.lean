/-!
# Patterns

Patterns for names: `*` stands for any text, `?` for any character, brackets for a character of a
set, and everything else for itself. A quoted character always stands for itself.

* `Pattern.ofMarked`      reads a pattern;
* `Pattern.fits`          whether a pattern stands for a text;
* `Pattern.dropFront`     a text without a part at its front that a pattern stands for.
-/

namespace IncrementalLint.Shell

inductive SetItem where
  | single (c : Char)
  | range (first last : Char)
  | named (p : String)
  deriving DecidableEq

inductive Piece where
  | literal (c : Char)
  | one
  | many
  | set (negated : Bool) (items : List SetItem)
  deriving DecidableEq

abbrev Pattern := List Piece

namespace SetItem

/-- the characters of a named class -/
def classHolds (name : String) (c : Char) : Bool :=
  match name with
  | "alnum" => c.isAlphanum
  | "alpha" => c.isAlpha
  | "blank" => c == ' ' || c == '\t'
  | "cntrl" => c.toNat < 32 || c.toNat == 127
  | "digit" => c.isDigit
  | "graph" => 32 < c.toNat && c.toNat < 127
  | "lower" => c.isLower
  | "print" => 32 ≤ c.toNat && c.toNat < 127
  | "punct" => 32 < c.toNat && c.toNat < 127 && !c.isAlphanum
  | "space" => c == ' ' || (9 ≤ c.toNat && c.toNat ≤ 13)
  | "upper" => c.isUpper
  | "xdigit" => c.isDigit || ('a' ≤ c && c ≤ 'f') || ('A' ≤ c && c ≤ 'F')
  | _ => false

def holds (c : Char) : SetItem → Bool
  | single d => c == d
  | range first last => first ≤ c && c ≤ last
  | named n => classHolds n c

end SetItem

namespace Pattern

/-! ## reading -/

/-- a character of a pattern and whether it was quoted -/
abbrev Marked := Char × Bool

def plain (c : Char) (m : Marked) : Bool := m.1 == c && !m.2

/-- the name of a class up to `:]`, and what follows -/
def className? : List Marked → Option (List Char × List Marked)
  | a :: b :: rest =>
    if plain ':' a && plain ']' b then some ([], rest)
    else if a.1.isAlpha then (className? (b :: rest)).map fun (n, r) => (a.1 :: n, r)
    else none
  | _ => none

/-- the end of a range behind its first character, and what follows -/
def rangeEnd? : List Marked → Option (Char × List Marked)
  | dash :: e :: rest =>
    if plain '-' dash && !plain ']' e then
      if plain '\\' e then
        match rest with
        | (c, _) :: rest => some (c, rest)
        | [] => none
      else some (e.1, rest)
    else none
  | _ => none

/-- the items of a set up to its closing bracket, which may stand first as an item -/
def setItems? : Nat → Bool → List Marked → Option (List SetItem × List Marked)
  | 0, _, _ => none
  | _, _, [] => none
  | fuel + 1, first, m :: rest =>
    if plain ']' m && !first then some ([], rest)
    else
      let named? := if plain '[' m then
          match rest with
          | colon :: more => if plain ':' colon then className? more else none
          | [] => none
        else none
      match named? with
      | some (name, rest) =>
        (setItems? fuel false rest).map fun (is, r) => (.named (String.ofList name) :: is, r)
      | none =>
        let (c, rest) := match plain '\\' m, rest with
          | true, (d, _) :: rest => (d, rest)
          | _, _ => (m.1, rest)
        match rangeEnd? rest with
        | some (last, rest) =>
          (setItems? fuel false rest).map fun (is, r) => (.range c last :: is, r)
        | none => (setItems? fuel false rest).map fun (is, r) => (.single c :: is, r)

/-- a set behind its opening bracket, and what follows -/
def set? (ms : List Marked) : Option (Piece × List Marked) :=
  let (negated, ms) := match ms with
    | m :: rest => if plain '!' m then (true, rest) else (false, ms)
    | [] => (false, ms)
  (setItems? (ms.length + 1) true ms).map fun (is, rest) => (.set negated is, rest)

def readPieces : Nat → List Marked → Pattern
  | 0, _ => []
  | _, [] => []
  | fuel + 1, m :: rest =>
    if plain '*' m then .many :: readPieces fuel rest
    else if plain '?' m then .one :: readPieces fuel rest
    else if plain '\\' m then
      match rest with
      | (c, _) :: rest => .literal c :: readPieces fuel rest
      | [] => [.literal '\\']
    else if plain '[' m then
      match set? rest with
      | some (p, rest) => p :: readPieces fuel rest
      | none => .literal '[' :: readPieces fuel rest
    else .literal m.1 :: readPieces fuel rest

/-- the pattern that marked text writes -/
def ofMarked (ms : List Marked) : Pattern := readPieces (ms.length + 1) ms

def isLiteral (p : Pattern) : Bool := p.all fun
  | .literal _ => true
  | _ => false

def literalText (p : Pattern) : String := String.ofList (p.filterMap fun
  | .literal c => some c
  | _ => none)

/-! ## matching -/

def Piece.fits (c : Char) : Piece → Bool
  | .literal d => c == d
  | .one => true
  | .many => true
  | .set negated items => items.any (·.holds c) != negated

def fits : Pattern → List Char → Bool
  | [], cs => cs.isEmpty
  | .many :: ps, [] => fits ps []
  | .many :: ps, c :: cs => fits ps (c :: cs) || fits (.many :: ps) cs
  | _ :: _, [] => false
  | p :: ps, c :: cs => Piece.fits c p && fits ps cs
termination_by ps cs => (ps.length, cs.length)

/-- lengths from `n` down to zero, or up from zero to `n` -/
def lengths (n : Nat) (long : Bool) : List Nat :=
  let ns := List.range (n + 1)
  if long then ns.reverse else ns

/-- a text without the shortest or longest front that a pattern stands for -/
def dropFront (p : Pattern) (long : Bool) (cs : List Char) : List Char :=
  match (lengths cs.length long).find? fun n => fits p (cs.take n) with
  | some n => cs.drop n
  | none => cs

/-- a text without the shortest or longest end that a pattern stands for -/
def dropEnd (p : Pattern) (long : Bool) (cs : List Char) : List Char :=
  match (lengths cs.length long).find? fun n => fits p (cs.drop (cs.length - n)) with
  | some n => cs.take (cs.length - n)
  | none => cs

end Pattern

end IncrementalLint.Shell
