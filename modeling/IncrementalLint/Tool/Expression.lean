import IncrementalLint.Shell.Pattern

/-!
# Regular expressions

Expressions in the two usual spellings: with a backslash in front of `(`, `|`, `+`, `?` and braces
where these have a meaning, or without. A match is found by trying; of several, the leftmost one
counts, and of those the longest.

* `Expression.read`    reads an expression;
* `Expression.match?`  where in a text an expression first matches.
-/

namespace IncrementalLint.Tool

inductive Expression where
  | empty
  | char (c : Char)
  | any
  | set (negated : Bool) (items : List Shell.SetItem)
  | start
  | stop
  | wordEdge (inside : Bool)
  | group (index : Nat) (e : Expression)
  | same (index : Nat)
  | seq (a b : Expression)
  | alt (a b : Expression)
  | repeat_ (least : Nat) (most : Option Nat) (e : Expression)
  deriving Inhabited

namespace Expression

/-! ## reading -/

inductive Fault where
  | unmatchedBracket
  | unmatchedOpen (extended : Bool)
  | unmatchedClose (extended : Bool)
  | trailingBackslash
  | badRange
  deriving DecidableEq

def Fault.message : Fault → String
  | unmatchedBracket => "Unmatched [, [^, [:, [., or [="
  | unmatchedOpen _ => "Unmatched ( or \\("
  | unmatchedClose _ => "Unmatched ) or \\)"
  | trailingBackslash => "Trailing backslash"
  | badRange => "Invalid range end"

structure Reading where
  rest : List Char
  groups : Nat := 0

abbrev Read := StateT Reading (Except Fault)

/-- what one piece of an expression's text means -/
inductive Lexeme where
  | plain (c : Char)
  | any
  | open_
  | close
  | bar
  | star
  | plus
  | question
  | brace
  | bracket
  | caret
  | dollar
  | same (index : Nat)
  | edge (inside : Bool)
  | wordChar (negated : Bool)

/-- the meaning of a character behind a backslash -/
def escapedLexeme (extended : Bool) (c : Char) : Lexeme :=
  let special (l : Lexeme) : Lexeme := if extended then .plain c else l
  match c with
  | '(' => special .open_
  | ')' => special .close
  | '|' => special .bar
  | '+' => special .plus
  | '?' => special .question
  | '\x7b' => special .brace
  | 'b' => .edge true
  | '<' => .edge true
  | '>' => .edge true
  | 'B' => .edge false
  | 'w' => .wordChar false
  | 'W' => .wordChar true
  | c => if '1' ≤ c && c ≤ '9' then .same (c.toNat - 48) else .plain c

def plainLexeme (extended : Bool) (c : Char) : Lexeme :=
  let special (l : Lexeme) : Lexeme := if extended then l else .plain c
  match c with
  | '.' => .any
  | '*' => .star
  | '[' => .bracket
  | '^' => .caret
  | '$' => .dollar
  | '(' => special .open_
  | ')' => special .close
  | '|' => special .bar
  | '+' => special .plus
  | '?' => special .question
  | '\x7b' => special .brace
  | c => .plain c

/-- the next piece and how many characters it has; none at the end -/
def peek (extended : Bool) : Read (Option (Lexeme × Nat)) := do
  match (← get).rest with
  | [] => return none
  | ['\\'] => throw .trailingBackslash
  | '\\' :: c :: _ => return some (escapedLexeme extended c, 2)
  | c :: _ => return some (plainLexeme extended c, 1)

def skip (n : Nat) : Read Unit := modify fun s => { s with rest := s.rest.drop n }

/-- the items of a set up to its closing bracket -/
def setItems : Nat → Bool → Read (List Shell.SetItem)
  | 0, _ => throw .unmatchedBracket
  | fuel + 1, first => do
    match (← get).rest with
    | [] => throw .unmatchedBracket
    | ']' :: rest =>
      if first then single ']' rest fuel
      else
        modify fun s => { s with rest }
        return []
    | '[' :: ':' :: rest =>
      let name := rest.takeWhile Char.isAlpha
      match rest.drop name.length with
      | ':' :: ']' :: rest => do
        modify fun s => { s with rest }
        return .named (String.ofList name) :: (← setItems fuel false)
      | _ => single '[' (':' :: rest) fuel
    | c :: rest => single c rest fuel
where
  single (c : Char) (rest : List Char) (fuel : Nat) : Read (List Shell.SetItem) := do
    match rest with
    | '-' :: ']' :: _ =>
      modify fun s => { s with rest }
      return .single c :: (← setItems fuel false)
    | '-' :: d :: more => do
      if d < c then throw .badRange
      modify fun s => { s with rest := more }
      return .range c d :: (← setItems fuel false)
    | _ =>
      modify fun s => { s with rest }
      return .single c :: (← setItems fuel false)

def bracket : Read Expression := do
  skip 1
  let s ← get
  let fuel := s.rest.length + 1
  match s.rest with
  | '^' :: _ => do
    skip 1
    return .set true (← setItems fuel true)
  | _ => return .set false (← setItems fuel true)

/-- the bounds of a repetition behind its opening brace, and what follows -/
def bounds? (extended : Bool) (cs : List Char) : Option (Nat × Option Nat × List Char) :=
  let lo := cs.takeWhile Char.isDigit
  let n := ((String.ofList lo).toNat?).getD 0
  let close (cs : List Char) : Option (List Char) :=
    match cs, extended with
    | '\x7d' :: rest, true => some rest
    | '\\' :: '\x7d' :: rest, false => some rest
    | _, _ => none
  match cs.drop lo.length with
  | ',' :: more =>
    let hi := more.takeWhile Char.isDigit
    (close (more.drop hi.length)).map fun rest => (n, (String.ofList hi).toNat?, rest)
  | rest => if lo.isEmpty then none else (close rest).map fun rest => (n, some n, rest)

def wordItems : List Shell.SetItem := [.named "alnum", .single '_']

/-- puts repetitions around an expression -/
def repetitions (extended : Bool) : Nat → Expression → Read Expression
  | 0, e => return e
  | fuel + 1, e => do
    match ← peek extended with
    | some (.star, n) => do
      skip n
      repetitions extended fuel (.repeat_ 0 none e)
    | some (.plus, n) => do
      skip n
      repetitions extended fuel (.repeat_ 1 none e)
    | some (.question, n) => do
      skip n
      repetitions extended fuel (.repeat_ 0 (some 1) e)
    | some (.brace, n) =>
      match bounds? extended ((← get).rest.drop n) with
      | some (least, most, rest) => do
        modify fun s => { s with rest }
        repetitions extended fuel (.repeat_ least most e)
      | none => return e
    | _ => return e

/-- reads alternatives up to the end or a closing parenthesis; `depth` counts the open ones -/
def alternatives (extended : Bool) : Nat → Nat → Read Expression
  | 0, _ => return .empty
  | fuel + 1, depth => do
    let e ← branch fuel depth true
    match ← peek extended with
    | some (.bar, n) => do
      skip n
      return .alt e (← alternatives extended fuel depth)
    | _ => return e
where
  /-- one alternative; `first` says that nothing was read of it yet -/
  branch : Nat → Nat → Bool → Read Expression
    | 0, _, _ => return .empty
    | fuel + 1, depth, first => do
      match ← peek extended with
      | none => return .empty
      | some (.bar, _) => return .empty
      | some (.close, n) =>
        if depth > 0 then return .empty
        else if extended then do
          skip n
          continue_ fuel depth (.char ')')
        else throw (.unmatchedClose extended)
      | some (.open_, n) => do
        skip n
        let index := (← get).groups + 1
        modify fun s => { s with groups := index }
        let e ← alternatives extended fuel (depth + 1)
        match ← peek extended with
        | some (.close, n) => do
          skip n
          continue_ fuel depth (.group index e)
        | _ => throw (.unmatchedOpen extended)
      | some (.bracket, _) => do continue_ fuel depth (← bracket)
      | some (.any, n) => do
        skip n
        continue_ fuel depth .any
      | some (.caret, n) => do
        skip n
        if first || extended then continue_ fuel depth .start else continue_ fuel depth (.char '^')
      | some (.dollar, n) => do
        skip n
        let atEnd ← match ← peek extended with
          | none => pure true
          | some (.close, _) => pure true
          | some (.bar, _) => pure true
          | _ => pure false
        continue_ fuel depth (if atEnd || extended then .stop else .char '$')
      | some (.same i, n) => do
        skip n
        continue_ fuel depth (.same i)
      | some (.edge inside, n) => do
        skip n
        continue_ fuel depth (.wordEdge inside)
      | some (.wordChar negated, n) => do
        skip n
        continue_ fuel depth (.set negated wordItems)
      | some (.plain c, n) => do
        skip n
        continue_ fuel depth (.char c)
      | some (_, n) => do
        let cs := (← get).rest.take n
        skip n
        continue_ fuel depth (.char (cs.getLastD '*'))
  continue_ (fuel : Nat) (depth : Nat) (e : Expression) : Read Expression := do
    let e ← repetitions extended fuel e
    return .seq e (← branch fuel depth false)

def read (extended : Bool) (text : String) : Except Fault Expression :=
  match (alternatives extended (2 * text.length + 4) 0).run { rest := text.toList } with
  | .error e => .error e
  | .ok (e, _) => .ok e

/-- an expression that matches one text -/
def literal (text : String) : Expression := text.toList.foldr (fun c e => .seq (.char c) e) .empty

/-! ## matching -/

/-- a place in a text, the character before it, and what the groups hold -/
structure Place where
  before : Option Char
  rest : List Char
  groups : List (Nat × List Char) := []

def isWordChar (c : Char) : Bool := c.isAlphanum || c == '_'

def sameChar (fold : Bool) (a b : Char) : Bool := a == b || (fold && a.toLower == b.toLower)

def inSet (fold : Bool) (items : List Shell.SetItem) (c : Char) : Bool :=
  items.any fun i => i.holds c || (fold && (i.holds c.toLower || i.holds c.toUpper))

def step (p : Place) (c : Char) (rest : List Char) : Place := { p with before := some c, rest }

/-- moves over a text, if it comes next -/
def passOver (fold : Bool) (p : Place) : List Char → Option Place
  | [] => some p
  | c :: cs =>
    match p.rest with
    | d :: rest => if sameChar fold c d then passOver fold (step p d rest) cs else none
    | [] => none

/-- all places behind a match, at most so deep -/
def ends (fold : Bool) : Nat → Expression → Place → List Place
  | 0, _, _ => []
  | fuel + 1, e, p =>
    match e with
    | .empty => [p]
    | .char c => (passOver fold p [c]).toList
    | .any =>
      match p.rest with
      | c :: rest => [step p c rest]
      | [] => []
    | .set negated items =>
      match p.rest with
      | c :: rest => if inSet fold items c != negated then [step p c rest] else []
      | [] => []
    | .start => if p.before.isNone then [p] else []
    | .stop => if p.rest.isEmpty then [p] else []
    | .wordEdge inside =>
      let a := (p.before.map isWordChar).getD false
      let b := (p.rest.head?.map isWordChar).getD false
      if (a != b) == inside then [p] else []
    | .group index e =>
      (ends fold fuel e p).map fun q =>
        { q with groups := (index, p.rest.take (p.rest.length - q.rest.length)) :: q.groups }
    | .same index => (passOver fold p ((p.groups.lookup index).getD [])).toList
    | .seq a b => (ends fold fuel a p).flatMap (ends fold fuel b)
    | .alt a b => ends fold fuel a p ++ ends fold fuel b p
    | .repeat_ least most e =>
      if most == some 0 then [p]
      else
        let next := (ends fold fuel e p).filter fun q => least > 0 || q.rest.length < p.rest.length
        let more := next.flatMap (ends fold fuel (.repeat_ (least - 1) (most.map (· - 1)) e))
        if least > 0 then more else more ++ [p]

def depth (text : List Char) : Nat := 2 * text.length + 1000

/-- the longest match at a place: what is left behind it -/
def matchAt (fold : Bool) (e : Expression) (p : Place) : Option Place :=
  (ends fold (depth p.rest) e p).foldl (fun best q =>
    match best with
    | none => some q
    | some b => if q.rest.length < b.rest.length then some q else best) none

/-- the leftmost match from a place on: the text before it, the match, and the place behind it -/
def matchFrom (fold : Bool) (e : Expression) (p : Place) (skipped : List Char) :
    Nat → Option (List Char × List Char × Place)
  | 0 => none
  | fuel + 1 =>
    match matchAt fold e p with
    | some q => some (skipped.reverse, p.rest.take (p.rest.length - q.rest.length), q)
    | none =>
      match p.rest with
      | [] => none
      | c :: rest => matchFrom fold e (step p c rest) (c :: skipped) fuel

def match? (fold : Bool) (e : Expression) (text : List Char) : Option (List Char × List Char × Place) :=
  matchFrom fold e ⟨none, text, []⟩ [] (text.length + 1)

def found (fold : Bool) (e : Expression) (text : List Char) : Bool := (match? fold e text).isSome

end Expression

end IncrementalLint.Tool
