import IncrementalLint.Files.Workspace
import IncrementalLint.Machine.Raw
import IncrementalLint.Shell.Arithmetic

/-!
# Conditions

Tests on texts, numbers and files, connected by `-a`, `-o`, `!` and parentheses.

* `Condition.test`  whether the words of a condition hold, or what is wrong with them.
-/

namespace IncrementalLint.Shell.Condition

inductive Kind where
  | unary
  | binary
  | not
  | and
  | or
  | open_
  | close
  deriving DecidableEq

def unaryOps : List String := ["-r", "-w", "-x", "-e", "-f", "-d", "-c", "-b", "-p", "-u", "-g",
  "-k", "-s", "-t", "-z", "-n", "-h", "-O", "-G", "-L", "-S"]

def binaryOps : List String := ["=", "!=", "<", ">", "-eq", "-ne", "-ge", "-gt", "-le", "-lt",
  "-nt", "-ot", "-ef"]

def kind? (word : String) : Option Kind :=
  if unaryOps.contains word then some .unary
  else if binaryOps.contains word then some .binary
  else
    match word with
    | "!" => some .not
    | "-a" => some .and
    | "-o" => some .or
    | "(" => some .open_
    | ")" => some .close
    | _ => none

/-- what a word is where it stands; none for a plain word -/
inductive Lexeme where
  | ended
  | plain
  | op (k : Kind)
  deriving DecidableEq

/-- whether an operator is a plain word for what follows it -/
def isOperand : List String → Bool
  | [] => true
  | [_] => false
  | w :: _ :: _ => kind? w == some .binary

def lexeme : List String → Lexeme
  | [] => .ended
  | w :: rest =>
    match kind? w with
    | none => .plain
    | some .unary => if isOperand rest then .plain else .op .unary
    | some .open_ => if rest.isEmpty then .plain else .op .open_
    | some k => .op k

abbrev Test := Except String

/-! ## single tests -/

def number (text : String) : Test Int :=
  match Arithmetic.number? false text with
  | some n => .ok n
  | none => .error ("Illegal number: " ++ text)

def pathOf (word : String) : Path := ⟨Raw.toText word⟩

def node? (w : Workspace) (word : String) : Option Node := ((w.find (pathOf word)).toOption).map (·.2)

def isLink (w : Workspace) (word : String) : Bool :=
  match w.locate (pathOf word) false with
  | .ok (.found _ (.link _)) => true
  | _ => false

def unary (w : Workspace) (op word : String) : Test Bool :=
  match op with
  | "-z" => .ok word.isEmpty
  | "-n" => .ok !word.isEmpty
  | "-t" => do
    let _ ← number word
    return false
  | "-h" => .ok (isLink w word)
  | "-L" => .ok (isLink w word)
  | _ =>
    match node? w word with
    | none => .ok false
    | some n =>
      .ok (match op, n with
        | "-f", .file _ _ _ => true
        | "-f", _ => false
        | "-d", n => n.isDirectory
        | "-c", .device _ => true
        | "-c", _ => false
        | "-s", .file content _ _ => content.size > 0
        | "-s", n => n.isDirectory
        | "-x", .file _ _ executable => executable
        | "-x", n => n.isDirectory
        | op, _ => ["-e", "-r", "-w", "-O", "-G"].contains op)

def binary (w : Workspace) (a op b : String) : Test Bool :=
  let numbers (f : Int → Int → Bool) : Test Bool := do
    let x ← number a
    let y ← number b
    return f x y
  match op with
  | "=" => .ok (a == b)
  | "!=" => .ok (a != b)
  | "<" => .ok (a < b)
  | ">" => .ok (b < a)
  | "-eq" => numbers (· == ·)
  | "-ne" => numbers (· != ·)
  | "-ge" => numbers (· ≥ ·)
  | "-gt" => numbers (· > ·)
  | "-le" => numbers (· ≤ ·)
  | "-lt" => numbers (· < ·)
  | "-nt" =>
    .ok (match node? w a, node? w b with
      | some m, some n => m.modified > n.modified
      | _, _ => false)
  | "-ot" =>
    .ok (match node? w a, node? w b with
      | some m, some n => m.modified < n.modified
      | _, _ => false)
  | _ =>
    .ok (match w.find (pathOf a), w.find (pathOf b) with
      | .ok (l, _), .ok (m, _) => l == m
      | _, _ => false)

/-! ## connected tests

Each reader is given the words from the one that it looks at and returns those from the one that
it looked at last. -/

/-- readers of the levels of a condition, for the words and for what the first one is -/
structure Levels where
  disjunction : List String → Lexeme → Test (Bool × List String)
  negation : List String → Lexeme → Test (Bool × List String)

def primary (w : Workspace) (l : Levels) (words : List String) (lex : Lexeme) :
    Test (Bool × List String) :=
  match lex, words with
  | .ended, _ => .ok (false, words)
  | _, [] => .ok (false, [])
  | .op .open_, _ :: rest =>
    if lexeme rest == .op .close then .ok (false, rest)
    else do
      let (v, last) ← l.disjunction rest (lexeme rest)
      if lexeme last.tail == .op .close then return (v, last.tail)
      else throw "closing paren expected"
  | .op .unary, op :: rest =>
    match rest with
    | [] => .error (op ++ ": argument expected")
    | word :: _ => do return (← unary w op word, rest)
  | _, a :: rest =>
    if lexeme rest == .op .binary then
      match rest with
      | op :: b :: more => do return (← binary w a op b, b :: more)
      | op :: [] => .error (op ++ ": argument expected")
      | [] => .ok (!a.isEmpty, words)
    else .ok (!a.isEmpty, words)

def negation (w : Workspace) (l : Levels) (words : List String) (lex : Lexeme) :
    Test (Bool × List String) :=
  if lex == .op .not then
    match lexeme words.tail with
    | .ended => do
      let (v, last) ← l.negation words .ended
      return (!v, last)
    | lex => do
      let (v, last) ← l.negation words.tail lex
      return (!v, last)
  else primary w l words lex

def conjunctionFrom (w : Workspace) (l : Levels) :
    Nat → Bool → List String → Lexeme → Test (Bool × List String)
  | 0, acc, words, _ => .ok (acc, words)
  | fuel + 1, acc, words, lex => do
    let (v, last) ← negation w l words lex
    let acc := acc && v
    if lexeme last.tail == .op .and then
      conjunctionFrom w l fuel acc (last.drop 2) (lexeme (last.drop 2))
    else return (acc, last)

def disjunctionFrom (w : Workspace) (l : Levels) :
    Nat → Bool → List String → Lexeme → Test (Bool × List String)
  | 0, acc, words, _ => .ok (acc, words)
  | fuel + 1, acc, words, lex => do
    let (v, last) ← conjunctionFrom w l (words.length + 1) true words lex
    let acc := acc || v
    if lexeme last.tail == .op .or then
      disjunctionFrom w l fuel acc (last.drop 2) (lexeme (last.drop 2))
    else return (acc, last)

/-- readers for conditions that nest so deep -/
def levels (w : Workspace) : Nat → Levels
  | 0 => ⟨fun ws _ => .ok (false, ws), fun ws _ => .ok (false, ws)⟩
  | depth + 1 => {
      disjunction := fun ws lex => disjunctionFrom w (levels w depth) (ws.length + 1) false ws lex
      negation := fun ws lex => negation w (levels w depth) ws lex }

def evaluate (w : Workspace) (words : List String) (lex : Lexeme) : Test Bool := do
  let (v, last) ← (levels w (words.length + 2)).disjunction words lex
  match last with
  | op :: _ :: _ => throw (op ++ ": unexpected operator")
  | _ => return v

/-- whether some words hold as a condition; few words are read by their number -/
def testFrom (w : Workspace) : Nat → List String → Test Bool
  | 0, _ => .ok false
  | fuel + 1, words =>
    match words with
    | [] => .ok false
    | [_, op, _] =>
      if kind? op == some .binary then evaluate w words .plain else grouped fuel words
    | [_, _, _, _] => grouped fuel words
    | _ => evaluate w words (lexeme words)
where
  grouped (fuel : Nat) (words : List String) : Test Bool :=
    match words with
    | "!" :: rest => do return !(← testFrom w fuel rest)
    | "(" :: rest =>
      if rest.getLast? == some ")" then evaluate w rest.dropLast (lexeme rest.dropLast)
      else evaluate w words (lexeme words)
    | _ => evaluate w words (lexeme words)

def test (w : Workspace) (words : List String) : Test Bool := testFrom w (words.length + 1) words

end IncrementalLint.Shell.Condition
