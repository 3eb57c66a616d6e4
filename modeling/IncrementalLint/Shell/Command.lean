/-!
# Shell commands

What the text of a shell script says: words, which are still to be expanded, and commands. The
texts of here-documents are kept in a table, since a command may end before they begin.

* `Part`, `Word`   pieces of text with the expansions between them;
* `Command`        simple commands and what is built from them.
-/

namespace IncrementalLint.Shell

/-- what is done to the value of a parameter -/
inductive ParamKind where
  | default
  | assign
  | error
  | alternative
  | dropSuffix (long : Bool)
  | dropFront (long : Bool)
  deriving DecidableEq, Inhabited

/-- what a redirection does to its descriptor -/
inductive RedirKind where
  | input
  | output (force : Bool)
  | append
  | both
  | duplicate
  | document
  deriving DecidableEq, Inhabited

mutual

/-- a piece of a word; quoted pieces are neither split nor matched against file names -/
inductive Part where
  | text (s : String) (quoted : Bool)
  | param (name : String) (op : ParamOp) (quoted : Bool)
  | command (c : Command) (quoted : Bool)
  | arith (parts : List Part) (quoted : Bool)

inductive ParamOp where
  | plain
  | length
  | bad
  | modified (kind : ParamKind) (colon : Bool) (word : List Part)

/-- a redirection: its descriptor and the word behind it, or the number of a here-document -/
inductive Redir where
  | mk (fd : Nat) (kind : RedirKind) (target : List Part) (document : Nat)

inductive Command where
  | empty
  | simple (line : Nat) (assigns : List (String × List Part)) (words : List (List Part))
      (redirs : List Redir)
  | pipeline (commands : List Command)
  | not (c : Command)
  | both (a b : Command)
  | either (a b : Command)
  | seq (a b : Command)
  | background (c : Command)
  | subshell (line : Nat) (c : Command) (redirs : List Redir)
  | redirected (line : Nat) (c : Command) (redirs : List Redir)
  | cond (test then_ else_ : Command)
  | loop (until_ : Bool) (test body : Command)
  | each (line : Nat) (var : String) (words : List (List Part)) (body : Command)
  | choose (line : Nat) (word : List Part) (arms : List (List (List Part) × Command))
  | define (name : String) (body : Command)

end

abbrev Word := List Part

instance : Inhabited Command := ⟨.empty⟩
instance : Inhabited Part := ⟨.text "" false⟩
instance : Inhabited Redir := ⟨.mk 0 .input [] 0⟩

namespace Redir

def fd : Redir → Nat | mk n _ _ _ => n
def kind : Redir → RedirKind | mk _ k _ _ => k
def target : Redir → Word | mk _ _ w _ => w
def document : Redir → Nat | mk _ _ _ d => d

end Redir

/-- the text of a word that is one plain piece -/
def Word.plain? : Word → Option String
  | [] => some ""
  | [.text s false] => some s
  | _ => none

def isNameStart (c : Char) : Bool := c.isAlpha || c == '_'
def isNameChar (c : Char) : Bool := c.isAlphanum || c == '_'

def isName (s : String) : Bool :=
  match s.toList with
  | [] => false
  | c :: cs => isNameStart c && cs.all isNameChar

/-- parameters that are no variables -/
def isSpecialParam (c : Char) : Bool :=
  ['!', '#', '$', '*', '-', '?', '@'].contains c || c.isDigit

/-- a word that assigns: the variable and the value -/
def Word.assignment? : Word → Option (String × Word)
  | .text s false :: rest =>
    let cs := s.toList
    let name := String.ofList (cs.takeWhile (· != '='))
    match cs.dropWhile (· != '=') with
    | '=' :: more =>
      if isName name then
        some (name, if more.isEmpty then rest else .text (String.ofList more) false :: rest)
      else none
    | _ => none
  | _ => none

end IncrementalLint.Shell
