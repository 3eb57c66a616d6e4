import IncrementalLint.Shell.Command

/-!
# Reading shell commands

Commands are read one line at a time, so that a fault in a later line shows only when the lines
before it have run. A reader keeps the text that is left, the number of its line, and the
here-documents whose texts start after the line.

* `Source`          the text that is left and what is known about it;
* `readCommand`     the next command line;
* `SyntaxError`     where reading failed, and why.
-/

namespace IncrementalLint.Shell

/-! ## tokens -/

inductive Keyword where
  | not | case | do_ | done | elif | else_ | esac | fi | for_ | if_ | in_ | then_ | until_ | while_
  | begin_ | end_
  deriving DecidableEq, Inhabited

namespace Keyword

def text : Keyword → String
  | not => "!" | case => "case" | do_ => "do" | done => "done" | elif => "elif" | else_ => "else"
  | esac => "esac" | fi => "fi" | for_ => "for" | if_ => "if" | in_ => "in" | then_ => "then"
  | until_ => "until" | while_ => "while" | begin_ => "\x7b" | end_ => "\x7d"

def all : List Keyword :=
  [not, case, do_, done, elif, else_, esac, fi, for_, if_, in_, then_, until_, while_, begin_, end_]

def ofText? (s : String) : Option Keyword := all.find? fun k => k.text == s

/-- keywords that end a list of commands -/
def closes : Keyword → Bool
  | do_ | done | elif | else_ | esac | fi | then_ | end_ => true
  | _ => false

end Keyword

inductive Token where
  | eof
  | newline
  | semi
  | amp
  | andIf
  | pipe
  | orIf
  | open_
  | close
  | armEnd
  | redir (fd : Nat) (kind : RedirKind) (stripTabs : Bool)
  | word (w : Word)
  | keyword (k : Keyword)
  deriving Inhabited

namespace Token

def describe : Token → String
  | eof => "end of file"
  | newline => "newline"
  | semi => "\";\""
  | amp => "\"&\""
  | andIf => "\"&&\""
  | pipe => "\"|\""
  | orIf => "\"||\""
  | open_ => "\"(\""
  | close => "\")\""
  | armEnd => "\";;\""
  | redir _ _ _ => "redirection"
  | word _ => "word"
  | keyword k => "\"" ++ k.text ++ "\""

/-- tokens that end a list of commands -/
def closes : Token → Bool
  | eof | close | armEnd => true
  | keyword k => k.closes
  | _ => false

end Token

/-! ## sources -/

structure SyntaxError where
  line : Nat
  message : String
  deriving DecidableEq, Inhabited

/-- a here-document whose text is still to come -/
structure Pending where
  id : Nat
  mark : String
  expand : Bool
  stripTabs : Bool

structure Source where
  rest : List Char
  /-- more than the number of characters to read -/
  size : Nat
  line : Nat := 1
  /-- a token that was read and given back -/
  given : Option Token := none
  pending : List Pending := []
  documents : List (Nat × Word) := []
  nextDocument : Nat := 0

abbrev Read := StateT Source (Except SyntaxError)

def fault {α : Type} (message : String) : Read α := do
  throw ⟨(← get).line, "Syntax error: " ++ message⟩

/-- complains about a token, and names the one that was expected -/
def unexpected {α : Type} (t : Token) (wanted : Option Token) : Read α :=
  fault (t.describe ++ " unexpected" ++
    match wanted with
    | some w => " (expecting " ++ w.describe ++ ")"
    | none => "")

def giveBack (t : Token) : Read Unit := modify fun s => { s with given := some t }

def nextChar : Read (Option Char) := do
  let s ← get
  match s.rest with
  | [] => return none
  | c :: rest =>
    set { s with rest, line := if c == '\n' then s.line + 1 else s.line }
    return some c

def peekChar : Read (Option Char) := do return (← get).rest.head?

/-- skips pairs of a backslash and a line feed -/
def skipJoins : Nat → List Char → Nat → List Char × Nat
  | 0, cs, line => (cs, line)
  | fuel + 1, '\\' :: '\n' :: rest, line => skipJoins fuel rest (line + 1)
  | _ + 1, cs, line => (cs, line)

/-- joins lines that a backslash connects -/
def joinLines : Read Unit := modify fun s =>
  match s.rest with
  | '\\' :: '\n' :: _ =>
    let (rest, line) := skipJoins s.rest.length s.rest s.line
    { s with rest, line }
  | _ => s

/-- takes the next character of joined lines away if it is this one -/
def accept (c : Char) : Read Bool := do
  joinLines
  match (← get).rest with
  | d :: _ => if c == d then do let _ ← nextChar; return true else return false
  | [] => return false

/-- the characters of a class at the front of joined lines -/
def takeClass (p : Char → Bool) : Nat → Read (List Char)
  | 0 => return []
  | fuel + 1 => do
    joinLines
    match (← get).rest with
    | c :: _ =>
      if p c then do
        let _ ← nextChar
        return c :: (← takeClass p fuel)
      else return []
    | [] => return []

def fuelLeft : Read Nat := do return (← get).size

/-! ## words -/

/-- a word under construction, last piece first -/
structure Draft where
  parts : List Part := []
  chars : List Char := []
  quoted : Bool := false
  /-- whether anything was quoted -/
  marked : Bool := false

namespace Draft

def flush (d : Draft) : Draft :=
  if d.chars.isEmpty then { d with quoted := false }
  else
    { d with
      parts := .text (String.ofList d.chars.reverse) d.quoted :: d.parts
      chars := []
      quoted := false }

def addChar (d : Draft) (c : Char) (quoted : Bool) : Draft :=
  if d.quoted == quoted then { d with chars := c :: d.chars }
  else { d.flush with chars := [c], quoted, marked := d.marked || quoted }

def addPart (d : Draft) (p : Part) : Draft :=
  let d := d.flush
  { d with parts := p :: d.parts }

/-- closes quotes that were opened at `opened`: empty ones leave an empty piece -/
def closeQuotes (opened d : Draft) : Draft :=
  if d.parts.length == opened.parts.length && d.chars.isEmpty then
    { d.addPart (.text "" true) with marked := true }
  else { d with marked := true }

def word (d : Draft) : Word := d.flush.parts.reverse

end Draft

/-- readers of what a word can hold -/
structure Nested where
  /-- commands up to a closing token; the flag admits none -/
  list : Bool → Read Command
  /-- one command; the flag skips line ends in front of it -/
  command : Bool → Read Command
  /-- commands up to a closing parenthesis, or up to the end of the text -/
  substitution : Bool → Read Command

/-- where quoted text ends -/
inductive QuoteEnd where
  /-- at a double quote -/
  | quote
  /-- at a closing brace -/
  | brace
  /-- at two closing parentheses -/
  | arith
  /-- at the end of a here-document -/
  | document
  deriving DecidableEq

/-- which characters a backslash takes the meaning of in quoted text -/
def isEscapable (e : QuoteEnd) (c : Char) : Bool :=
  c == '\\' || c == '`' || c == '$' || (c == '"' && e != .document) || (c == '\x7d' && e == .brace)

/-- runs a reader over another text, which starts at a line -/
def within {α : Type} (text : List Char) (line : Nat) (r : Read α) : Read α := do
  let s ← get
  match r { s with rest := text, size := text.length + 1, line, given := none, pending := [] } with
  | .error e => throw e
  | .ok (a, t) =>
    set { s with documents := t.documents, nextDocument := t.nextDocument }
    return a

/-- the text between backquotes, behind the first -/
def backquoted (inQuotes : Bool) : Nat → List Char → Read (List Char)
  | 0, _ => fault "EOF in backquote substitution"
  | fuel + 1, acc => do
    match ← nextChar with
    | none => fault "EOF in backquote substitution"
    | some '`' => return acc.reverse
    | some '\\' =>
      match ← nextChar with
      | none => fault "EOF in backquote substitution"
      | some '\n' => backquoted inQuotes fuel acc
      | some c =>
        if c == '\\' || c == '`' || c == '$' || (inQuotes && c == '"') then
          backquoted inQuotes fuel (c :: acc)
        else backquoted inQuotes fuel (c :: '\\' :: acc)
    | some c => backquoted inQuotes fuel (c :: acc)

def singleQuoted : Nat → Draft → Read Draft
  | 0, _ => fault "Unterminated quoted string"
  | fuel + 1, d => do
    match ← nextChar with
    | none => fault "Unterminated quoted string"
    | some '\'' => return d
    | some c => singleQuoted fuel (d.addChar c true)

/-- readers of text in which expansions have been met -/
structure TextReaders where
  base : Draft → Read Draft
  quoted : QuoteEnd → Draft → Read Draft

/-- the operator behind the name of a parameter, and how its word is read -/
def paramOperator (quoted : Bool) (readWord : Bool → Read Word) : Read ParamOp := do
  let colon ← accept ':'
  match ← peekChar with
  | some '\x7d' =>
    let _ ← nextChar
    if colon then
      let _ ← readWord quoted
      return .plain
    else return .plain
  | some c =>
    let simple (k : ParamKind) : Read ParamOp := do
      let _ ← nextChar
      return .modified k colon (← readWord quoted)
    if c == '-' then simple .default
    else if c == '=' then simple .assign
    else if c == '?' then simple .error
    else if c == '+' then simple .alternative
    else if (c == '%' || c == '#') && !colon then do
      let _ ← nextChar
      let long ← accept c
      let w ← readWord false
      return .modified (if c == '%' then .dropSuffix long else .dropFront long) false w
    else do
      let _ ← readWord quoted
      return .bad
  | none =>
    let _ ← readWord quoted
    return .bad

/-- a parameter between braces, behind the opening one -/
def bracedParam (quoted : Bool) (readWord : Bool → Read Word) : Read (String × ParamOp) := do
  joinLines
  let bad : Read (String × ParamOp) := do
    let _ ← readWord quoted
    return ("", .bad)
  let rest := (← get).rest
  match rest with
  | [] =>
    let _ ← readWord quoted
    return ("", .bad)
  | c :: more =>
    if isNameStart c then do
      let name ← takeClass isNameChar (← fuelLeft)
      return (String.ofList name, ← paramOperator quoted readWord)
    else if c.isDigit then do
      let name ← takeClass Char.isDigit (← fuelLeft)
      return (String.ofList name, ← paramOperator quoted readWord)
    else if c == '#' then
      match more with
      | d :: more2 =>
        if isNameChar d then do
          let _ ← nextChar
          let name ← takeClass (if d.isDigit then Char.isDigit else isNameChar) (← fuelLeft)
          if ← accept '\x7d' then return (String.ofList name, .length) else bad
        else if isSpecialParam d && more2.head? == some '\x7d' then do
          let _ ← nextChar
          let _ ← nextChar
          let _ ← nextChar
          return (String.ofList [d], .length)
        else do
          let _ ← nextChar
          return ("#", ← paramOperator quoted readWord)
      | [] => bad
    else if isSpecialParam c then do
      let _ ← nextChar
      return (String.ofList [c], ← paramOperator quoted readWord)
    else bad

def dollar (n : Nested) (t : TextReaders) (quoted : Bool) (d : Draft) : Read Draft := do
  joinLines
  let readWord (inQuotes : Bool) : Read Word := do
    let w ← if inQuotes then t.quoted .brace {} else t.base {}
    return w.word
  match (← get).rest with
  | '(' :: _ => do
    let _ ← nextChar
    if ← accept '(' then
      let w ← t.quoted .arith {}
      return d.addPart (.arith w.word quoted)
    else
      let s ← get
      set { s with pending := [] }
      let c ← n.substitution true
      modify fun t => { t with pending := s.pending ++ t.pending }
      return d.addPart (.command c quoted)
  | '\x7b' :: _ => do
    let _ ← nextChar
    let (name, op) ← bracedParam quoted readWord
    return d.addPart (.param name op quoted)
  | c :: _ =>
    if isNameStart c then do
      let name ← takeClass isNameChar (← fuelLeft)
      return d.addPart (.param (String.ofList name) .plain quoted)
    else if isSpecialParam c then do
      let _ ← nextChar
      return d.addPart (.param (String.ofList [c]) .plain quoted)
    else return d.addChar '$' quoted
  | [] => return d.addChar '$' quoted

def backquote (n : Nested) (quoted : Bool) (d : Draft) : Read Draft := do
  let text ← backquoted quoted (← fuelLeft) []
  let c ← within text 1 (n.substitution false)
  return d.addPart (.command c quoted)

/-- quoted text up to its end; `depth` counts the open parentheses of arithmetic -/
def quotedText (n : Nested) (t : TextReaders) (e : QuoteEnd) : Nat → Nat → Draft → Read Draft
  | 0, _, d => return d
  | fuel + 1, depth, d => do
    match ← nextChar with
    | none =>
      match e with
      | .document => return d
      | .arith => fault "Missing '))'"
      | .quote => fault "Unterminated quoted string"
      | .brace => fault "Unterminated quoted string"
    | some '\\' =>
      match ← nextChar with
      | none => return d.addChar '\\' true
      | some '\n' => quotedText n t e fuel depth d
      | some c =>
        if isEscapable e c then quotedText n t e fuel depth (d.addChar c true)
        else quotedText n t e fuel depth ((d.addChar '\\' true).addChar c true)
    | some '$' => quotedText n t e fuel depth (← dollar n t true d)
    | some '`' => quotedText n t e fuel depth (← backquote n true d)
    | some '"' =>
      match e with
      | .quote => return d
      | .document => quotedText n t e fuel depth (d.addChar '"' true)
      | _ => quotedText n t e fuel depth d
    | some '\x7d' =>
      if e == .brace then return d else quotedText n t e fuel depth (d.addChar '\x7d' true)
    | some '(' => quotedText n t e fuel (depth + 1) (d.addChar '(' true)
    | some ')' =>
      if e == .arith && depth == 0 then
        if ← accept ')' then return d else quotedText n t e fuel depth (d.addChar ')' true)
      else quotedText n t e fuel (depth - 1) (d.addChar ')' true)
    | some c => quotedText n t e fuel depth (d.addChar c true)

/-- characters that end a word -/
def endsWord (c : Char) : Bool := ['\n', ' ', '\t', '<', '>', ';', '&', '|', '(', ')'].contains c

/-- text outside quotes: a word, or what stands between braces -/
def baseText (n : Nested) (t : TextReaders) (inBraces : Bool) : Nat → Draft → Read Draft
  | 0, d => return d
  | fuel + 1, d => do
    match ← peekChar with
    | none => if inBraces then fault "Missing '\x7d'" else return d
    | some c =>
      if !inBraces && endsWord c then return d
      else do
        let _ ← nextChar
        match c with
        | '\\' =>
          match ← nextChar with
          | none => return d.addChar '\\' true
          | some '\n' => baseText n t inBraces fuel d
          | some c => baseText n t inBraces fuel (d.addChar c true)
        | '\'' =>
          let d := d.flush
          let d ← singleQuoted (← fuelLeft) d >>= fun e => pure (Draft.closeQuotes d e)
          baseText n t inBraces fuel d
        | '"' =>
          let d := d.flush
          let d ← quotedText n t .quote (← fuelLeft) 0 d >>= fun e => pure (Draft.closeQuotes d e)
          baseText n t inBraces fuel d
        | '$' => baseText n t inBraces fuel (← dollar n t false d)
        | '`' => baseText n t inBraces fuel (← backquote n false d)
        | '\x7d' =>
          if inBraces then return d else baseText n t inBraces fuel (d.addChar '\x7d' false)
        | c => baseText n t inBraces fuel (d.addChar c false)

/-- readers that can nest so deep -/
def textReaders (n : Nested) : Nat → TextReaders
  | 0 => ⟨fun _ => fault "Missing '\x7d'", fun _ _ => fault "Missing '\x7d'"⟩
  | depth + 1 => {
      base := fun d => do baseText n (textReaders n depth) true (← fuelLeft) d
      quoted := fun e d => do quotedText n (textReaders n depth) e (← fuelLeft) 0 d }

/-- how deep expansions may nest -/
def maxNesting : Nat := 200

def readWord (n : Nested) : Read Draft := do
  baseText n (textReaders n maxNesting) false (← fuelLeft) {}

/-! ## here-documents -/

def takeLine : Read (List Char × Bool) := do
  let s ← get
  let line := s.rest.takeWhile (· != '\n')
  match s.rest.dropWhile (· != '\n') with
  | _ :: rest =>
    set { s with rest, line := s.line + 1 }
    return (line, true)
  | [] =>
    set { s with rest := [] }
    return (line, false)

/-- the lines up to a mark -/
def documentLines (mark : List Char) (stripTabs : Bool) : Nat → List Char → Read (List Char)
  | 0, acc => return acc
  | fuel + 1, acc => do
    if (← get).rest.isEmpty then return acc
    else do
      let (line, ended) ← takeLine
      let line := if stripTabs then line.dropWhile (· == '\t') else line
      if line == mark then return acc
      else
        let acc := acc ++ line ++ (if ended then ['\n'] else [])
        if ended then documentLines mark stripTabs fuel acc else return acc

def readDocuments (n : Nested) : List Pending → Read Unit
  | [] => return
  | p :: ps => do
    let line := (← get).line
    let text ← documentLines p.mark.toList p.stripTabs (← fuelLeft) []
    let w ←
      if p.expand then within text line do
        let d ← quotedText n (textReaders n maxNesting) .document (← fuelLeft) 0 {}
        return d.word
      else pure [.text (String.ofList text) true]
    modify fun s => { s with documents := (p.id, w) :: s.documents }
    readDocuments n ps

def flushDocuments (n : Nested) : Read Unit := do
  let s ← get
  set { s with pending := [] }
  readDocuments n s.pending

/-! ## tokens from text -/

/-- a redirection operator behind its first character -/
def redirection (first : Char) (fd : Option Nat) : Read Token := do
  if first == '>' then
    let fd := fd.getD 1
    if ← accept '>' then return .redir fd .append false
    else if ← accept '|' then return .redir fd (.output true) false
    else if ← accept '&' then return .redir fd .duplicate false
    else return .redir fd (.output false) false
  else
    let fd := fd.getD 0
    if ← accept '<' then
      let strip ← accept '-'
      return .redir fd .document strip
    else if ← accept '&' then return .redir fd .duplicate false
    else if ← accept '>' then return .redir fd .both false
    else return .redir fd .input false

def skipBlanks : Nat → Read Unit
  | 0 => return
  | fuel + 1 => do
    joinLines
    match (← get).rest with
    | c :: _ =>
      if c == ' ' || c == '\t' then do
        let _ ← nextChar
        skipBlanks fuel
      else if c == '#' then modify fun s => { s with rest := s.rest.dropWhile (· != '\n') }
      else return
    | [] => return

def scan (n : Nested) : Read Token := do
  skipBlanks (← fuelLeft)
  match ← peekChar with
  | none => return .eof
  | some c =>
    if !endsWord c then do
      let d ← readWord n
      let next ← peekChar
      let digit? : Option Nat := match d.parts, d.chars, d.marked with
        | [], [x], false => if x.isDigit then some (x.toNat - 48) else none
        | _, _, _ => none
      match digit?, next with
      | some k, some '>' => do
        let _ ← nextChar
        redirection '>' (some k)
      | some k, some '<' => do
        let _ ← nextChar
        redirection '<' (some k)
      | _, _ => return .word d.word
    else do
      let _ ← nextChar
      match c with
      | '\n' => return .newline
      | '&' => if ← accept '&' then return .andIf else return .amp
      | '|' => if ← accept '|' then return .orIf else return .pipe
      | ';' => if ← accept ';' then return .armEnd else return .semi
      | '(' => return .open_
      | ')' => return .close
      | _ => redirection c none

/-- the token that was given back, or the next one -/
def rawToken (n : Nested) : Read Token := do
  let s ← get
  match s.given with
  | some t =>
    set { s with given := none }
    return t
  | none => scan n

/-- skips line ends, with the here-documents behind them -/
def skipNewlines (n : Nested) : Nat → Token → Read Token
  | 0, t => return t
  | fuel + 1, t =>
    match t with
    | .newline => do
      flushDocuments n
      skipNewlines n fuel (← rawToken n)
    | t => return t

/-- the next token, line ends skipped and keywords recognized as asked for -/
def token (n : Nested) (newlines keywords : Bool) : Read Token := do
  let t ← rawToken n
  let t ← if newlines then do skipNewlines n (← fuelLeft) t else pure t
  match t with
  | .word w =>
    match (if keywords then (Word.plain? w).bind Keyword.ofText? else none) with
    | some k => return .keyword k
    | none => return t
  | t => return t

/-! ## commands -/

/-- the text of a word without its quotes, and whether anything was quoted -/
def markText (w : Word) : String × Bool :=
  w.foldl (fun (s, q) p =>
    match p with
    | .text t quoted => (s ++ t, q || quoted)
    | .param name _ _ => (s ++ "$" ++ name, q)
    | _ => (s, q)) ("", false)

/-- the word behind a redirection operator -/
def redirTarget (n : Nested) (fd : Nat) (kind : RedirKind) (stripTabs : Bool) : Read Redir := do
  match ← token n false false with
  | .word w =>
    match kind with
    | .document =>
      let s ← get
      let (mark, quoted) := markText w
      set { s with
        pending := s.pending ++ [Pending.mk s.nextDocument mark (!quoted) stripTabs]
        nextDocument := s.nextDocument + 1 }
      return .mk fd kind [] s.nextDocument
    | _ => return .mk fd kind w 0
  | t => unexpected t none

/-- the redirections behind a compound command -/
def trailingRedirs (n : Nested) : Nat → Read (List Redir)
  | 0 => return []
  | fuel + 1 => do
    match ← token n false true with
    | .redir fd kind strip =>
      let r ← redirTarget n fd kind strip
      return r :: (← trailingRedirs n fuel)
    | t =>
      giveBack t
      return []

def isSpecialBuiltin (name : String) : Bool :=
  [".", ":", "break", "continue", "eval", "exec", "exit", "export", "readonly", "return", "set",
    "local", "shift", "times", "trap", "unset"].contains name

/-- what has been read of a simple command -/
structure SimpleDraft where
  assigns : List (String × Word) := []
  words : List Word := []
  redirs : List Redir := []

def simpleCommand (n : Nested) (line : Nat) : Nat → SimpleDraft → Read Command
  | 0, d => return .simple line d.assigns d.words d.redirs
  | fuel + 1, d => do
    match ← token n false false with
    | .word w =>
      match (if d.words.isEmpty then Word.assignment? w else none) with
      | some a => simpleCommand n line fuel { d with assigns := d.assigns ++ [a] }
      | none => simpleCommand n line fuel { d with words := d.words ++ [w] }
    | .redir fd kind strip =>
      let r ← redirTarget n fd kind strip
      simpleCommand n line fuel { d with redirs := d.redirs ++ [r] }
    | .open_ =>
      match d.words, d.assigns, d.redirs with
      | [w], [], [] =>
        match ← token n false false with
        | .close =>
          match Word.plain? w with
          | some name =>
            if isName name && !isSpecialBuiltin name then
              return .define name (← n.command true)
            else fault "Bad function name"
          | none => fault "Bad function name"
        | t => unexpected t (some .close)
      | _, _, _ =>
        giveBack .open_
        return .simple line d.assigns d.words d.redirs
    | t =>
      giveBack t
      return .simple line d.assigns d.words d.redirs

/-- takes the next token away if it is this keyword, and complains if not -/
def expectKeyword (n : Nested) (k : Keyword) : Read Unit := do
  match ← token n false true with
  | .keyword k' => if k == k' then return else unexpected (.keyword k') (some (.keyword k))
  | t => unexpected t (some (.keyword k))

/-- what follows the commands of a condition -/
def conditionTail (n : Nested) : Nat → Read Command
  | 0 => return .empty
  | fuel + 1 => do
    match ← token n false true with
    | .keyword .elif => do
      let test ← n.list false
      expectKeyword n .then_
      let then_ ← n.list false
      let else_ ← conditionTail n fuel
      return .cond test then_ else_
    | .keyword .else_ => n.list false
    | t =>
      giveBack t
      return .empty

def wordsToEnd (n : Nested) : Nat → Read (List Word)
  | 0 => return []
  | fuel + 1 => do
    match ← token n false false with
    | .word w => return w :: (← wordsToEnd n fuel)
    | .newline => do
      flushDocuments n
      return []
    | .semi => return []
    | t => unexpected t none

/-- the patterns of an arm, of which the first has been read -/
def armPatterns (n : Nested) : Nat → Token → Read (List Word)
  | 0, _ => return []
  | fuel + 1, first => do
    let w : Word := match first with
      | .word w => w
      | .keyword k => [.text k.text false]
      | _ => []
    match ← token n false false with
    | .pipe => return w :: (← armPatterns n fuel (← token n false false))
    | .close => return [w]
    | t => unexpected t (some .close)

def arms (n : Nested) : Nat → Read (List (List Word × Command))
  | 0 => return []
  | fuel + 1 => do
    match ← token n true true with
    | .keyword .esac => return []
    | t =>
      let first ← match t with
        | .open_ => token n false false
        | t => pure t
      let ps ← armPatterns n fuel first
      let body ← n.list true
      match ← token n true true with
      | .keyword .esac => return [(ps, body)]
      | .armEnd => return (ps, body) :: (← arms n fuel)
      | t => unexpected t (some .armEnd)

/-- a command with the redirections behind it -/
def withRedirs (n : Nested) (line : Nat) (c : Command) : Read Command := do
  let rs ← trailingRedirs n (← fuelLeft)
  match c with
  | .subshell l c _ => return .subshell l c rs
  | c => if rs.isEmpty then return c else return .redirected line c rs

/-- one command; line ends in front of it are skipped as asked for -/
def command (n : Nested) (newlines : Bool) : Read Command := do
  let t ← token n newlines true
  let line := (← get).line
  match t with
  | .keyword .if_ => do
    let test ← n.list false
    expectKeyword n .then_
    let then_ ← n.list false
    let else_ ← conditionTail n (← fuelLeft)
    expectKeyword n .fi
    withRedirs n line (.cond test then_ else_)
  | .keyword .while_ => do
    let test ← n.list false
    expectKeyword n .do_
    let body ← n.list false
    expectKeyword n .done
    withRedirs n line (.loop false test body)
  | .keyword .until_ => do
    let test ← n.list false
    expectKeyword n .do_
    let body ← n.list false
    expectKeyword n .done
    withRedirs n line (.loop true test body)
  | .keyword .for_ => do
    let var ← match ← token n false false with
      | .word w =>
        match Word.plain? w with
        | some v => if isName v then pure v else fault "Bad for loop variable"
        | none => fault "Bad for loop variable"
      | _ => fault "Bad for loop variable"
    let words ← match ← token n true true with
      | .keyword .in_ => do wordsToEnd n (← fuelLeft)
      | .semi => pure [[.param "@" .plain true]]
      | t => do
        giveBack t
        pure [[.param "@" .plain true]]
    match ← token n true true with
    | .keyword .do_ => do
      let body ← n.list false
      expectKeyword n .done
      withRedirs n line (.each line var words body)
    | t => unexpected t (some (.keyword .do_))
  | .keyword .case => do
    let w ← match ← token n false false with
      | .word w => pure w
      | t => unexpected t (some (.word []))
    match ← token n true true with
    | .keyword .in_ => do
      let as ← arms n (← fuelLeft)
      withRedirs n line (.choose line w as)
    | t => unexpected t (some (.keyword .in_))
  | .open_ => do
    let c ← n.list false
    match ← token n false true with
    | .close => withRedirs n line (.subshell line c [])
    | t => unexpected t (some .close)
  | .keyword .begin_ => do
    let c ← n.list false
    expectKeyword n .end_
    withRedirs n line c
  | .word w => do
    giveBack (.word w)
    simpleCommand n line (← fuelLeft) {}
  | .redir fd kind strip => do
    giveBack (.redir fd kind strip)
    simpleCommand n line (← fuelLeft) {}
  | t => unexpected t none

def pipeTail (n : Nested) : Nat → Read (List Command)
  | 0 => return []
  | fuel + 1 => do
    match ← token n false false with
    | .pipe => do
      let c ← n.command true
      return c :: (← pipeTail n fuel)
    | t =>
      giveBack t
      return []

def pipeline (n : Nested) (newlines : Bool) : Read Command := do
  let t ← token n newlines true
  let negated ← match t with
    | .keyword .not => pure true
    | t => do
      giveBack t
      pure false
  let c ← n.command false
  let more ← pipeTail n (← fuelLeft)
  let p := if more.isEmpty then c else .pipeline (c :: more)
  return if negated then .not p else p

/-- pipelines connected by conditions, of which the first has been read -/
def conditions (n : Nested) : Nat → Command → Read Command
  | 0, c => return c
  | fuel + 1, c => do
    match ← token n false false with
    | .andIf => do
      let d ← pipeline n true
      conditions n fuel (.both c d)
    | .orIf => do
      let d ← pipeline n true
      conditions n fuel (.either c d)
    | t =>
      giveBack t
      return c

def andOr (n : Nested) : Read Command := do
  let c ← pipeline n false
  conditions n (← fuelLeft) c

def Command.then_ (a : Option Command) (b : Command) : Option Command :=
  match a with
  | none => some b
  | some a => some (.seq a b)

/-- commands up to a token that closes them; none is admitted if `more` is set -/
def listLoop (n : Nested) : Nat → Bool → Option Command → Read Command
  | 0, _, acc => return acc.getD .empty
  | fuel + 1, more, acc => do
    match ← token n true true with
    | .eof => do
      flushDocuments n
      giveBack .eof
      return acc.getD .empty
    | t =>
      if more && t.closes then do
        giveBack t
        return acc.getD .empty
      else do
        giveBack t
        let c ← andOr n
        match ← token n false false with
        | .amp => listLoop n fuel true (Command.then_ acc (.background c))
        | .eof => do
          flushDocuments n
          giveBack .eof
          return (Command.then_ acc c).getD .empty
        | .newline => do
          giveBack .newline
          listLoop n fuel true (Command.then_ acc c)
        | .semi => listLoop n fuel true (Command.then_ acc c)
        | t => do
          giveBack t
          return (Command.then_ acc c).getD .empty

/-- commands up to a closing parenthesis, or up to the end of the text -/
def substitution (n : Nested) (closed : Bool) : Read Command := do
  let c ← listLoop n (← fuelLeft) true none
  let wanted : Token := if closed then .close else .eof
  match ← token n false true, closed with
  | .close, true => return c
  | .eof, false => return c
  | t, _ => unexpected t (some wanted)

/-- readers for commands that nest so deep -/
def nested : Nat → Nested
  | 0 => {
      list := fun _ => fault "nested too deep"
      command := fun _ => fault "nested too deep"
      substitution := fun _ => fault "nested too deep" }
  | depth + 1 => {
      list := fun allowNone => do listLoop (nested depth) (← fuelLeft) allowNone none
      command := fun newlines => command (nested depth) newlines
      substitution := fun closed => substitution (nested depth) closed }

/-- the rest of a line of commands -/
def lineLoop (n : Nested) : Nat → Option Command → Read Command
  | 0, acc => return acc.getD .empty
  | fuel + 1, acc => do
    match ← token n false true with
    | .newline => do
      flushDocuments n
      return acc.getD .empty
    | .eof => do
      flushDocuments n
      giveBack .eof
      return acc.getD .empty
    | t =>
      giveBack t
      let c ← andOr n
      match ← token n false false with
      | .amp => lineLoop n fuel (Command.then_ acc (.background c))
      | .eof => do
        flushDocuments n
        giveBack .eof
        return (Command.then_ acc c).getD .empty
      | .newline => do
        giveBack .newline
        lineLoop n fuel (Command.then_ acc c)
      | .semi => lineLoop n fuel (Command.then_ acc c)
      | t => unexpected t none

/-- how deep commands may nest -/
def maxDepth : Nat := 400

/-- the next line of commands; none at the end of the text -/
def commandLine : Read (Option Command) := do
  let n := nested maxDepth
  modify fun s => { s with given := none }
  match ← token n false false with
  | .eof => return none
  | .newline =>
    flushDocuments n
    return some .empty
  | t =>
    giveBack t
    return some (← lineLoop n (← fuelLeft) none)

def Source.ofText (text : String) : Source :=
  let cs := text.toList
  { rest := cs, size := 2 * cs.length + 16 }

/-- the next line of commands and the text behind it; none at the end of the text -/
def readCommand (s : Source) : Except SyntaxError (Option Command × Source) := commandLine s

end IncrementalLint.Shell
