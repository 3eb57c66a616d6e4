import IncrementalLint.Toml.Number

/-!
# Reading TOML

A document is a sequence of lines: blank, a key with its value, or a header; each may end in a
comment. `Toml.read?` builds the table that they describe.
-/

namespace IncrementalLint.Toml

/-! ## comments and line ends -/

/-- the text behind a comment -/
def comment? : List Char → Option (List Char)
  | '#' :: rest => some (rest.dropWhile isPlain)
  | _ => none

/-- skips blanks, comments and line ends; `none` when a comment does not end its line -/
def skipWide : Nat → List Char → Option (List Char)
  | 0, cs => some cs
  | fuel + 1, cs =>
    match comment? (skipSpace cs) with
    | some rest =>
      match newline? rest with
      | some rest => skipWide fuel rest
      | none => none
    | none =>
      match newline? (skipSpace cs) with
      | some rest => skipWide fuel rest
      | none => some (skipSpace cs)

def skipAll (cs : List Char) : Option (List Char) := skipWide (cs.length + 1) cs

/-- the next line, when nothing but a comment is left on this one -/
def lineEnd? (cs : List Char) : Option (List Char) :=
  let cs := skipSpace cs
  let cs := (comment? cs).getD cs
  if cs.isEmpty then some [] else newline? cs

/-! ## values -/

/-- items with commas between them, up to the closing bracket -/
def items? (item : Reader Toml) : Nat → Reader (List Toml)
  | 0, _ => none
  | fuel + 1, cs => do
    let cs ← skipAll cs
    match cs with
    | ']' :: rest => return ([], rest)
    | _ =>
      let (v, rest) ← item cs
      match ← skipAll rest with
      | ',' :: rest =>
        let (vs, rest) ← items? item fuel rest
        return (v :: vs, rest)
      | ']' :: rest => return ([v], rest)
      | _ => none

/-- keys with their values, up to the closing brace, added to `t` -/
def pairs? (item : Reader Toml) : Nat → Toml → Reader Toml
  | 0, _, _ => none
  | fuel + 1, t, cs => do
    let ((path, key), rest) ← key? cs
    let rest ← char? '=' (skipSpace rest)
    let (v, rest) ← item (skipSpace rest)
    let t ← insert? path.isEmpty key v path t
    match skipSpace rest with
    | ',' :: rest => pairs? item fuel t rest
    | '\x7d' :: rest => return (t, rest)
    | _ => none

/-- a value in which `depth` more levels may be opened -/
def value? (depth : Nat) (cs : List Char) : Option (Toml × List Char) :=
  match cs with
  | [] => none
  | '[' :: rest =>
    match depth with
    | 0 => none
    | depth + 1 => do
      let (items, rest) ← items? (value? depth) (rest.length + 1) rest
      return (.array items, rest)
  | '\x7b' :: rest =>
    match depth with
    | 0 => none
    | depth + 1 =>
      match skipSpace rest with
      | '\x7d' :: rest => some (.table .inline [], rest)
      | _ => pairs? (value? depth) (rest.length + 1) (.table .inline []) rest
  | 't' :: 'r' :: 'u' :: 'e' :: rest => some (.boolean true, rest)
  | 'f' :: 'a' :: 'l' :: 's' :: 'e' :: rest => some (.boolean false, rest)
  | c :: rest =>
    if c == '"' || c == '\'' then do
      let (s, rest) ← string? cs
      return (.string s, rest)
    else if c == '+' || c == '-' || Json.isDigit c || c == 'i' || c == 'n' then number? (c :: rest)
    else none

/-! ## documents -/

/-- a header: whether it starts an item of a list, the path in front of its key, and the key -/
def header? (cs : List Char) : Option ((Bool × List String × String) × List Char) :=
  match cs with
  | '[' :: '[' :: rest => do
    let ((path, key), rest) ← key? rest
    match skipSpace rest with
    | ']' :: ']' :: rest => return ((true, path, key), rest)
    | _ => none
  | '[' :: rest => do
    let ((path, key), rest) ← key? rest
    match skipSpace rest with
    | ']' :: rest => return ((false, path, key), rest)
    | _ => none
  | _ => none

/-- reads lines below the header `current` and adds what they say to `t` -/
def lines? : Nat → List String → Toml → List Char → Option Toml
  | 0, _, _, _ => none
  | fuel + 1, current, t, cs =>
    match skipSpace cs with
    | [] => some t
    | '[' :: rest => do
      let ((isItem, path, key), rest) ← header? ('[' :: rest)
      let t ← if isItem then openItem? path key t else openTable? path key t
      lines? fuel (path ++ [key]) t (← lineEnd? rest)
    | c :: rest =>
      if c == '#' || c == '\n' || c == '\r' then do
        let rest ← lineEnd? (c :: rest)
        lines? fuel current t rest
      else do
        let ((path, key), rest) ← key? (c :: rest)
        let rest ← char? '=' (skipSpace rest)
        let (v, rest) ← value? maxDepth (skipSpace rest)
        let t ← addKey? current path key v t
        lines? fuel current t (← lineEnd? rest)

/-- a mark of the byte order at the front does not count -/
def dropMark : List Char → List Char
  | c :: rest => if c.val == 0xFEFF then rest else c :: rest
  | [] => []

def read? (text : String) : Option Toml :=
  let cs := dropMark text.toList
  lines? (cs.length + 1) [] (.table .explicit []) cs

end IncrementalLint.Toml
