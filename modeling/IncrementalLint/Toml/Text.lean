import IncrementalLint.Json.Reader

/-!
# Text in TOML

Keys and strings. A string is basic, with escapes, or literal, without; either may be written over
several lines between three quotes, where up to two quotes may stand before the closing three.
-/

namespace IncrementalLint.Toml

/-- what a reader returns: a value and the text behind it -/
abbrev Reader (α : Type) := List Char → Option (α × List Char)

/-! ## characters -/

def isSpace (c : Char) : Bool := c == ' ' || c == '\t'

def skipSpace (cs : List Char) : List Char := cs.dropWhile isSpace

/-- a tabulator, or no control character -/
def isPlain (c : Char) : Bool := c == '\t' || (0x20 ≤ c.val && c.val != 0x7F)

def newline? : List Char → Option (List Char)
  | '\n' :: rest => some rest
  | '\r' :: '\n' :: rest => some rest
  | _ => none

def isHex (c : Char) : Bool := (Json.hexValue? c).isSome

/-- the character that hexadecimal digits name -/
def scalar? (ds : List Char) : Option Char := do
  let n ← ds.foldlM (fun n d => (Json.hexValue? d).map (n * 16 + ·)) 0
  if n < 0xD800 || (0xE000 ≤ n && n < 0x110000) then some (Char.ofNat n) else none

/-- the character after a backslash and its text -/
def escape? : Reader Char
  | 'b' :: rest => some ('\x08', rest)
  | 't' :: rest => some ('\t', rest)
  | 'n' :: rest => some ('\n', rest)
  | 'f' :: rest => some ('\x0c', rest)
  | 'r' :: rest => some ('\r', rest)
  | '"' :: rest => some ('"', rest)
  | '\\' :: rest => some ('\\', rest)
  | 'u' :: rest => if (rest.take 4).length = 4 then (scalar? (rest.take 4)).map (·, rest.drop 4) else none
  | 'U' :: rest => if (rest.take 8).length = 8 then (scalar? (rest.take 8)).map (·, rest.drop 8) else none
  | _ => none

theorem length_escape? {cs rest : List Char} {c : Char} (h : escape? cs = some (c, rest)) :
    rest.length < cs.length := by
  unfold escape? at h
  split at h <;> try contradiction
  all_goals first
    | (simp only [Option.some.injEq, Prod.mk.injEq] at h
       rw [← h.2]
       simp)
    | (split at h <;> try contradiction
       obtain ⟨_, _, h⟩ := Option.map_eq_some_iff.1 h
       simp only [Prod.mk.injEq] at h
       rw [← h.2]
       simp only [List.length_drop, List.length_cons]
       omega)

/-! ## on one line -/

/-- a basic string behind its opening quote, `acc` read, last character first -/
def basic? (acc : List Char) : Reader String
  | '"' :: rest => some (String.ofList acc.reverse, rest)
  | '\\' :: rest =>
    match _h : escape? rest with
    | some (c, more) => basic? (c :: acc) more
    | none => none
  | c :: rest => if isPlain c then basic? (c :: acc) rest else none
  | [] => none
termination_by cs => cs.length
decreasing_by
  all_goals simp_wf
  have := length_escape? _h
  omega

/-- a literal string behind its opening quote -/
def literal? (acc : List Char) : Reader String
  | '\'' :: rest => some (String.ofList acc.reverse, rest)
  | c :: rest => if isPlain c then literal? (c :: acc) rest else none
  | [] => none

/-! ## over several lines -/

/-- skips blanks and line ends -/
def skipLines : Nat → List Char → List Char
  | 0, cs => cs
  | fuel + 1, cs =>
    match newline? (skipSpace cs) with
    | some rest => skipLines fuel rest
    | none => skipSpace cs

/-- the text behind a backslash that ends a line, all blanks and line ends skipped -/
def continued? (cs : List Char) : Option (List Char) :=
  (newline? (skipSpace cs)).map fun rest => skipLines rest.length rest

/-- the quotes at the front that belong to the string, and the rest when they close it -/
def closing? (quote : Char) (cs : List Char) : Option (Nat × List Char) :=
  let n := (cs.takeWhile (· == quote)).length
  if n < 3 then none else if n ≤ 5 then some (n - 3, cs.drop n) else some (2, cs.drop 5)

/-- a basic string over several lines behind its opening quotes -/
def longBasic? : Nat → List Char → Reader String
  | 0, _, _ => none
  | fuel + 1, acc, cs =>
    match closing? '"' cs with
    | some (n, rest) => some (String.ofList (acc.reverse ++ List.replicate n '"'), rest)
    | none =>
      match newline? cs with
      | some rest => longBasic? fuel ('\n' :: acc) rest
      | none =>
        match cs with
        | '\\' :: rest =>
          match continued? rest with
          | some rest => longBasic? fuel acc rest
          | none =>
            match escape? rest with
            | some (c, rest) => longBasic? fuel (c :: acc) rest
            | none => none
        | c :: rest => if isPlain c then longBasic? fuel (c :: acc) rest else none
        | [] => none

/-- a literal string over several lines behind its opening quotes -/
def longLiteral? : Nat → List Char → Reader String
  | 0, _, _ => none
  | fuel + 1, acc, cs =>
    match closing? '\'' cs with
    | some (n, rest) => some (String.ofList (acc.reverse ++ List.replicate n '\''), rest)
    | none =>
      match newline? cs with
      | some rest => longLiteral? fuel ('\n' :: acc) rest
      | none =>
        match cs with
        | c :: rest => if isPlain c then longLiteral? fuel (c :: acc) rest else none
        | [] => none

/-- a line end right behind the opening quotes does not count -/
def afterOpening (cs : List Char) : List Char := (newline? cs).getD cs

def string? : Reader String
  | '"' :: '"' :: '"' :: rest => longBasic? (rest.length + 1) [] (afterOpening rest)
  | '"' :: rest => basic? [] rest
  | '\'' :: '\'' :: '\'' :: rest => longLiteral? (rest.length + 1) [] (afterOpening rest)
  | '\'' :: rest => literal? [] rest
  | _ => none

/-! ## keys -/

def isBare (c : Char) : Bool := c.isAlphanum || c == '-' || c == '_'

def simpleKey? : Reader String
  | '"' :: rest => basic? [] rest
  | '\'' :: rest => literal? [] rest
  | cs =>
    if (cs.takeWhile isBare).isEmpty then none
    else some (String.ofList (cs.takeWhile isBare), cs.dropWhile isBare)

/-- keys with dots between them, blanks around each -/
def keysFrom? : Nat → Reader (List String)
  | 0, _ => none
  | fuel + 1, cs => do
    let (k, rest) ← simpleKey? (skipSpace cs)
    match skipSpace rest with
    | '.' :: rest =>
      let (ks, rest) ← keysFrom? fuel rest
      return (k :: ks, rest)
    | rest => return ([k], rest)

/-- how deep keys and values may nest -/
def maxDepth : Nat := 79

/-- a key: the path in front of it, and itself -/
def key? (cs : List Char) : Option ((List String × String) × List Char) := do
  let (ks, rest) ← keysFrom? (cs.length + 1) cs
  if ks.length > maxDepth then none
  else
    match ks.getLast? with
    | none => none
    | some k => return ((ks.dropLast, k), rest)

end IncrementalLint.Toml
