import IncrementalLint.Tool.Expression
import IncrementalLint.Tool.Streams

/-!
# Lines

Tools that choose, order and cut lines.

* `Tool.grep`, `Tool.sort`, `Tool.uniq`, `Tool.cut`, `Tool.tac`, `Tool.rev`
-/

namespace IncrementalLint.Tool

/-! ## choosing lines -/

structure Search where
  expressions : List Expression
  fold : Bool
  invert : Bool
  wholeLine : Bool
  wholeWord : Bool

/-- whether a place stands beside a word -/
def edgeAt (c : Option Char) : Bool := !((c.map Expression.isWordChar).getD false)

namespace Search

/-- whether a match stands by itself as asked for -/
def standsAlone (s : Search) (front : List Char) (after : Expression.Place) : Bool :=
  (!s.wholeLine || (front.isEmpty && after.rest.isEmpty)) &&
    (!s.wholeWord || (edgeAt front.getLast? && edgeAt after.rest.head?))

/-- whether some match from a place on stands by itself -/
def hitsFrom (s : Search) (e : Expression) : Nat → Expression.Place → List Char → Bool
  | 0, _, _ => false
  | fuel + 1, p, skipped =>
    let all := Expression.ends s.fold (Expression.depth p.rest) e p
    if all.any fun q => s.standsAlone skipped.reverse q then true
    else
      match p.rest with
      | [] => false
      | c :: rest => hitsFrom s e fuel (Expression.step p c rest) (c :: skipped)

def hits (s : Search) (line : String) : Bool :=
  let cs := line.toList
  let found := s.expressions.any fun e =>
    if s.wholeLine || s.wholeWord then hitsFrom s e (cs.length + 1) ⟨none, cs, []⟩ []
    else Expression.found s.fold e cs
  found != s.invert

def matchesFrom (s : Search) : Nat → Expression.Place → List String
  | 0, _ => []
  | fuel + 1, p =>
    let hits := s.expressions.filterMap fun e =>
      Expression.matchFrom s.fold e p [] (p.rest.length + 1)
    let best := hits.foldl (fun b h =>
      match b with
      | none => some h
      | some b =>
        if h.1.length < b.1.length || (h.1.length == b.1.length && h.2.1.length > b.2.1.length)
        then some h else some b) none
    match best with
    | none => []
    | some (_, [], q) =>
      match q.rest with
      | [] => []
      | c :: rest => matchesFrom s fuel (Expression.step q c rest)
    | some (_, m, q) => String.ofList m :: matchesFrom s fuel q

end Search

def grepForm : Options.Form := {
  tool := "grep"
  letters := ['q', 'v', 'i', 'c', 'l', 'L', 'n', 'h', 'H', 's', 'x', 'w', 'o', 'E', 'F', 'G', 'a', 'r',
    'R', 'y']
  withArg := ['e', 'm', 'A', 'B', 'C', 'f']
  long := [("quiet", 'q'), ("silent", 'q'), ("invert-match", 'v'), ("ignore-case", 'i'), ("count", 'c'),
    ("files-with-matches", 'l'), ("line-number", 'n'), ("no-filename", 'h'), ("with-filename", 'H'),
    ("no-messages", 's'), ("line-regexp", 'x'), ("word-regexp", 'w'), ("only-matching", 'o'),
    ("extended-regexp", 'E'), ("fixed-strings", 'F'), ("regexp", 'e'), ("max-count", 'm'),
    ("recursive", 'r')]
  wrong := 2 }

/-- the expressions of a pattern, one for each of its lines -/
def readPatterns (o : Options) (texts : List String) : Except Expression.Fault (List Expression) :=
  (texts.flatMap fun t => (Chars.splitAt (· == '\n') t.toList).map String.ofList).mapM fun t =>
    if o.has 'F' then .ok (Expression.literal t) else Expression.read (o.has 'E') t

/-- what a file's lines give: the output and whether a line was chosen -/
def grepText (o : Options) (s : Search) (named : Bool) (name text : String) : String × Bool :=
  let label := if name == "-" then "(standard input)" else name
  let front (n : Nat) : String :=
    (if named then label ++ ":" else "") ++ (if o.has 'n' then toString n ++ ":" else "")
  let limit := (o.last? 'm').bind String.toNat?
  let chosen := ((linesOf text).mapIdx fun i l => (i + 1, l)).filter fun l => s.hits l.2
  let chosen := match limit with
    | some n => chosen.take n
    | none => chosen
  let some_ := !chosen.isEmpty
  if o.has 'q' then ("", some_)
  else if o.has 'l' then (if some_ then label ++ "\n" else "", some_)
  else if o.has 'L' then (if some_ then "" else label ++ "\n", some_)
  else if o.has 'c' then ((if named then label ++ ":" else "") ++ toString chosen.length ++ "\n", some_)
  else if text.toList.contains (Char.ofNat 0) && !o.has 'a' then
    (if some_ then "grep: " ++ label ++ ": binary file matches\n" else "", some_)
  else if o.has 'o' then
    (if s.invert then "" else Text.joinWith "" (chosen.flatMap fun (n, l) =>
      (s.matchesFrom (l.length + 1) ⟨none, l.toList, []⟩).map fun m => front n ++ m ++ "\n"), some_)
  else (Text.joinWith "" (chosen.map fun (n, l) => front n ++ l ++ "\n"), some_)

/-- the files in and below a directory -/
def filesBelow (w : Workspace) (name : String) : List String :=
  match w.find (pathOf name) with
  | .ok (l, .directory _) =>
    (w.below l).filterMap fun (m, n) =>
      match n with
      | .file _ _ _ =>
        some ((if Text.endsWith name "/" then name else name ++ "/") ++
          Text.joinWith "/" ((m.drop l.length).map Raw.ofText))
      | _ => none
  | _ => [name]

def grepFiles (o : Options) (s : Search) (named : Bool) : List String → Program (Bool × Bool)
  | [] => return (false, true)
  | name :: rest => do
    match ← readInput name with
    | .error e =>
      if !o.has 's' then report "grep" (name ++ ": " ++ e.reason)
      let (found, _) ← grepFiles o s named rest
      return (found, false)
    | .ok bs =>
      let (out, hit) := grepText o s named name (Raw.ofBytes bs)
      let _ ← put 1 out
      if hit && o.has 'q' then return (true, true)
      else
        let (found, ok) ← grepFiles o s named rest
        return (hit || found, ok)

def grepWith (args : List String) : Program Nat :=
  withOptions grepForm args fun o => do
    let given := (o.given.filter (·.1 == 'e')).map (·.2)
    let (texts, names) := if given.isEmpty then (o.operands.take 1, o.operands.drop 1)
      else (given, o.operands)
    if texts.isEmpty then
      let _ ← put 2 ("Usage: grep [OPTION]... PATTERNS [FILE]...\n" ++
        "Try 'grep --help' for more information.\n")
      return 2
    else
      match readPatterns o texts with
      | .error e => do
        report "grep" e.message
        return 2
      | .ok expressions =>
        let s : Search := {
          expressions
          fold := o.has 'i' || o.has 'y'
          invert := o.has 'v'
          wholeLine := o.has 'x'
          wholeWord := o.has 'w' }
        let recursive := o.has 'r' || o.has 'R'
        let w ← Program.files
        let names := if names.isEmpty then (if recursive then ["."] else ["-"]) else names
        let files := if recursive then names.flatMap (filesBelow w) else names
        let named := (files.length > 1 || recursive || o.has 'H') && !o.has 'h'
        let (found, ok) ← grepFiles o s named files
        return if found && (ok || o.has 'q') then 0 else if !ok then 2 else 1

def grep (args : List String) : Program Nat := grepWith args
def egrep (args : List String) : Program Nat := grepWith ("-E" :: args)
def fgrep (args : List String) : Program Nat := grepWith ("-F" :: args)

/-! ## ordering lines -/

/-- where a key starts and ends, counted in fields from one, and how it is compared -/
structure SortKey where
  first : Nat
  last : Option Nat
  flags : List Char

def sortKey? (s : String) : Option SortKey :=
  let parts := (Chars.splitAt (· == ',') s.toList)
  let field (cs : List Char) : Option Nat := (String.ofList (cs.takeWhile Char.isDigit)).toNat?
  let flags := parts.flatMap fun p => p.filter Char.isAlpha
  match parts with
  | [a] => (field a).map fun n => ⟨n, none, flags⟩
  | a :: b :: _ => do return ⟨← field a, field b, flags⟩
  | [] => none

/-- fields that start where blanks start -/
def blankFields : Nat → List Char → List (List Char)
  | 0, _ => []
  | _, [] => []
  | fuel + 1, cs =>
    let blanks := cs.takeWhile fun c => c == ' ' || c == '\t'
    let rest := cs.drop blanks.length
    let word := rest.takeWhile fun c => !(c == ' ' || c == '\t')
    (blanks ++ word) :: blankFields fuel (rest.drop word.length)

/-- the part of a line that a key names -/
def keyText (separator : Option Char) (k : SortKey) (line : String) : List Char :=
  let fields := match separator with
    | some c => Chars.splitAt (· == c) line.toList
    | none => blankFields (line.length + 1) line.toList
  let chosen := (fields.drop (k.first - 1)).take (match k.last with
    | some n => n + 1 - k.first
    | none => fields.length)
  match separator with
  | some c => List.intercalate [c] chosen
  | none => chosen.flatten

/-- the integer and the places at the front of a text -/
def numberKey (cs : List Char) : Int × List Char :=
  let cs := cs.dropWhile isSpace
  let (negative, cs) := match cs with
    | '-' :: r => (true, r)
    | r => (false, r)
  let n := ((String.ofList (cs.takeWhile Char.isDigit)).toNat?).getD 0
  let places := match cs.dropWhile Char.isDigit with
    | '.' :: r => r.takeWhile Char.isDigit
    | _ => []
  (if negative then -n else n, places)

def compareTexts (flags : List Char) (a b : List Char) : Ordering :=
  let prepare (cs : List Char) : List Char :=
    let cs := if flags.contains 'b' then cs.dropWhile isSpace else cs
    if flags.contains 'f' then cs.map Char.toUpper else cs
  if flags.contains 'n' then
    let (x, p) := numberKey a
    let (y, q) := numberKey b
    (compare x y).then (compare (String.ofList p) (String.ofList q))
  else compare (String.ofList (prepare a)) (String.ofList (prepare b))

def directed (flags : List Char) (o : Ordering) : Ordering := if flags.contains 'r' then o.swap else o

/-- how two lines compare by some keys -/
def compareByKeys (global : List Char) (separator : Option Char) (keys : List SortKey) (a b : String) :
    Ordering :=
  keys.foldl (fun o k =>
    o.then (
      let flags := if k.flags.isEmpty then global else k.flags
      directed flags (compareTexts flags (keyText separator k a) (keyText separator k b)))) .eq

def dropRepeated (same : String → String → Bool) : List String → List String
  | [] => []
  | [l] => [l]
  | a :: b :: rest => if same a b then dropRepeated same (a :: rest) else a :: dropRepeated same (b :: rest)
termination_by ls => ls.length

/-- the lines of all files; none if one of them cannot be read -/
def linesToSort : List String → Program (Option (List String))
  | [] => return some []
  | name :: rest => do
    match ← readInput name with
    | .error e =>
      report "sort" ("cannot read: " ++ shown name ++ ": " ++ e.reason)
      return none
    | .ok bs =>
      let others ← linesToSort rest
      return others.map (linesOf (Raw.ofBytes bs) ++ ·)

def sort (args : List String) : Program Nat :=
  withOptions {
    tool := "sort"
    letters := ['r', 'n', 'u', 'f', 'b', 's', 'd', 'i', 'c', 'z']
    withArg := ['k', 't', 'o']
    long := [("reverse", 'r'), ("numeric-sort", 'n'), ("unique", 'u'), ("ignore-case", 'f'),
      ("key", 'k'), ("field-separator", 't'), ("stable", 's'), ("output", 'o')]
    wrong := 2 } args fun o => do
    let global := (o.given.filter fun g => ['r', 'n', 'f', 'b'].contains g.1).map (·.1)
    let separator := (o.last? 't').bind fun t => t.toList.head?
    let keys := (o.given.filter (·.1 == 'k')).filterMap fun g => sortKey? g.2
    let keys := if keys.isEmpty then [⟨1, none, []⟩] else keys
    let byKeys := compareByKeys global separator keys
    let order (a b : String) : Ordering :=
      (byKeys a b).then (if o.has 'u' || o.has 's' then .eq else directed global (compare a b))
    match ← linesToSort (inputs o.operands) with
    | none => return 2
    | some lines =>
      let ordered := lines.mergeSort fun a b => (order a b).isLE
      let ordered := if o.has 'u' then dropRepeated (fun a b => byKeys a b == .eq) ordered else ordered
      match o.last? 'o' with
      | none => finish "sort" (unlines ordered) 0
      | some name =>
        attempt "sort" ("open failed: " ++ shown name ++ ": ") fun w =>
          w.write (pathOf name) (Raw.toBytes (unlines ordered))

/-- runs of equal lines, each with its length -/
def runs (same : String → String → Bool) (ls : List String) : List (String × Nat) :=
  (ls.foldl (fun acc l =>
    match acc with
    | (a, n) :: rest => if same a l then (a, n + 1) :: rest else (l, 1) :: acc
    | [] => [(l, 1)]) []).reverse

def uniq (args : List String) : Program Nat :=
  withOptions {
    tool := "uniq"
    letters := ['c', 'd', 'u', 'i']
    long := [("count", 'c'), ("repeated", 'd'), ("unique", 'u'), ("ignore-case", 'i')] } args fun o => do
    let name := o.operands.headD "-"
    match ← readInput name with
    | .error e => refuse "uniq" (shown name ++ ": " ++ e.reason)
    | .ok bs =>
      let same (a b : String) : Bool := if o.has 'i' then a.toLower == b.toLower else a == b
      let kept := (runs same (linesOf (Raw.ofBytes bs))).filter fun r =>
        (!o.has 'd' || r.2 > 1) && (!o.has 'u' || r.2 == 1)
      finish "uniq" (Text.joinWith "" (kept.map fun (l, n) =>
        (if o.has 'c' then rightAligned 7 n ++ " " else "") ++ l ++ "\n")) 0

/-! ## cutting lines -/

/-- the ranges of a list, each with its ends -/
def ranges? (s : String) : Option (List (Nat × Option Nat)) :=
  (Chars.splitAt (fun c => c == ',' || c == ' ') s.toList).mapM fun p =>
    let a := p.takeWhile (· != '-')
    match p.dropWhile (· != '-') with
    | [] => (String.ofList a).toNat?.bind fun n => if n = 0 then none else some (n, some n)
    | _ :: b =>
      let first := if a.isEmpty then some 1 else (String.ofList a).toNat?
      first.bind fun n =>
        if n = 0 then none
        else if b.isEmpty then (if a.isEmpty then none else some (n, none))
        else (String.ofList b).toNat?.map fun m => (n, some m)

def inRanges (rs : List (Nat × Option Nat)) (n : Nat) : Bool :=
  rs.any fun (a, b) => a ≤ n && b.all fun m => n ≤ m

def pick {α : Type} (rs : List (Nat × Option Nat)) (xs : List α) : List α :=
  ((xs.mapIdx fun i x => (i + 1, x)).filter fun e => inRanges rs e.1).map (·.2)

def cutFault (message : String) : Program Nat := do
  report "cut" message
  let _ ← put 2 "Try 'cut --help' for more information.\n"
  return 1

def cut (args : List String) : Program Nat :=
  withOptions {
    tool := "cut"
    letters := ['s', 'n', 'z']
    withArg := ['d', 'f', 'c', 'b']
    long := [("delimiter", 'd'), ("fields", 'f'), ("characters", 'c'), ("bytes", 'b'),
      ("only-delimited", 's')] } args fun o => do
    let delimiter := ((o.last? 'd').bind fun d => d.toList.head?).getD '\t'
    let bytes := (o.last? 'c').orElse fun _ => o.last? 'b'
    let show_ (f : String → Option String) : Program Nat := do
      let (texts, ok) ← readAll "cut" (inputs o.operands)
      let lines := texts.flatMap fun t => (linesOf t.2).filterMap f
      finish "cut" (unlines lines) (if ok then 0 else 1)
    match o.last? 'f', bytes with
    | none, none => cutFault "you must specify a list of bytes, characters, or fields"
    | some list, _ =>
      match ranges? list with
      | none => cutFault "fields are numbered from 1"
      | some rs =>
        show_ fun l =>
          let fields := Chars.splitAt (· == delimiter) l.toList
          if fields.length ≤ 1 then (if o.has 's' then none else some l)
          else some (String.ofList (List.intercalate [delimiter] (pick rs fields)))
    | none, some list =>
      match ranges? list with
      | none => cutFault "byte/character positions are numbered from 1"
      | some rs => show_ fun l => some (String.ofList (pick rs l.toList))

/-! ## turning around -/

def tac (args : List String) : Program Nat := do
  let (texts, ok) ← readAll "tac" (inputs args)
  finish "tac" (Text.joinWith "" (texts.map fun t => Text.joinWith "" (pieces t.2).reverse)) (if ok then 0 else 1)

def rev (args : List String) : Program Nat := do
  let (texts, ok) ← readAll "rev" (inputs args)
  finish "rev" (unlines (texts.flatMap fun t => (linesOf t.2).map fun l => String.ofList l.toList.reverse))
    (if ok then 0 else 1)

end IncrementalLint.Tool
