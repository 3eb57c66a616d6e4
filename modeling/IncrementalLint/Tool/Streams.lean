import IncrementalLint.Tool.Basic

/-!
# Streams of bytes

Tools that pass bytes on: whole files, their starts and ends, or with characters replaced. What
comes in is passed on as soon as it can be.

* `Tool.cat`, `Tool.head`, `Tool.tail`, `Tool.tee`, `Tool.tr`, `Tool.wc`, `Tool.yes`, `Tool.seq`
-/

namespace IncrementalLint.Tool

/-! ## whole files -/

/-- passes on what comes from a descriptor to several others -/
def copyTo (fd : Nat) (outs : List Nat) : Nat → Program (Except FileError Unit)
  | 0 => return .ok ()
  | fuel + 1 => do
    match ← Program.call (.read fd chunk) with
    | .error e => return .error e
    | .ok bs =>
      if bs.isEmpty then return .ok ()
      else
        for out in outs do
          let _ ← putBytes out bs
        copyTo fd outs fuel

def numberedLine (n : Nat) (line : String) : String :=
  let digits := toString n
  String.ofList (List.replicate (6 - digits.length) ' ') ++ digits ++ "\t" ++ line

/-- pieces of a text, each with the line feed that ends it -/
def pieces (text : String) : List String :=
  let ls := linesOf text
  if text.isEmpty || text.toList.getLast? == some '\n' then ls.map (· ++ "\n")
  else ls.dropLast.map (· ++ "\n") ++ [ls.getLastD ""]

/-- the lines of a text with numbers or marked ends -/
def decorated (numbers onlyFull ends : Bool) (text : String) : String :=
  let step (acc : List String × Nat) (p : String) : List String × Nat :=
    let counted := numbers && !(onlyFull && p == "\n")
    let n := if counted then acc.2 + 1 else acc.2
    let body := if ends && Text.endsWith p "\n" then (p.dropEnd 1).toString ++ "$\n" else p
    ((if counted then numberedLine n body else body) :: acc.1, n)
  Text.joinWith "" ((pieces text).foldl step ([], 0)).1.reverse

def cat (args : List String) : Program Nat :=
  withOptions {
    tool := "cat"
    letters := ['n', 'b', 'E', 'u', 's', 'v', 'e', 't', 'T', 'A']
    long := [("number", 'n'), ("number-nonblank", 'b'), ("show-ends", 'E')] } args fun o =>
    forEach (fun name => do
      let plain := !(o.has 'n' || o.has 'b' || o.has 'E' || o.has 'e' || o.has 'A')
      let r ← withInput name fun fd =>
        if plain then copyTo fd [1] rounds
        else do
          match ← drain fd with
          | .error e => return .error e
          | .ok bs =>
            let _ ← put 1 (decorated (o.has 'n' || o.has 'b') (o.has 'b')
              (o.has 'E' || o.has 'e' || o.has 'A') (Raw.ofBytes bs))
            return .ok ()
      match r with
      | .ok () => return 0
      | .error e => refuse "cat" (shown name ++ ": " ++ e.reason)) (inputs o.operands)

def tee (args : List String) : Program Nat :=
  withOptions { tool := "tee", letters := ['a', 'i', 'p'], long := [("append", 'a')] } args fun o => do
    let mode := if o.has 'a' then OpenMode.appending else OpenMode.writing
    let mut outs := [1]
    let mut status := 0
    for name in o.operands do
      match ← Program.call (.openFile (pathOf name) mode) with
      | .ok fd => outs := outs ++ [fd]
      | .error e =>
        report "tee" (shown name ++ ": " ++ e.reason)
        status := 1
    let _ ← copyTo 0 outs rounds
    return status

/-! ## starts and ends -/

structure Amount where
  bytes : Bool := false
  count : Nat := 10
  /-- counted from the other end -/
  reversed : Bool := false

def multipliers : List (String × Nat) := [("", 1), ("b", 512), ("kB", 1000), ("k", 1024),
  ("K", 1024), ("KiB", 1024), ("MB", 1000000), ("M", 1048576), ("MiB", 1048576),
  ("GB", 1000000000), ("G", 1073741824), ("GiB", 1073741824)]

def size? (s : String) : Option Nat :=
  let digits := s.toList.takeWhile Char.isDigit
  let unit := String.ofList (s.toList.dropWhile Char.isDigit)
  if digits.isEmpty then none
  else do return (← (String.ofList digits).toNat?) * (← multipliers.lookup unit)

/-- the amount that an argument writes; `sign` reverses it -/
def amount? (sign : Char) (bytes : Bool) (s : String) : Option Amount :=
  match s.toList with
  | c :: cs =>
    if c == sign then (size? (String.ofList cs)).map fun n => ⟨bytes, n, true⟩
    else if c == '-' || c == '+' then (size? (String.ofList cs)).map fun n => ⟨bytes, n, false⟩
    else (size? s).map fun n => ⟨bytes, n, false⟩
  | [] => none

/-- the amount that options ask for, or what is wrong with it -/
def amountOf (tool : String) (sign : Char) (o : Options) : Except String Amount :=
  match o.given.reverse.find? fun g => g.1 == 'n' || g.1 == 'c' with
  | none => .ok {}
  | some (c, arg) =>
    match amount? sign (c == 'c') arg with
    | some a => .ok a
    | none => .error (tool ++ ": invalid number of " ++ (if c == 'c' then "bytes" else "lines") ++
        ": " ++ quoted arg ++ "\n")

/-- the front of some bytes up to the end of that many lines, and how many lines are missing -/
def lineFront (bs : ByteArray) (lines : Nat) : Nat × Nat :=
  let step (acc : Nat × Nat × Bool) (b : UInt8) : Nat × Nat × Bool :=
    let (size, left, done) := acc
    if done || left = 0 then (size, left, true)
    else (size + 1, if b == 10 then left - 1 else left, false)
  let (size, left, _) := bs.data.foldl step (0, lines, false)
  (size, left)

/-- passes on the start of what comes from a descriptor -/
def passFront (fd : Nat) (bytes : Bool) : Nat → Nat → Program (Except FileError Unit)
  | 0, _ => return .ok ()
  | fuel + 1, left => do
    if left = 0 then return .ok ()
    else
      match ← Program.call (.read fd (if bytes then min left chunk else 8192)) with
      | .error e => return .error e
      | .ok bs =>
        if bs.isEmpty then return .ok ()
        else
          let (size, left) := if bytes then (bs.size, left - bs.size) else lineFront bs left
          let _ ← putBytes 1 (bs.extract 0 size)
          passFront fd bytes fuel left

/-- a text without its last bytes or lines -/
def withoutEnd (a : Amount) (text : String) : String :=
  if a.bytes then String.ofList (text.toList.take (text.length - a.count))
  else
    let ps := pieces text
    Text.joinWith "" (ps.take (ps.length - a.count))

/-- the last bytes or lines of a text, or all from a certain one on -/
def endOf (a : Amount) (text : String) : String :=
  let from_ (n : Nat) : Nat := if a.reversed then a.count - 1 else n - a.count
  if a.bytes then String.ofList (text.toList.drop (from_ text.length))
  else
    let ps := pieces text
    Text.joinWith "" (ps.drop (from_ ps.length))

/-- old options that are a number alone -/
def expandNumber (args : List String) : List String :=
  match args with
  | w :: rest =>
    match w.toList with
    | '-' :: c :: cs =>
      if c.isDigit then ("-n" ++ String.ofList (c :: cs)) :: rest else args
    | _ => args
  | [] => []

/-- the line above the text of one of several files -/
def heading (first : Bool) (name : String) : String :=
  (if first then "" else "\n") ++ "==> " ++ (if name == "-" then "standard input" else name) ++ " <==\n"

/-- shows a part of each file; a file that cannot be opened has no heading -/
def showEach (tool : String) (headings : Bool) (part : Nat → Program (Except FileError Unit)) :
    Bool → List String → Program Nat
  | _, [] => return 0
  | first, name :: rest => do
    let fd? ← if name == "-" then pure (.ok 0)
      else Program.call (.openFile (pathOf name) OpenMode.reading)
    match fd? with
    | .error e =>
      report tool ("cannot open " ++ quoted name ++ " for reading: " ++ e.reason)
      let _ ← showEach tool headings part first rest
      return 1
    | .ok fd =>
      if headings then
        let _ ← put 1 (heading first name)
      let r ← part fd
      if name != "-" then Program.call (.close fd)
      let status ← match r with
        | .ok () => pure 0
        | .error e => refuse tool ("error reading " ++ quoted name ++ ": " ++ e.reason)
      let others ← showEach tool headings part false rest
      return if status = 0 then others else status

def partForm (tool : String) : Options.Form := {
  tool
  letters := ['q', 'v', 'z']
  withArg := ['n', 'c']
  long := [("lines", 'n'), ("bytes", 'c'), ("quiet", 'q'), ("silent", 'q'), ("verbose", 'v')] }

def partTool (tool : String) (sign : Char) (part : Amount → Nat → Program (Except FileError Unit))
    (args : List String) : Program Nat :=
  withOptions (partForm tool) (expandNumber args) fun o => do
    match amountOf tool sign o with
    | .error e =>
      let _ ← put 2 e
      return 1
    | .ok a =>
      let names := inputs o.operands
      let headings := (names.length > 1 || o.has 'v') && !o.has 'q'
      showEach tool headings (part a) true names

def passPart (f : String → String) (fd : Nat) : Program (Except FileError Unit) := do
  match ← drain fd with
  | .error e => return .error e
  | .ok bs =>
    let _ ← put 1 (f (Raw.ofBytes bs))
    return .ok ()

def head : List String → Program Nat := partTool "head" '-' fun a fd =>
  if a.reversed then passPart (withoutEnd a) fd else passFront fd a.bytes rounds a.count

def tail : List String → Program Nat := partTool "tail" '+' fun a => passPart (endOf a)

/-! ## counts -/

structure Counts where
  lines : Nat := 0
  words : Nat := 0
  bytes : Nat := 0

def Counts.add (a b : Counts) : Counts := ⟨a.lines + b.lines, a.words + b.words, a.bytes + b.bytes⟩

def isSpace (c : Char) : Bool := c == ' ' || (9 ≤ c.toNat && c.toNat ≤ 13)

def countsOf (text : String) : Counts :=
  let step (acc : Counts × Bool) (c : Char) : Counts × Bool :=
    let (k, inWord) := acc
    let k := { k with bytes := k.bytes + 1, lines := if c == '\n' then k.lines + 1 else k.lines }
    if isSpace c then (k, false) else (if inWord then k else { k with words := k.words + 1 }, true)
  (text.foldl step ({}, false)).1

def rightAligned (width n : Nat) : String :=
  let digits := toString n
  String.ofList (List.replicate (width - digits.length) ' ') ++ digits

def countLine (o : Options) (width : Nat) (k : Counts) (name : String) : String :=
  let all := !(o.has 'l' || o.has 'w' || o.has 'c' || o.has 'm')
  let ns := (if all || o.has 'l' then [k.lines] else []) ++ (if all || o.has 'w' then [k.words] else []) ++
    (if all || o.has 'c' || o.has 'm' then [k.bytes] else [])
  Text.joinWith " " (ns.map (rightAligned width)) ++ (if name.isEmpty then "" else " " ++ name) ++ "\n"

def wc (args : List String) : Program Nat :=
  withOptions {
    tool := "wc"
    letters := ['l', 'w', 'c', 'm']
    long := [("lines", 'l'), ("words", 'w'), ("bytes", 'c'), ("chars", 'm')] } args fun o => do
    let single := ['l', 'w', 'c', 'm'].countP o.has == 1
    let names := inputs o.operands
    let (texts, ok) ← readAll "wc" names
    let counts := texts.map fun t => (if o.operands.isEmpty then "" else t.1, countsOf t.2)
    let total := counts.foldl (fun a k => a.add k.2) {}
    let width := if single && names.length == 1 then 1
      else if names.contains "-" then 7 else (toString total.bytes).length
    let lines := counts.map fun (name, k) => countLine o width k name
    let last := if names.length > 1 then countLine o width total "total" else ""
    finish "wc" (Text.joinWith "" lines ++ last) (if ok then 0 else 1)

/-! ## replaced characters -/

/-- an octal escape, a named one, or the character itself, and what follows -/
def setEscape (cs : List Char) : Char × List Char :=
  match cs with
  | 'n' :: r => ('\n', r)
  | 't' :: r => ('\t', r)
  | 'r' :: r => ('\r', r)
  | 'a' :: r => (Char.ofNat 7, r)
  | 'b' :: r => (Char.ofNat 8, r)
  | 'f' :: r => (Char.ofNat 12, r)
  | 'v' :: r => (Char.ofNat 11, r)
  | c :: r =>
    if '0' ≤ c && c ≤ '7' then
      let ds := (cs.take 3).takeWhile fun d => '0' ≤ d && d ≤ '7'
      (Char.ofNat (ds.foldl (fun n d => n * 8 + (d.toNat - 48)) 0 % 256), cs.drop ds.length)
    else (c, r)
  | [] => ('\\', [])

/-- the characters of a set, with whether each was written as itself -/
def setChars : Nat → List Char → List (Char × Bool)
  | 0, _ => []
  | _, [] => []
  | fuel + 1, '\\' :: cs =>
    let (c, rest) := setEscape cs
    (c, false) :: setChars fuel rest
  | fuel + 1, c :: cs => (c, true) :: setChars fuel cs

def allBytes : List Char := (List.range 256).map Char.ofNat

def classChars (name : String) : Option (List Char) :=
  let pick (p : Char → Bool) := some (allBytes.filter p)
  match name with
  | "upper" => pick Char.isUpper
  | "lower" => pick Char.isLower
  | "alpha" => pick Char.isAlpha
  | "digit" => pick Char.isDigit
  | "alnum" => pick Char.isAlphanum
  | "space" => pick isSpace
  | "blank" => pick fun c => c == ' ' || c == '\t'
  | "cntrl" => pick fun c => c.toNat < 32 || c.toNat == 127
  | "print" => pick fun c => 32 ≤ c.toNat && c.toNat < 127
  | "graph" => pick fun c => 32 < c.toNat && c.toNat < 127
  | "punct" => pick fun c => 32 < c.toNat && c.toNat < 127 && !c.isAlphanum
  | "xdigit" => pick fun c => c.isDigit || ('a' ≤ c && c ≤ 'f') || ('A' ≤ c && c ≤ 'F')
  | _ => none

/-- the class at the front of a set, and how long it is written -/
def frontClass? (cs : List (Char × Bool)) : Option (List Char × Nat) :=
  match cs with
  | ('[', true) :: (':', true) :: rest =>
    let name := String.ofList ((rest.takeWhile fun c => c.1.isAlpha).map (·.1))
    match rest.drop name.length with
    | (':', true) :: (']', true) :: _ => (classChars name).map fun m => (m, name.length + 4)
    | _ => none
  | _ => none

/-- the members of a set in order -/
def setMembers : Nat → List (Char × Bool) → List Char
  | 0, _ => []
  | _, [] => []
  | fuel + 1, c :: rest =>
    match frontClass? (c :: rest) with
    | some (ms, n) => ms ++ setMembers fuel ((c :: rest).drop n)
    | none =>
      match rest with
      | ('-', true) :: (d, _) :: more =>
        ((List.range (d.toNat + 1 - c.1.toNat)).map fun i => Char.ofNat (c.1.toNat + i)) ++
          setMembers fuel more
      | _ => c.1 :: setMembers fuel rest

def setOf (s : String) : List Char :=
  let cs := setChars (s.length + 1) s.toList
  setMembers (cs.length + 1) cs

/-- what becomes of each byte: none for those that are dropped -/
def translation (o : Options) (set1 set2 : List Char) : Array (Option UInt8) :=
  let members := if o.has 'c' then allBytes.filter (!set1.contains ·) else set1
  let target : List Char :=
    if o.has 't' then set2
    else set2 ++ List.replicate (members.length - set2.length) (set2.getLastD 'x')
  let pairs := members.zip target
  (List.range 256).toArray.map fun b =>
    let c := Char.ofNat b
    if o.has 'd' then (if members.contains c then none else some b.toUInt8)
    else
      match (pairs.reverse).lookup c with
      | some d => some d.toNat.toUInt8
      | none => some b.toUInt8

/-- leaves one of several equal bytes in a row -/
def squeeze (members : List Char) (last : Option UInt8) (bs : ByteArray) : ByteArray × Option UInt8 :=
  let step (acc : ByteArray × Option UInt8) (b : UInt8) : ByteArray × Option UInt8 :=
    if acc.2 == some b && members.contains (Char.ofNat b.toNat) then acc
    else (acc.1.push b, some b)
  bs.data.foldl step (ByteArray.empty, last)

def translate (table : Array (Option UInt8)) (bs : ByteArray) : ByteArray :=
  bs.data.foldl (fun out b =>
    match (table[b.toNat]?).getD (some b) with
    | some c => out.push c
    | none => out) ByteArray.empty

/-- how much output is held back at most -/
def held : Nat := 4096

/-- passes on changed bytes -/
def passChanged (table : Array (Option UInt8)) (squeezed : Option (List Char)) :
    Nat → ByteArray → Option UInt8 → Program (Except FileError Unit)
  | 0, _, _ => return .ok ()
  | fuel + 1, waiting, last => do
    match ← Program.call (.read 0 chunk) with
    | .error e => return .error e
    | .ok bs =>
      if bs.isEmpty then putBytes 1 waiting
      else
        let changed := translate table bs
        let (changed, last) := match squeezed with
          | some members => squeeze members last changed
          | none => (changed, last)
        let all := waiting ++ changed
        if all.size < held then passChanged table squeezed fuel all last
        else do
          let _ ← putBytes 1 all
          passChanged table squeezed fuel ByteArray.empty last

def trFault (lines : List String) : Program Nat := do
  report "tr" (Text.joinWith "\n" (lines ++ ["Try 'tr --help' for more information."]))
  return 1

def tr (args : List String) : Program Nat :=
  withOptions {
    tool := "tr"
    letters := ['c', 'C', 'd', 's', 't']
    long := [("complement", 'c'), ("delete", 'd'), ("squeeze-repeats", 's'), ("truncate-set1", 't')]
    strict := true } args fun o => do
    let o : Options :=
      { o with given := o.given.map fun (c, a) => if c == 'C' then ('c', a) else (c, a) }
    let deletes := o.has 'd'
    let squeezes := o.has 's'
    let one := (deletes && !squeezes) || (squeezes && !deletes && o.operands.length == 1)
    match o.operands with
    | [] => missingOperand "tr"
    | [a] =>
      if one then run o a ""
      else
        trFault ["missing operand after " ++ quoted a,
          if deletes then "Two strings must be given when both deleting and squeezing repeats."
          else "Two strings must be given when translating."]
    | [a, b] =>
      if deletes && !squeezes then
        trFault ["extra operand " ++ quoted b,
          "Only one string may be given when deleting without squeezing repeats."]
      else if (setOf b).isEmpty && !o.has 't' && !deletes then
        refuse "tr" "when not truncating set1, string2 must be non-empty"
      else run o a b
    | _ :: _ :: c :: _ => trFault ["extra operand " ++ quoted c]
where
  run (o : Options) (a b : String) : Program Nat := do
    let set1 := setOf a
    let set2 := setOf b
    let members := if o.has 'c' then allBytes.filter (!set1.contains ·) else set1
    let changes := o.has 'd' || !b.isEmpty
    let table := if changes then translation o set1 set2 else (List.range 256).toArray.map fun n => some n.toUInt8
    let squeezed := if o.has 's' then some (if b.isEmpty then members else set2) else none
    match ← passChanged table squeezed rounds ByteArray.empty none with
    | .ok () => return 0
    | .error e => refuse "tr" ("read error: " ++ e.reason)

/-! ## made text -/

def repeatLine (bs : ByteArray) : Nat → Program Nat
  | 0 => return 0
  | fuel + 1 => do
    match ← putBytes 1 bs with
    | .ok () => repeatLine bs fuel
    | .error e => refuse "yes" ("standard output: " ++ e.reason)

def yes (args : List String) : Program Nat := do
  let line := (if args.isEmpty then "y" else Text.joinWith " " args) ++ "\n"
  let bs := Raw.toBytes (String.join (List.replicate (held / line.length + 1) line))
  repeatLine bs rounds

def int? (s : String) : Option Int :=
  match s.toList with
  | '-' :: cs => if cs.all Char.isDigit then (String.ofList cs).toNat?.map fun n => -(Int.ofNat n) else none
  | '+' :: cs => if cs.all Char.isDigit then (String.ofList cs).toNat?.map Int.ofNat else none
  | cs => if cs.all Char.isDigit then s.toNat?.map Int.ofNat else none

/-- the numbers from one to another in steps -/
def numbers (first step last : Int) : List Int :=
  if step = 0 then []
  else
    let n := if step > 0 then last - first else first - last
    if n < 0 then [] else (List.range ((n / step.natAbs).toNat + 1)).map fun (i : Nat) => first + step * i

/-- options in front of numbers, which may be negative; `owed` says that a word belongs to the
option before it -/
def splitNumbers (owed : Bool) : List String → List String × List String
  | [] => ([], [])
  | w :: rest =>
    if !owed && ((int? w).isSome || !Text.startsWith w "-") then ([], w :: rest)
    else
      let (os, ns) := splitNumbers (!owed && w == "-s") rest
      (w :: os, ns)

def seq (args : List String) : Program Nat :=
  let (os, ns) := splitNumbers false args
  withOptions {
    tool := "seq"
    letters := ['w']
    withArg := ['s']
    long := [("separator", 's'), ("equal-width", 'w')] } os fun o => do
    match ns.find? fun n => (int? n).isNone with
    | some bad =>
      report "seq" ("invalid floating point argument: " ++ quoted bad)
      let _ ← put 2 "Try 'seq --help' for more information.\n"
      return 1
    | none =>
      let vs := ns.filterMap int?
      let out (xs : List Int) : Program Nat := do
        let texts := xs.map toString
        let width := if o.has 'w' then (texts.map String.length).foldl max 0 else 0
        let padded := texts.map fun t => String.ofList (List.replicate (width - t.length) '0') ++ t
        let sep := (o.last? 's').getD "\n"
        finish "seq" (if xs.isEmpty then "" else Text.joinWith sep padded ++ "\n") 0
      match vs with
      | [] => missingOperand "seq"
      | [last] => out (numbers 1 1 last)
      | [first, last] => out (numbers first 1 last)
      | first :: step :: last :: _ => out (numbers first step last)

end IncrementalLint.Tool
