import IncrementalLint.Shell.Condition
import IncrementalLint.Shell.Format
import IncrementalLint.Tool.Expression
import IncrementalLint.Tool.Streams
import IncrementalLint.Tool.Tree

/-!
# Small tools

Tools that work on their arguments alone, or that tell something about the system.

* `Tool.echo`, `Tool.printf`, `Tool.test`, `Tool.basename`, `Tool.dirname`, `Tool.sleep`, `Tool.expr`
-/

namespace IncrementalLint.Tool

open Shell

/-! ## output -/

/-- options in front of the words of `echo`: no line feed, and escapes read -/
def echoOptions (n e : Bool) : List String → Bool × Bool × List String
  | [] => (n, e, [])
  | w :: rest =>
    match w.toList with
    | '-' :: c :: cs =>
      if (c :: cs).all fun d => ['n', 'e', 'E'].contains d then
        let last := (c :: cs).reverse.find? (· != 'n')
        echoOptions (n || (c :: cs).contains 'n') (match last with
          | some 'e' => true
          | some _ => false
          | none => e) rest
      else (n, e, w :: rest)
    | _ => (n, e, w :: rest)

def echo (args : List String) : Program Nat :=
  let (n, e, words) := echoOptions false false args
  let text := Text.joinWith " " words
  let (text, ended) := if e then Format.unescape text else (text, false)
  finish "echo" (text ++ (if n || ended then "" else "\n")) 0

def printf (name : String) (args : List String) : Program Nat := do
  match if args.head? == some "--" then args.tail else args with
  | [] => do
    report name "missing operand"
    let _ ← put 2 ("Try '" ++ name ++ " --help' for more information.\n")
    return 1
  | format :: args =>
    let p := Format.print format args
    for c in p.complaints do report name c
    match p.fault with
    | some f => do
      let _ ← put 1 p.output
      refuse name f.message
    | none => finish name p.output (if p.complaints.isEmpty then 0 else 1)

def test (name : String) (args : List String) : Program Nat := do
  let w ← Program.files
  if name == "[" && args.getLast? != some "]" then
    report "[" "missing ']'"
    return 2
  else
    match Condition.test w (if name == "[" then args.dropLast else args) with
    | .ok v => return if v then 0 else 1
    | .error e =>
      report name e
      return 2

def pwd : Program Nat := do
  let w ← Program.files
  finish "pwd" (Raw.ofText w.cwdPath.text ++ "\n") 0

/-! ## names -/

def withoutEnding (name ending : String) : String :=
  if ending != "" && name != ending && Text.endsWith name ending then
    (name.dropEnd ending.length).toString
  else name

def basename (args : List String) : Program Nat :=
  withOptions {
    tool := "basename"
    letters := ['a', 'z']
    withArg := ['s']
    long := [("multiple", 'a'), ("suffix", 's')]
    strict := true } args fun o => do
    let many := o.has 'a' || o.has 's'
    let ending := (o.last? 's').getD ""
    match o.operands with
    | [] => missingOperand "basename"
    | names =>
      if many then
        finish "basename" (unlines (names.map fun n => withoutEnding (baseName n) ending)) 0
      else
        match names with
        | [n] => finish "basename" (baseName n ++ "\n") 0
        | [n, s] => finish "basename" (withoutEnding (baseName n) s ++ "\n") 0
        | _ =>
          report "basename" ("extra operand " ++ quoted (names.getD 2 ""))
          let _ ← put 2 "Try 'basename --help' for more information.\n"
          return 1

def dirname (args : List String) : Program Nat :=
  withOptions { tool := "dirname", letters := ['z'] } args fun o =>
    if o.operands.isEmpty then missingOperand "dirname"
    else finish "dirname" (unlines (o.operands.map dirName)) 0

/-! ## time -/

def nanos? (s : String) : Option Nat :=
  match Format.decimal? s with
  | some (d, rest) =>
    if d.negative then none
    else
      match rest with
      | [] => some (d.scaled 9)
      | ['s'] => some (d.scaled 9)
      | ['m'] => some (60 * d.scaled 9)
      | ['h'] => some (3600 * d.scaled 9)
      | ['d'] => some (86400 * d.scaled 9)
      | _ => none
  | none => if s == "infinity" || s == "inf" then some (Nat.pow 10 20) else none

def sleep (args : List String) : Program Nat :=
  withOptions { tool := "sleep", letters := [] } args fun o => do
    if o.operands.isEmpty then missingOperand "sleep"
    else
      let bad := o.operands.filter fun a => (nanos? a).isNone
      if bad.isEmpty then
        Program.call (.sleep ((o.operands.filterMap nanos?).foldl (· + ·) 0))
        return 0
      else
        for a in bad do report "sleep" ("invalid time interval " ++ quoted a)
        let _ ← put 2 "Try 'sleep --help' for more information.\n"
        return 1

/-! ## what is known -/

def printenv (env : Environment) (args : List String) : Program Nat := do
  match args with
  | [] => finish "printenv" (unlines (env.map fun e => e.1 ++ "=" ++ e.2)) 0
  | names =>
    let values := names.filterMap fun n => env.lookup n
    finish "printenv" (unlines values) (if values.length == names.length then 0 else 1)

def which (env : Environment) (args : List String) : Program Nat := do
  let w ← Program.files
  let path := (env.lookup "PATH").getD ""
  let found := args.filterMap fun n =>
    if n.toList.contains '/' then (if w.present (pathOf n) then some n else none)
    else Executable.inPath w path n
  finish "which" (unlines found) (if found.length == args.length then 0 else 1)

def tell (text : String) (_ : List String) : Program Nat := finish "tell" (text ++ "\n") 0

def id (args : List String) : Program Nat :=
  tell (if args.isEmpty then "uid=0(root) gid=0(root) groups=0(root)"
    else if args.any (·.toList.contains 'n') then "root" else "0") args

def killProcess (args : List String) : Program Nat := do
  let (s, pids) : Option Signal × List String := match args with
    | "-s" :: name :: rest => (Signal.ofName? name, rest)
    | w :: rest =>
      match w.toList with
      | '-' :: cs =>
        let t := String.ofList cs
        (match t.toNat? with
          | some n => some n
          | none => Signal.ofName? (if Text.startsWith t "SIG" then (t.drop 3).toString else t), rest)
      | _ => (some Signal.terminate, args)
    | [] => (some Signal.terminate, [])
  match s with
  | none => refuse "kill" "invalid signal"
  | some s =>
    forEach (fun p => do
      match int? p with
      | none => refuse "kill" ("failed to parse argument: " ++ quoted p)
      | some n =>
        match ← Program.call (.kill n s) with
        | .ok () => return 0
        | .error e => refuse "kill" ("(" ++ p ++ ") - " ++ e.reason)) pids

/-! ## expressions -/

/-- a fault in an expression, and the status that says so -/
abbrev Calculation := Except (String × Nat)

def truth (v : String) : Bool := !(v.isEmpty || v == "0")

def compareOperands (op a b : String) : Option Bool :=
  let order := match int? a, int? b with
    | some x, some y => compare x y
    | _, _ => compare a b
  match op with
  | "<" => some (order == .lt)
  | "<=" => some (order != .gt)
  | "=" => some (order == .eq)
  | "==" => some (order == .eq)
  | "!=" => some (order != .eq)
  | ">=" => some (order != .lt)
  | ">" => some (order == .gt)
  | _ => none

def calculate (op a b : String) : Calculation String :=
  match compareOperands op a b with
  | some v => .ok (if v then "1" else "0")
  | none =>
    match int? a, int? b with
    | some x, some y =>
      match op with
      | "+" => .ok (toString (x + y))
      | "-" => .ok (toString (x - y))
      | "*" => .ok (toString (x * y))
      | "/" => if y = 0 then .error ("division by zero", 2) else .ok (toString (Int.tdiv x y))
      | _ => if y = 0 then .error ("division by zero", 2) else .ok (toString (Int.tmod x y))
    | _, _ => .error ("non-integer argument", 2)

/-- what a text gives where an expression matches its front: a group, or a length -/
def matchFront (text pattern : String) : Calculation String :=
  match Expression.read false pattern with
  | .error e => .error (e.message, 2)
  | .ok e =>
    match Expression.matchAt false e ⟨none, text.toList, []⟩ with
    | none => .ok (if Text.contains "\\(" pattern then "" else "0")
    | some p =>
      if Text.contains "\\(" pattern then .ok (String.ofList ((p.groups.lookup 1).getD []))
      else .ok (toString (text.length - p.rest.length))

/-- the operators of each level, the loosest first -/
def exprLevels : List (List String) :=
  [["|"], ["&"], ["<", "<=", "=", "==", "!=", ">=", ">"], ["+", "-"], ["*", "/", "%"], [":"]]

def join (op a b : String) : Calculation String :=
  match op with
  | "|" => .ok (if truth a then a else if truth b then b else "0")
  | "&" => .ok (if truth a && truth b then a else "0")
  | ":" => matchFront a b
  | op => calculate op a b

/-- the value of some words at a level, and what follows -/
def exprFrom : Nat → List (List String) → List String → Calculation (String × List String)
  | 0, _, ws => .ok ("", ws)
  | fuel + 1, [], ws =>
    match ws with
    | "(" :: rest => do
      let (v, rest) ← exprFrom fuel exprLevels rest
      match rest with
      | ")" :: rest => return (v, rest)
      | _ => throw ("syntax error: expecting ')'", 2)
    | "length" :: a :: rest => .ok (toString a.length, rest)
    | "substr" :: s :: from_ :: count :: rest =>
      match from_.toNat?, count.toNat? with
      | some n, some m => .ok (String.ofList ((s.toList.drop (n - 1)).take m), rest)
      | _, _ => .ok ("", rest)
    | a :: rest => .ok (a, rest)
    | [] => .error ("syntax error: missing argument", 2)
  | fuel + 1, ops :: deeper, ws => do
    let (a, rest) ← exprFrom fuel deeper ws
    more fuel ops deeper a rest
where
  more : Nat → List String → List (List String) → String → List String →
      Calculation (String × List String)
    | 0, _, _, a, ws => .ok (a, ws)
    | fuel + 1, ops, deeper, a, ws =>
      match ws with
      | op :: rest =>
        if ops.contains op then
          if rest.isEmpty then .error ("syntax error: missing argument after " ++ quoted op, 2)
          else do
            let (b, rest) ← exprFrom fuel deeper rest
            more fuel ops deeper (← join op a b) rest
        else .ok (a, ws)
      | [] => .ok (a, [])

def expr (args : List String) : Program Nat := do
  let args := if args.head? == some "--" then args.tail else args
  if args.isEmpty then
    report "expr" "missing operand"
    let _ ← put 2 "Try 'expr --help' for more information.\n"
    return 2
  else
    match exprFrom (20 * args.length + 20) exprLevels args with
    | .error (e, status) =>
      report "expr" e
      return status
    | .ok (v, []) => finish "expr" (v ++ "\n") (if truth v then 0 else 1)
    | .ok (_, w :: _) =>
      report "expr" ("syntax error: unexpected argument " ++ quoted w)
      return 2

end IncrementalLint.Tool
