import IncrementalLint.Shell.Start
import IncrementalLint.Tool.Lines
import IncrementalLint.Tool.Plain

/-!
# The tools of a system

The tools that run others, the table of all tools, and a workspace in which they are installed.

* `launch`           runs a tool by name;
* `interpreter`      runs a shell line;
* `Workspace.fresh`  the directories and tools of a system, and nothing else.
-/

namespace IncrementalLint

namespace Tool

/-! ## running others -/

/-- becomes the program of a name -/
def become (launch : Launch) (env : Environment) (tool name : String) (args : List String) :
    Program Nat := do
  let w ← Program.files
  let file? := if name.toList.contains '/' then some name
    else Executable.inPath w ((env.lookup "PATH").getD Shell.Start.defaultPath) name
  match file? with
  | none => do
    report tool (quoted name ++ ": " ++ FileError.notFound.reason)
    return 127
  | some file =>
    match Executable.resolve w 8 (pathOf file) (name :: args) with
    | .ok (found, argv) => launch found argv env
    | .error e => do
      report tool (quoted name ++ ": " ++ e.reason)
      return if e == .notFound then 127 else 126

/-- runs a program in a process of its own and waits for its end -/
def run (launch : Launch) (env : Environment) (tool name : String) (args : List String) :
    Program Ending := do
  match ← Program.call .fork with
  | none =>
    let status ← become launch env tool name args
    Program.exit status
  | some pid =>
    match ← Program.call (.wait (some pid) true) with
    | .ended _ how => return how
    | _ => return .exited 127

def assignment? (w : String) : Option (String × String) :=
  let name := String.ofList (w.toList.takeWhile (· != '='))
  match w.toList.dropWhile (· != '=') with
  | _ :: v => if name.isEmpty then none else some (name, String.ofList v)
  | [] => none

def setVariable (env : Environment) (name v : String) : Environment :=
  (env.filter (·.1 != name)) ++ [(name, v)]

def assignments (env : Environment) : List String → Environment × List String
  | [] => (env, [])
  | w :: rest =>
    match assignment? w with
    | some (name, v) => assignments (setVariable env name v) rest
    | none => (env, w :: rest)

def env (launch : Launch) (known : Environment) (args : List String) : Program Nat :=
  let args := match args with
    | "-" :: rest => "-i" :: rest
    | _ => args
  withOptions {
    tool := "env"
    letters := ['i', '0', 'v']
    withArg := ['u', 'C', 'S']
    long := [("ignore-environment", 'i'), ("unset", 'u')]
    wrong := 125
    strict := true } args fun o =>
    let known := if o.has 'i' then [] else known
    let known := known.filter fun e => !o.given.any fun g => g.1 == 'u' && g.2 == e.1
    match assignments known o.operands with
    | (known, []) => finish "env" (unlines (known.map fun e => e.1 ++ "=" ++ e.2)) 0
    | (known, name :: args) => become launch known "env" name args

def groups (size : Nat) : Nat → List String → List (List String)
  | 0, _ => []
  | fuel + 1, xs =>
    if xs.length ≤ size then [xs] else xs.take size :: groups size fuel (xs.drop size)

def runEach (launch : Launch) (known : Environment) (name : String) : List (List String) → Nat → Program Nat
  | [], status => return status
  | args :: rest, status => do
    match ← run launch known "xargs" name args with
    | .exited 0 => runEach launch known name rest status
    | .exited 127 => return 127
    | .exited 126 => return 126
    | .exited 255 => return 124
    | .exited _ => runEach launch known name rest 123
    | .killed _ => return 125

def xargs (launch : Launch) (known : Environment) (args : List String) : Program Nat :=
  withOptions {
    tool := "xargs"
    letters := ['0', 'r', 't']
    withArg := ['n', 'I', 'd', 'P', 'L']
    long := [("null", '0'), ("no-run-if-empty", 'r'), ("max-args", 'n'), ("replace", 'I')]
    strict := true } args fun o => do
    let text := match ← drain 0 with
      | .ok bs => Raw.ofBytes bs
      | .error _ => ""
    let (name, front) := match o.operands with
      | [] => ("echo", [])
      | n :: more => (n, more)
    let between (p : Char → Bool) := ((Chars.splitAt p text.toList).filter (· ≠ [])).map String.ofList
    match o.last? 'I' with
    | some mark =>
      let calls := (linesOf text).map fun l =>
        let trimmed := String.ofList (l.toList.dropWhile isSpace)
        front.map fun a => Text.replaceAll mark trimmed a
      runEach launch known name calls 0
    | none =>
      let items := if o.has '0' then between (· == Char.ofNat 0)
        else match (o.last? 'd').bind fun d => d.toList.head? with
          | some c => between (· == c)
          | none => between isSpace
      let size := max 1 (((o.last? 'n').bind String.toNat?).getD 5000)
      if items.isEmpty && o.has 'r' then return 0
      else runEach launch known name ((groups size (items.length + 1) items).map (front ++ ·)) 0

/-- how long to wait between two looks at a program with a time limit -/
def lookInterval : Nat := 1000000

/-- looks at a program until it has ended or its time is up -/
def watch (pid limit : Nat) : Nat → Program (Option Ending)
  | 0 => return none
  | fuel + 1 => do
    match ← Program.call (.wait (some pid) false) with
    | .ended _ how => return some how
    | _ =>
      let now ← Program.call .time
      if now ≥ (limit : Int) then return none
      else
        Program.call (.sleep lookInterval)
        watch pid limit fuel

def timeout (launch : Launch) (known : Environment) (args : List String) : Program Nat :=
  withOptions {
    tool := "timeout"
    letters := ['v', 'f']
    withArg := ['s', 'k']
    long := [("signal", 's'), ("kill-after", 'k'), ("preserve-status", 'p'), ("foreground", 'f')]
    wrong := 125
    strict := true } args fun o => do
    let s := match o.last? 's' with
      | none => Signal.terminate
      | some t =>
        match t.toNat? with
        | some n => n
        | none => (Signal.ofName? (if Text.startsWith t "SIG" then (t.drop 3).toString else t)).getD Signal.terminate
    match o.operands with
    | limit :: name :: args =>
      match nanos? limit with
      | none =>
        report "timeout" ("invalid time interval " ++ quoted limit)
        let _ ← put 2 "Try 'timeout --help' for more information.\n"
        return 125
      | some limit =>
        match ← Program.call .fork with
        | none =>
          let status ← become launch known "timeout" name args
          Program.exit status
        | some pid =>
          let start ← Program.call .time
          let stop := if limit = 0 then Nat.pow 10 30 else start.toNat + limit
          match ← watch pid stop rounds with
          | some (.exited n) => return n
          | some (.killed s) => return 128 + s
          | none =>
            let _ ← Program.call (.kill pid s)
            let _ ← Program.call (.wait (some pid) true)
            return if s == Signal.killed then 137 else 124
    | _ => do
      let _ ← put 2 "Try 'timeout --help' for more information.\n"
      return 125

def nohup (launch : Launch) (known : Environment) (args : List String) : Program Nat := do
  match args with
  | [] => missingOperand "nohup"
  | name :: args =>
    Program.call (.arrange 1 .ignored)
    become launch known "nohup" name args

/-! ## the table -/

/-- a tool: what it does when it runs with a name, its arguments and what it knows -/
abbrev Entry := Launch → String → List String → Environment → Program Nat

/-- tools that need their arguments alone -/
def simple (f : List String → Program Nat) : Entry := fun _ _ args _ => f args

def shell : Entry := fun launch name args known => Shell.run launch (name :: args) known

def table : List (String × Entry) := [
  ("sh", shell), ("dash", shell),
  ("cat", simple cat), ("tee", simple tee), ("head", simple head), ("tail", simple tail),
  ("wc", simple wc), ("tr", simple tr), ("yes", simple yes), ("seq", simple seq),
  ("grep", simple grep), ("egrep", simple egrep), ("fgrep", simple fgrep), ("sort", simple sort),
  ("uniq", simple uniq), ("cut", simple cut), ("tac", simple tac), ("rev", simple rev),
  ("ls", simple ls), ("mkdir", simple mkdir), ("rmdir", simple rmdir), ("rm", simple rm),
  ("cp", simple cp), ("mv", simple mv), ("ln", simple ln), ("readlink", simple readlink),
  ("realpath", simple realpath), ("touch", simple touch), ("chmod", simple chmod),
  ("true", fun _ _ _ _ => return 0), ("false", fun _ _ _ _ => return 1), ("echo", simple echo),
  ("printf", fun _ name args _ => printf name args), ("test", fun _ _ args _ => test "test" args),
  ("[", fun _ _ args _ => test "[" args), ("pwd", fun _ _ _ _ => pwd),
  ("basename", simple basename), ("dirname", simple dirname), ("sleep", simple sleep),
  ("expr", simple expr), ("kill", simple killProcess), ("id", simple id),
  ("whoami", simple (tell "root")), ("uname", simple (tell "Linux")), ("arch", simple (tell "x86_64")),
  ("sync", fun _ _ _ _ => return 0),
  ("printenv", fun _ _ args known => printenv known args),
  ("which", fun _ _ args known => which known args),
  ("env", fun launch _ args known => env launch known args),
  ("xargs", fun launch _ args known => xargs launch known args),
  ("timeout", fun launch _ args known => timeout launch known args),
  ("nohup", fun launch _ args known => nohup launch known args),
  ("setsid", fun launch _ args known => become launch known "setsid" (args.headD "") args.tail)]

end Tool

/-! ## launching -/

/-- how often a tool may become another one -/
def launchDepth : Nat := 200

def launchFrom : Nat → Launch
  | 0 => fun _ _ _ => return 126
  | depth + 1 => fun name argv known =>
    match Tool.table.lookup name with
    | some tool => tool (launchFrom depth) (argv.headD name) argv.tail known
    | none => return 127

def launch : Launch := launchFrom launchDepth

/-- what the first shell knows -/
def firstEnvironment : Environment := [("HOME", "/root"), ("PATH", Shell.Start.defaultPath)]

def interpreter (line : String) : Program Nat := launch "sh" ["sh", "-c", line] firstEnvironment

/-! ## a system -/

namespace Workspace

def addDirectory (t : Time) (w : Workspace) (l : Location) : Workspace := w.put l (.directory t)

/-- the directories and tools of a system, and nothing else -/
def fresh (now : Time) : Workspace :=
  let empty : Workspace := { nodes := .empty, clock := now, cwd := [] }
  let dirs := [[], ["usr"], ["usr", "bin"], ["tmp"], ["root"], ["dev"], ["etc"], ["home"], ["var"]]
  let w := dirs.foldl (addDirectory now) empty
  let w := Tool.table.foldl (fun w t =>
    w.put ["usr", "bin", t.1] (.file (Executable.content t.1) 0 true)) w
  let w := w.put ["bin"] (.link "usr/bin")
  (w.put ["dev", "null"] (.device .null)).put ["dev", "zero"] (.device .zero)

end Workspace

end IncrementalLint
