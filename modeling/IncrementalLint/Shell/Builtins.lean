import IncrementalLint.Shell.Condition
import IncrementalLint.Shell.Expansion
import IncrementalLint.Shell.Format
import IncrementalLint.Shell.Reader

/-!
# Builtins

Commands that the shell runs itself. Each gets its arguments and gives its status; one that is used
in a wrong way reports that and gives up.

* `builtin?`  the builtin of a name.
-/

namespace IncrementalLint.Shell

abbrev Builtin := Level → List String → Act Nat

namespace Builtin

open Act

/-! ## arguments and output -/

/-- writes a builtin's output; the status says whether it could be written -/
def print (text : String) : Act Nat := do
  if text.isEmpty then return 0
  match ← ask (.write 1 (Raw.toBytes text)) with
  | .ok () => return 0
  | .error _ =>
    complain (((← get).builtin.getD "") ++ ": I/O error")
    return 1

def number (word : String) : Act Nat := do
  match if word.all Char.isDigit then word.toNat? else none with
  | some n => if n ≤ 2147483647 then return n else fail ("Illegal number: " ++ word)
  | none => fail ("Illegal number: " ++ word)

/-- the letters of the options in front of the other words -/
def options (allowed : List Char) : List String → Act (List Char × List String)
  | [] => return ([], [])
  | "--" :: rest => return ([], rest)
  | w :: rest => do
    match w.toList with
    | '-' :: c :: cs => do
      for d in c :: cs do
        if !allowed.contains d then fail ("Illegal option -" ++ String.ofList [d])
      let (os, rest) ← options allowed rest
      return (c :: cs ++ os, rest)
    | _ => return ([], w :: rest)

/-- a text that the shell reads back as one word -/
def quoted (s : String) : String :=
  Text.joinWith "\"'\"" ((Chars.splitAt (· == '\'') s.toList).map fun p =>
    "'" ++ String.ofList p ++ "'")

/-! ## output -/

def echo : Builtin := fun _ args => print (Format.echo args)

def printf : Builtin := fun _ args => do
  let (_, args) ← options [] args
  match args with
  | [] => fail "usage: printf format [arg ...]"
  | format :: args =>
    let p := Format.print format args
    for c in p.complaints do complain c
    match p.fault with
    | some f =>
      complain f.message
      let _ ← print p.output
      return 2
    | none =>
      let status ← print p.output
      return if p.complaints.isEmpty then status else 1

def test : Builtin := fun _ args => do
  let w : Workspace ← ask .files
  let args ← if (← get).builtin == some "[" then
      match args.getLast? with
      | some "]" => pure args.dropLast
      | _ => fail "missing ]"
    else pure args
  match Condition.test w args with
  | .ok v => return if v then 0 else 1
  | .error e => fail e

/-! ## directories -/

def absolutePath (dir name : String) : String :=
  if Text.startsWith name "/" then name else dir ++ "/" ++ name

def plainPath (path : String) : String :=
  let pieces := (Chars.splitAt (· == '/') path.toList).map String.ofList
  let steps := pieces.foldl (fun acc p =>
    if p == "" || p == "." then acc else if p == ".." then acc.tail else p :: acc) []
  "/" ++ Text.joinWith "/" steps.reverse

/-- goes to a directory, if there is one -/
def enter? (name : String) : Act Bool := do
  let w : Workspace ← ask .files
  match w.find ⟨Raw.toText name⟩ with
  | .ok (l, .directory _) =>
    ask (.enter l)
    return true
  | _ => return false

def physicalDir : Act String := do
  let w : Workspace ← ask .files
  return Raw.ofText w.cwdPath.text

/-- notes that the shell went to a directory -/
def arrive (dir : String) : Act Unit := do
  let old := (← get).dir
  modify fun s => { s with dir }
  assign "OLDPWD" old true
  assign "PWD" dir true

def goTo (physical : Bool) (name : String) : Act Bool := do
  let dir := plainPath (absolutePath (← get).dir name)
  if ← enter? (if physical then name else dir) then
    let here ← physicalDir
    arrive (if physical then here else dir)
    return true
  else return false

/-- the directories in which a name is looked for -/
def searchDirs (name : String) : Act (List String) := do
  let direct := Text.startsWith name "/" || name == "." || name == ".." ||
    Text.startsWith name "./" || Text.startsWith name "../"
  if direct then return [""]
  else
    match ← setting? "CDPATH" with
    | some path => return (Chars.splitAt (· == ':') path.toList).map String.ofList ++ [""]
    | none => return [""]

def tryDirs (physical : Bool) (name : String) : List String → Act Nat
  | [] => fail ("can't cd to " ++ name)
  | dir :: rest => do
    let path := if dir.isEmpty then name else dir ++ "/" ++ name
    if ← goTo physical path then
      if dir.isEmpty then return 0 else print ((← get).dir ++ "\n")
    else tryDirs physical name rest

def cd : Builtin := fun _ args => do
  let (os, args) ← options ['L', 'P'] args
  let physical := os.getLast? == some 'P'
  match args with
  | "-" :: _ => do
    let old := (← setting? "OLDPWD").getD (← get).dir
    if ← goTo physical old then print ((← get).dir ++ "\n") else fail ("can't cd to " ++ old)
  | [] => do
    let home := (← setting? "HOME").getD ""
    if home.isEmpty then return 0 else tryDirs physical home [""]
  | name :: _ => if name.isEmpty then return 0 else do tryDirs physical name (← searchDirs name)

def pwd : Builtin := fun _ args => do
  let (os, _) ← options ['L', 'P'] args
  if os.getLast? == some 'P' then print ((← physicalDir) ++ "\n") else print ((← get).dir ++ "\n")

/-! ## leaving -/

def exit : Builtin := fun _ args => do
  match args with
  | [] =>
    let s ← get
    setStatus (s.beforeTrap.getD s.status)
  | w :: _ => setStatus ((← number w) % 256)
  stop .ended

def return_ : Builtin := fun _ args => do
  match args with
  | [] => pure ()
  | w :: _ => setStatus (← number w)
  stop .returned

/-- leaves loops, or goes on with their next rounds -/
def leave (why : Nat → Stop) : Builtin := fun _ args => do
  let n ← match args with
    | [] => pure 1
    | w :: _ => do
      let n ← number w
      if n = 0 then fail ("Illegal number: " ++ w) else pure n
  let loops := (← get).loops
  if loops = 0 then return 0
  else
    setStatus 0
    stop (why (min n loops))

/-! ## parameters and variables -/

def shift : Builtin := fun _ args => do
  let n ← match args with
    | [] => pure 1
    | w :: _ => number w
  let s ← get
  if n > s.params.length then fail "can't shift that many"
  set { s with params := s.params.drop n }
  return 0

/-- the options with a letter and a name, and how each is set -/
def optionTable : List (Char × String × (Options → Bool → Options) × (Options → Bool)) := [
  ('e', "errexit", fun o b => { o with endOnFailure := b }, (·.endOnFailure)),
  ('f', "noglob", fun o b => { o with noFileNames := b }, (·.noFileNames)),
  ('n', "noexec", fun o b => { o with noExecution := b }, (·.noExecution)),
  ('x', "xtrace", fun o b => { o with trace := b }, (·.trace)),
  ('v', "verbose", fun o b => { o with echoInput := b }, (·.echoInput)),
  ('C', "noclobber", fun o b => { o with noClobber := b }, (·.noClobber)),
  ('a', "allexport", fun o b => { o with exportAll := b }, (·.exportAll)),
  ('u', "nounset", fun o b => { o with refuseUnset := b }, (·.refuseUnset))]

def idleOptions : List Char := ['i', 'm', 's', 'l', 'b', 'h', 'I', 'V', 'E']

def setOption (c : Char) (on : Bool) : Act Unit := do
  match optionTable.find? (·.1 == c) with
  | some (_, _, put, _) => modify fun s => { s with options := put s.options on }
  | none => if !idleOptions.contains c then fail ("Illegal option -" ++ String.ofList [c])

def setNamedOption (name : String) (on : Bool) : Act Unit := do
  match optionTable.find? (·.2.1 == name) with
  | some (_, _, put, _) => modify fun s => { s with options := put s.options on }
  | none => fail ("Illegal option -o " ++ name)

def optionNames : List String := ["errexit", "noglob", "ignoreeof", "interactive", "monitor",
  "noexec", "stdin", "xtrace", "verbose", "vi", "emacs", "noclobber", "allexport", "notify",
  "nounset", "nolog", "debug"]

/-- a line about each option, or the command that sets it -/
def optionLines (o : Options) (commands : Bool) : String :=
  let line (name : String) : String :=
    let on := ((optionTable.find? (·.2.1 == name)).map fun e => e.2.2.2 o).getD false
    if commands then "set " ++ (if on then "-o " else "+o ") ++ name ++ "\n"
    else name ++ Format.fill (16 - name.length) ' ' ++ (if on then "on" else "off") ++ "\n"
  (if commands then "" else "Current option settings\n") ++ Text.joinWith "" (optionNames.map line)

/-- sets the options in front of the other words; gives those, if there is a list of them -/
def setOptions : List String → Act (Option (List String))
  | [] => return none
  | w :: rest => do
    let word (on : Bool) (cs : List Char) : Act (Option (List String)) := do
      if cs == ['o'] then
        match rest with
        | name :: rest =>
          setNamedOption name on
          setOptions rest
        | [] =>
          let _ ← print (optionLines (← get).options !on)
          return none
      else
        for c in cs do setOption c on
        setOptions rest
    match w.toList with
    | ['-', '-'] => return some rest
    | ['-'] => return if rest.isEmpty then none else some rest
    | '-' :: cs => word true cs
    | '+' :: cs => word false cs
    | _ => return some (w :: rest)

def listing (front : String) (vs : List (String × Variable)) : String :=
  Text.joinWith "" (vs.map fun (name, v) =>
    front ++ name ++ (match v.value with
      | some text => "=" ++ quoted text
      | none => "") ++ "\n")

def set_ : Builtin := fun _ args => do
  if args.isEmpty then print (listing "" ((← get).vars.toList.filter fun v => v.2.value.isSome))
  else
    match ← setOptions args with
    | some params =>
      modify fun s => { s with params }
      return 0
    | none => return 0

def unsetOne (functions : Bool) (name : String) : Act Unit := do
  let s ← get
  if functions then set { s with functions := s.functions.erase name }
  else if !isName name then fail (name ++ ": bad variable name")
  else if ((s.vars.get? name).map (·.fixed)).getD false then fail (name ++ ": is read only")
  else set { s with vars := s.vars.erase name }

def unset : Builtin := fun _ args => do
  let (os, names) ← options ['v', 'f'] args
  for name in names do unsetOne (os.getLast? == some 'f') name
  return 0

/-- a name and the value behind an equals sign -/
def splitAssignment (word : String) : String × Option String :=
  let cs := word.toList
  let name := String.ofList (cs.takeWhile (· != '='))
  match cs.dropWhile (· != '=') with
  | _ :: v => (name, some (String.ofList v))
  | [] => (name, none)

def checkName (name : String) : Act Unit := do
  if !isName name then fail (name ++ ": bad variable name")

def markVariables (keyword : String) (held : Variable → Bool) (mark : Variable → Variable) :
    Builtin := fun _ args => do
  let (_, words) ← options ['p'] args
  if words.isEmpty then
    print (listing (keyword ++ " ") ((← get).vars.toList.filter fun v => held v.2))
  else
    for w in words do
      let (name, v) := splitAssignment w
      checkName name
      match v with
      | some text => assign name text false
      | none => pure ()
      modify fun s =>
        { s with vars := s.vars.insert name (mark ((s.vars.get? name).getD { value := none })) }
    return 0

def export_ : Builtin := markVariables "export" (·.exported) fun v => { v with exported := true }
def readonly : Builtin := markVariables "readonly" (·.fixed) fun v => { v with fixed := true }

def local_ : Builtin := fun _ args => do
  if (← get).functionDepth = 0 then fail "not in a function"
  let (_, words) ← options [] args
  for w in words do
    let (name, v) := splitAssignment w
    checkName name
    keepVariable name
    match v with
    | some text => assign name text false
    | none => pure ()
  return 0

/-! ## reading -/

/-- what a line reads as, last character first -/
structure LineDraft where
  chars : List LineChar := []
  complete : Bool := false

def readByte : Act (Option Char) := do
  match ← ask (.read 0 1) with
  | .ok bs => return bs.data[0]?.map fun b => Char.ofNat b.toNat
  | .error _ => return none

def readLine (raw : Bool) : Nat → LineDraft → Act LineDraft
  | 0, d => return d
  | fuel + 1, d => do
    match ← readByte with
    | none => return d
    | some '\n' => return { d with complete := true }
    | some '\\' =>
      if raw then readLine raw fuel { d with chars := ('\\', false) :: d.chars }
      else
        match ← readByte with
        | none => return d
        | some '\n' => readLine raw fuel d
        | some c => readLine raw fuel { d with chars := (c, true) :: d.chars }
    | some c =>
      if c.toNat = 0 then readLine raw fuel d
      else readLine raw fuel { d with chars := (c, false) :: d.chars }

/-- the options in front of the names: whether backslashes are read as they stand -/
def readOptions : Nat → List String → Act (Bool × List String)
  | 0, ws => return (false, ws)
  | _, [] => return (false, [])
  | fuel + 1, w :: rest => do
    match w.toList with
    | ['-', '-'] => return (false, rest)
    | ['-', 'p'] =>
      match rest with
      | _ :: rest => readOptions fuel rest
      | [] => fail "No arg for -p option"
    | '-' :: 'p' :: _ => readOptions fuel rest
    | '-' :: 'r' :: cs => do
      let (_, rest) ← readOptions fuel (if cs.isEmpty then rest else String.ofList ('-' :: cs) :: rest)
      return (true, rest)
    | '-' :: c :: _ => fail ("Illegal option -" ++ String.ofList [c])
    | _ => return (false, w :: rest)

def read : Builtin := fun _ args => do
  let (raw, names) ← readOptions (2 * (Text.joinWith " " args).length + 4) args
  if names.isEmpty then fail "arg count"
  let d ← readLine raw rounds {}
  let seps ← separators
  let line := d.chars.reverse.dropWhile (isBlankSeparator seps)
  let values := lineFields seps names.length line
  for (name, v) in names.zip (values ++ List.replicate names.length "") do
    checkName name
    assign name v false
  return if d.complete then 0 else 1

/-- where the search for options goes on -/
def getopts : Builtin := fun _ args => do
  match args with
  | spec :: name :: given => do
    let s ← get
    let words := if given.isEmpty then s.params else given
    let index := (Arithmetic.number? false ((← setting? "OPTIND").getD "1")).getD 1
    let past := index > words.length + 1
    let index := if past then 1 else index
    let offset := if past then 0 else s.optionOffset
    let silent := Text.startsWith spec ":"
    let finish (index : Nat) (offset : Nat) (letter : String) (arg : Option String) (status : Nat) :
        Act Nat := do
      modify fun s => { s with optionOffset := offset }
      assign "OPTIND" (toString index) false
      match arg with
      | some a => assign "OPTARG" a false
      | none => modify fun s => { s with vars := s.vars.erase "OPTARG" }
      assign name letter false
      return status
    let i := index.toNat
    match words[i - 1]? with
    | none => finish (words.length + 1) 0 "?" none 1
    | some w =>
      let cs := w.toList
      if offset = 0 && (w == "--" || cs.head? != some '-' || cs.length < 2) then
        finish (if w == "--" then i + 1 else i) 0 "?" none 1
      else
        let at_ := if offset = 0 then 1 else offset
        let c := cs.getD at_ '?'
        let more := at_ + 1 < cs.length
        let after := cs.drop (at_ + 1)
        let (index', offset') := if more then (i, at_ + 1) else (i + 1, 0)
        let letter := String.ofList [c]
        match spec.toList.dropWhile (· != c) with
        | _ :: ':' :: _ =>
          if more then finish (i + 1) 0 letter (some (String.ofList after)) 0
          else
            match words[i]? with
            | some a => finish (i + 2) 0 letter (some a) 0
            | none =>
              if silent then finish (i + 1) 0 ":" (some letter) 0
              else
                put 2 ("No arg for -" ++ letter ++ " option\n")
                finish (i + 1) 0 "?" none 0
        | _ :: _ => if c == ':' then finish index' offset' "?" none 0 else finish index' offset' letter none 0
        | [] =>
          if silent then finish index' offset' "?" (some letter) 0
          else
            put 2 ("Illegal option -" ++ letter ++ "\n")
            finish index' offset' "?" none 0
  | _ => fail "Usage: getopts optstring var [arg...]"

/-! ## signals and children -/

/-- the number of a signal that a word gives by number or name -/
def signal? (least : Nat) (word : String) : Option Signal :=
  if !word.isEmpty && word.all Char.isDigit then word.toNat?.filter (· < Signal.limit)
  else if least = 0 && word.map Char.toUpper == "EXIT" then some 0
  else Signal.ofName? (word.map Char.toUpper)

def signalName (s : Signal) : String := if s = 0 then "EXIT" else (s.name?).getD (toString s)

def setTrap (action : Option String) (s : Signal) : Act Unit := do
  modify fun t =>
    let others := t.traps.filter (·.1 != s)
    { t with traps := match action with
        | some a => others ++ [(s, a)]
        | none => others }
  if s != 0 then
    ask (.arrange s (match action with
      | none => .default
      | some a => if a.isEmpty then .ignored else .caught))

def setTraps (action : Option String) : List String → Act Nat
  | [] => return 0
  | w :: ws => do
    match signal? 0 w with
    | none =>
      put 2 ("trap: " ++ w ++ ": bad trap\n")
      return 1
    | some s =>
      setTrap action s
      setTraps action ws

def trap : Builtin := fun _ args => do
  let (_, words) ← options [] args
  match words with
  | [] =>
    let ts := (← get).traps.mergeSort fun a b => a.1 ≤ b.1
    print (Text.joinWith "" (ts.map fun (s, a) =>
      "trap -- " ++ quoted a ++ " " ++ signalName s ++ "\n"))
  | [w] => setTraps none [w]
  | w :: ws =>
    if !w.isEmpty && w.all Char.isDigit then setTraps none (w :: ws)
    else if w == "-" then setTraps none ws
    else setTraps (some w) ws

def killUsage : String :=
  "Usage: kill [-s sigspec | -signum | -sigspec] [pid | job]... or\nkill -l [exitstatus]"

/-- the number of a process or, negated, of a group -/
def target (word : String) : Act Int := do
  match word.toList with
  | '-' :: cs => return -(Int.ofNat (← number (String.ofList cs)))
  | '%' :: cs => do
    let jobs := (← get).background
    match (String.ofList cs).toNat?.bind fun n => if n = 0 then none else jobs[n - 1]? with
    | some (pid, _) => return pid
    | none => fail ("No such job: " ++ word)
  | _ => return Int.ofNat (← number word)

def killAll (s : Signal) : List String → Nat → Act Nat
  | [], status => return status
  | w :: ws, status => do
    let t ← target w
    match ← ask (.kill t s) with
    | .ok () => killAll s ws status
    | .error e =>
      complain (e.reason ++ "\n")
      killAll s ws 1

def listSignals : List String → Act Nat
  | [] => print ("0\n" ++ Text.joinWith "" (Signal.table.map fun s => s.1 ++ "\n"))
  | w :: _ => do
    let n ← number w
    let s := if n > 128 then n - 128 else n
    match Signal.name? s with
    | some name => print (name ++ "\n")
    | none => fail ("invalid signal number or exit status: " ++ w)

def kill : Builtin := fun _ args => do
  let send (s : Signal) (words : List String) : Act Nat := do
    if words.isEmpty then fail killUsage else killAll s words 0
  match args with
  | [] => fail killUsage
  | w :: rest =>
    match w.toList with
    | '-' :: cs =>
      match signal? 1 (String.ofList cs) with
      | some s => send s rest
      | none =>
        match cs with
        | ['-'] => send Signal.terminate rest
        | ['l'] => listSignals rest
        | 's' :: more =>
          let (name, rest) := if more.isEmpty then (rest.headD "", rest.tail) else (String.ofList more, rest)
          match signal? 1 name with
          | some s => send s rest
          | none => fail ("invalid signal number or name: " ++ name)
        | c :: _ => fail ("Illegal option -" ++ String.ofList [c])
        | [] => fail killUsage
    | _ => send Signal.terminate args

/-- waits for all children -/
def waitAll : Nat → Act Nat
  | 0 => return 0
  | fuel + 1 => do
    match ← ask (.wait none true) with
    | .ended pid how =>
      modify fun s =>
        { s with background := s.background.map fun b => if b.1 == pid then (pid, some how) else b }
      waitAll fuel
    | .interrupted =>
      collect
      return 128 + ((← get).pending.headD 0)
    | _ => return 0

def waitOne (word : String) : Act Nat := do
  let pid := (← target word).toNat
  match ((← get).background.lookup pid).join with
  | some how => return how.status
  | none =>
    match ← ask (.wait (some pid) true) with
    | .ended _ how =>
      reportEnd how
      modify fun s =>
        { s with background := s.background.map fun b => if b.1 == pid then (pid, some how) else b }
      return how.status
    | .interrupted =>
      collect
      return 128 + ((← get).pending.headD 0)
    | _ => return 127

def waitEach : List String → Nat → Act Nat
  | [], status => return status
  | w :: ws, _ => do waitEach ws (← waitOne w)

def wait : Builtin := fun _ args => do
  let (_, words) ← options [] args
  if words.isEmpty then waitAll rounds else waitEach words 0

def jobLine (index : Nat) (total : Nat) (state : String) : String :=
  let front := "[" ++ toString (index + 1) ++ "] " ++
    (if index + 1 == total then "+ " else if index + 2 == total then "- " else "  ") ++ state
  front ++ Format.fill (33 - front.length) ' ' ++ "\n"

def jobStates : List (Nat × Option Ending) → Act (List (Nat × Option Ending))
  | [] => return []
  | (pid, some how) :: rest => do return (pid, some how) :: (← jobStates rest)
  | (pid, none) :: rest => do
    let how ← match ← ask (.wait (some pid) false) with
      | .ended _ how => pure (some how)
      | _ => pure none
    return (pid, how) :: (← jobStates rest)

def jobs : Builtin := fun _ args => do
  let _ ← options ['l', 'p'] args
  let states ← jobStates (← get).background
  modify fun s => { s with background := states.filter (·.2.isNone) }
  let lines := states.mapIdx fun i (_, how) => jobLine i states.length (match how with
    | none => "Running"
    | some (.exited 0) => "Done"
    | some (.exited n) => "Done(" ++ toString n ++ ")"
    | some (.killed s) => s.describe)
  print (Text.joinWith "" lines)

def noJob : Builtin := fun _ _ => fail "No current job"

/-! ## the rest -/

def times : Builtin := fun _ _ =>
  print "0m0.000000s 0m0.000000s\n0m0.000000s 0m0.000000s\n"

def octalText (n : Nat) : String :=
  let s := Format.digitsIn 8 false n
  Format.fill (4 - s.length) '0' ++ s

/-- the rights that a mask leaves, in letters -/
def maskText (mask : Nat) : String :=
  let part (who : String) (shift : Nat) :=
    let m := mask / Nat.pow 2 shift % 8
    who ++ "=" ++ (if m / 4 % 2 = 0 then "r" else "") ++ (if m / 2 % 2 = 0 then "w" else "") ++
      (if m % 2 = 0 then "x" else "")
  part "u" 6 ++ "," ++ part "g" 3 ++ "," ++ part "o" 0

def umask : Builtin := fun _ args => do
  let (os, words) ← options ['S'] args
  match words with
  | [] =>
    let mask := (← get).mask
    print ((if os.contains 'S' then maskText mask else octalText mask) ++ "\n")
  | w :: _ =>
    if (w.toList.head?.map Char.isDigit).getD false then
      match Arithmetic.takeDigits 8 0 w.toList with
      | (n, []) =>
        modify fun s => { s with mask := n % 512 }
        return 0
      | _ => fail ("Illegal number: " ++ w)
    else return 0

def ulimit : Builtin := fun _ args => do
  let (_, words) ← options ("HStfdscmlpnvwr".toList) args
  if words.isEmpty then print "unlimited\n" else return 0

def eval : Builtin := fun l args => do
  let text := Text.joinWith " " args
  setStatus 0
  if text.isEmpty then return 0
  l.runText text
  return (← get).status

end Builtin

/-! ## names -/

inductive Found where
  | keyword
  | function (body : Command)
  | builtin
  | file (path : String)
  | nothing

/-- builtins that the evaluation of commands knows itself -/
def innerBuiltins : List String := [".", "exec", "command", "type", "hash"]

def builtinTable : List (String × Builtin) := [
  (":", fun _ _ => return 0), ("true", fun _ _ => return 0), ("false", fun _ _ => return 1),
  ("echo", Builtin.echo), ("printf", Builtin.printf), ("test", Builtin.test), ("[", Builtin.test),
  ("cd", Builtin.cd), ("chdir", Builtin.cd), ("pwd", Builtin.pwd), ("exit", Builtin.exit),
  ("return", Builtin.return_), ("break", Builtin.leave .left), ("continue", Builtin.leave .nextRound),
  ("shift", Builtin.shift), ("set", Builtin.set_), ("unset", Builtin.unset),
  ("export", Builtin.export_), ("readonly", Builtin.readonly), ("local", Builtin.local_),
  ("read", Builtin.read), ("getopts", Builtin.getopts), ("trap", Builtin.trap),
  ("kill", Builtin.kill), ("wait", Builtin.wait), ("jobs", Builtin.jobs), ("fg", Builtin.noJob),
  ("bg", Builtin.noJob), ("times", Builtin.times), ("umask", Builtin.umask),
  ("ulimit", Builtin.ulimit), ("eval", Builtin.eval)]

def builtin? (name : String) : Option Builtin := builtinTable.lookup name

def isBuiltin (name : String) : Bool := (builtin? name).isSome || innerBuiltins.contains name

/-- builtins whose arguments may assign -/
def takesAssignments (name : String) : Bool := ["export", "readonly", "local"].contains name

end IncrementalLint.Shell
