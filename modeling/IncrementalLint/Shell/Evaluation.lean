import IncrementalLint.Shell.Builtins
import IncrementalLint.Shell.Redirection

/-!
# Evaluation

How commands run. A simple command is expanded, redirected and given to a function, a builtin or a
program; the others run commands in an order of their own. Every command leaves its status behind.

* `Evaluation.simple`   simple commands;
* `Evaluation.command`  all commands;
* `levels`              the two of them with all that they need of each other.
-/

namespace IncrementalLint.Shell.Evaluation

open Act

/-! ## names of commands -/

/-- what a name stands for as a command -/
def lookUp (functions : Bool) (name : String) : Act Found := do
  if name.toList.contains '/' then return .file name
  let s ← get
  match if functions && !isSpecialBuiltin name then s.functions.get? name else none with
  | some body => return .function body
  | none =>
    if isBuiltin name then return .builtin
    else
      let w : Workspace ← ask .files
      match Executable.inPath w (← value "PATH") name with
      | some file => return .file file
      | none => return .nothing

/-! ## programs -/

/-- why a program cannot be run, and the status that says so -/
def launchFault (e : FileError) : String × Nat :=
  match e with
  | .notFound | .notDirectory => ("not found", 127)
  | .nameTooLong | .tooManyLinks => (e.reason, 127)
  | e => (e.reason, 126)

/-- becomes a program: nothing of the shell is left -/
def become (l : Level) (file name : String) (args : List String) : Act Unit := do
  let w : Workspace ← ask .files
  match Executable.resolve w 8 ⟨Raw.toText file⟩ (name :: args) with
  | .error e =>
    let (text, status) := launchFault e
    complain (name ++ ": " ++ text)
    setStatus status
    stop .ended
  | .ok (tool, argv) =>
    let s ← get
    for (signal, action) in s.traps do
      if signal != 0 && !action.isEmpty then ask (.arrange signal .default)
    for fd in s.kept do ask (.close fd)
    let status ← (fun s => do return (.ok (← l.launch tool argv (environment s)), s) : Act Nat)
    let e ← ask (.exit status)
    nomatch e

def runProgram (l : Level) (file name : String) (args : List String) : Act Unit := do
  let pid ← spawn l (become l file name args)
  foreground [pid]

/-- `exec` with a program -/
def replace (l : Level) (name : String) (args : List String) : Act Unit := do
  match ← lookUp false name with
  | .file file => become l file name args
  | _ =>
    let w : Workspace ← ask .files
    match Executable.inPath w (← value "PATH") name with
    | some file => become l file name args
    | none =>
      complain (name ++ ": not found")
      setStatus 127
      stop .ended

/-! ## builtins that look at commands -/

/-- what a name stands for, in words or as a name to run -/
def describe (words : Bool) (name : String) : Act Nat := do
  if (Keyword.ofText? name).isSome then
    let _ ← Builtin.print (name ++ (if words then " is a shell keyword\n" else "\n"))
    return 0
  match ← lookUp true name with
  | .keyword => return 0
  | .function _ => Builtin.print (name ++ (if words then " is a shell function\n" else "\n"))
  | .builtin =>
    Builtin.print (name ++ (if !words then "\n"
      else if isSpecialBuiltin name then " is a special shell builtin\n"
      else " is a shell builtin\n"))
  | .file file =>
    let w : Workspace ← ask .files
    if w.present ⟨Raw.toText file⟩ then
      Builtin.print (if words then name ++ " is " ++ file ++ "\n" else file ++ "\n")
    else if words then do
      put 2 (name ++ ": not found\n")
      return 127
    else return 127
  | .nothing =>
    if words then put 2 (name ++ ": not found\n")
    return 127

def describeAll (words : Bool) : List String → Nat → Act Nat
  | [], status => return status
  | n :: ns, status => do
    let s ← describe words n
    describeAll words ns (if s = 0 then status else s)

/-- the names of programs are not remembered, only looked for -/
def hash (names : List String) : Act Nat := do
  let mut status := 0
  for name in names do
    match ← lookUp true name with
    | .nothing =>
      complain (name ++ ": not found")
      status := 1
    | _ => pure ()
  return status

/-- the file of a script: named by a path, or found in the search path -/
def scriptFile (name : String) : Act String := do
  if name.toList.contains '/' then return name
  let w : Workspace ← ask .files
  let dirs := (Chars.splitAt (· == ':') (← value "PATH").toList).map String.ofList
  let files := dirs.map fun d => if d.isEmpty then name else d ++ "/" ++ name
  match files.find? fun f => (w.read ⟨Raw.toText f⟩).isOk with
  | some f => return f
  | none => fail (name ++ ": not found")

def source (l : Level) (args : List String) : Act Nat := do
  match args with
  | [] => return 0
  | name :: _ =>
    let file ← scriptFile name
    let w : Workspace ← ask .files
    match w.read ⟨Raw.toText file⟩ with
    | .error e => fail ("cannot open " ++ file ++ ": " ++ Redirection.faultText true e)
    | .ok content =>
      modify fun s => { s with builtin := some file }
      setStatus 0
      match ← attempt (l.runText (Raw.ofBytes content)) with
      | .error .returned => pure ()
      | r => resume r
      return (← get).status

def runBuiltin (l : Level) (name : String) (args : List String) : Act Nat := do
  match name with
  | "." => source l args
  | "type" => describeAll true args 0
  | "hash" => hash args
  | "command" =>
    match args with
    | "-v" :: name :: _ => describe false name
    | "-V" :: name :: _ => describe true name
    | _ => return 0
  | _ =>
    match builtin? name with
    | some b => b l args
    | none => return 0

/-! ## simple commands -/

/-- expands words up to the first field -/
def firstFields (l : Level) : List Word → Act (List String × List Word)
  | [] => return ([], [])
  | w :: ws => do
    let fs ← Expansion.fields l w
    if fs.isEmpty then firstFields l ws else return (fs, ws)

/-- the fields of words that may assign, which are not split then -/
def assigningFields (l : Level) : List Word → Act (List String)
  | [] => return []
  | w :: ws => do
    let front ← match Word.assignment? w with
      | some (name, v) => do pure [name ++ "=" ++ (← Expansion.text l .assignment v)]
      | none => Expansion.fields l w
    return front ++ (← assigningFields l ws)

/-- a command behind `command`: whether there was one, and what is left -/
def unwrap : List String → Bool × List String
  | "command" :: "--" :: w :: rest => (true, (unwrap (w :: rest)).2)
  | "command" :: "-p" :: w :: rest => (true, (unwrap (w :: rest)).2)
  | "command" :: w :: rest =>
    if Text.startsWith w "-" then (false, "command" :: w :: rest) else (true, (unwrap (w :: rest)).2)
  | ws => (false, ws)

/-- the status that says that something was caught, and whether to go on after it -/
def endOnFailure (tested : Bool) : Act Unit := do
  let s ← get
  if s.options.endOnFailure && !tested && s.status != 0 then stop .ended

def answer (l : Level) (signals : List Signal) : Act Unit := do
  for signal in signals do
    let s ← get
    match s.traps.lookup signal with
    | none => pure ()
    | some action =>
      if action.isEmpty then pure ()
      else
        set { s with beforeTrap := some s.status }
        l.runText action
        modify fun t => { t with status := s.status, beforeTrap := s.beforeTrap }

def answerSignals (l : Level) : Act Unit := do
  collect
  let signals := (← get).pending
  if !signals.isEmpty then
    modify fun s => { s with pending := [] }
    answer l signals

/-- puts descriptors back, however an action went on; a shell that ends leaves them -/
def restoring (kept : List Kept) (a : Act Unit) : Act Unit := do
  let r ← attempt a
  match r with
  | .error .ended => resume r
  | _ =>
    Redirection.restore kept
    resume r

def callFunction (l : Level) (tested : Bool) (body : Command) (args : List String) : Act Unit := do
  let s ← get
  set { s with params := args, loops := 0, functionDepth := s.functionDepth + 1 }
  let r ← attempt (l.run tested body)
  modify fun t =>
    { t with params := s.params, loops := s.loops, functionDepth := s.functionDepth }
  match r with
  | .error .returned => return
  | r => resume r

def callBuiltin (l : Level) (special : Bool) (name : String) (args : List String) : Act Unit := do
  let outer := (← get).builtin
  modify fun s => { s with builtin := some name }
  let r ← attempt (runBuiltin l name args)
  modify fun s => { s with builtin := outer }
  match r with
  | .ok status => setStatus status
  | .error .failed => if special then stop .failed else return
  | .error e => stop e

def assignAll (l : Level) (exported local_ : Bool) : List (String × Word) → Act (List String)
  | [] => return []
  | (name, w) :: rest => do
    let text ← Expansion.text l .assignment w
    if local_ then keepVariable name
    assign name text exported
    return (name ++ "=" ++ text) :: (← assignAll l exported local_ rest)

/-- shows a command before it runs, if asked for -/
def traceCommand (words : List String) : Act Unit := do
  if (← get).options.trace && !words.isEmpty then
    put 2 ((← setting? "PS4").getD "+ " ++ Text.joinWith " " words ++ "\n")

/-- runs a command whose words are known and whose redirections are done -/
def perform (l : Level) (tested special plain : Bool) (argv : List String) : Act Unit := do
  match argv with
  | [] => modify fun s => { s with status := s.substituted }
  | name :: args =>
    match ← lookUp (!plain) name with
    | .function body => callFunction l tested body args
    | .builtin => callBuiltin l special name args
    | .file file => runProgram l file name args
    | _ =>
      complain (name ++ ": not found")
      setStatus 127

/-- a command with its words, its redirections and its assignments -/
def performAll (l : Level) (tested : Bool) (given : List String) (assigns : List (String × Word))
    (redirs : List Redir) : Act Unit := do
  let (plain, argv) := unwrap given
  let functions := (← get).functions
  let isFunction := !plain && (given.head?.map fun n => (functions.get? n).isSome).getD false
  let special := !plain && (given.head?.map isSpecialBuiltin).getD false
  let rs ← Redirection.expand l redirs
  let (kept, fault) ← Redirection.apply l true rs []
  match fault with
  | some message =>
    complain message
    setStatus 2
    Redirection.restore kept
    if special then stop .failed
  | none =>
    let isExec := argv.head? == some "exec" && !isFunction
    let local_ := !argv.isEmpty && !special
    if local_ then pushFrame
    let r ← attempt (restoring (if isExec then [] else kept) do
      let shown ← assignAll l (local_ || (isExec && argv.length > 1)) local_ assigns
      traceCommand (shown ++ given)
      if isExec then
        Redirection.settle kept
        match argv.tail with
        | [] => setStatus 0
        | "--" :: name :: args => exec name args
        | name :: args => exec name args
      else perform l tested special plain argv)
    if local_ then popFrame
    resume r
where
  exec (name : String) (args : List String) : Act Unit := do
    modify fun s => { s with builtin := some "exec" }
    replace l name args

def simple (l : Level) (tested : Bool) (line : Nat) (assigns : List (String × Word))
    (words : List Word) (redirs : List Redir) : Act Unit := do
  modify fun s => { s with line, substituted := 0 }
  let (first, rest) ← firstFields l words
  let assigning := takesAssignments ((unwrap first).2.headD "")
  let more ← if assigning then assigningFields l rest else Expansion.allFields l rest
  performAll l tested (first ++ more) assigns redirs

/-! ## pipelines and subshells -/

/-- starts the commands of a pipeline, each with its input from the one before it -/
def startPipeline (l : Level) (tested background : Bool) : List Command → Option Nat → Act (List Nat)
  | [], _ => return []
  | c :: rest, input => do
    let pipe ← if rest.isEmpty then pure none else do pure (some (← ask .pipe))
    let pid ← spawn l do
      match pipe with
      | some (out, _) => ask (.close out)
      | none => pure ()
      if background then enterBackground
      match input with
      | some fd => connect fd 0
      | none => pure ()
      match pipe with
      | some (_, in_) => connect in_ 1
      | none => pure ()
      l.run tested c
    match input with
    | some fd => ask (.close fd)
    | none => pure ()
    match pipe with
    | some (out, in_) =>
      ask (.close in_)
      return pid :: (← startPipeline l tested background rest (some out))
    | none => return [pid]

def runInBackground (l : Level) (c : Command) : Act Unit := do
  let pids ← match c with
    | .pipeline cs => startPipeline l false true cs none
    | c => do
      let pid ← spawn l do
        enterBackground
        l.run false c
      pure [pid]
  noteBackground (pids.getLast?.getD 0)

def subshell (l : Level) (tested : Bool) (line : Nat) (c : Command) (redirs : List Redir) :
    Act Unit := do
  modify fun s => { s with line }
  let rs ← Redirection.expand l redirs
  let pid ← spawn l do
    match ← Redirection.apply l false rs [] with
    | (_, some message) => fail message
    | (_, none) => l.run tested c
  foreground [pid]

def redirected (l : Level) (tested : Bool) (line : Nat) (c : Command) (redirs : List Redir) :
    Act Unit := do
  modify fun s => { s with line }
  let rs ← Redirection.expand l redirs
  match ← Redirection.apply l true rs [] with
  | (kept, some message) =>
    complain message
    setStatus 2
    Redirection.restore kept
  | (kept, none) => restoring kept (l.run tested c)

/-! ## loops and choices -/

/-- runs a round of a loop; whether there is another one -/
def round (a : Act Unit) : Act Bool := do
  match ← attempt a with
  | .ok () => return true
  | .error (.nextRound n) => if n ≤ 1 then return true else stop (.nextRound (n - 1))
  | .error (.left n) => if n ≤ 1 then return false else stop (.left (n - 1))
  | .error e => stop e

def inLoop (a : Act Unit) : Act Unit := do
  let loops := (← get).loops
  modify fun s => { s with loops := loops + 1 }
  let r ← attempt a
  modify fun s => { s with loops }
  resume r

/-- the rounds of a loop with a test; `status` is that of the last body -/
def testedRounds (l : Level) (tested until_ : Bool) (test body : Command) : Nat → Nat → Act Unit
  | 0, status => setStatus status
  | fuel + 1, status => do
    if ← round (l.run true test) then
      if ((← get).status == 0) != until_ then
        if ← round (l.run tested body) then
          testedRounds l tested until_ test body fuel (← get).status
      else setStatus status

def eachRound (l : Level) (tested : Bool) (var : String) (body : Command) : List String → Act Unit
  | [] => return
  | v :: vs => do
    assign var v false
    if ← round (l.run tested body) then eachRound l tested var body vs

/-- runs a command that may be missing, which is a success -/
def runOrPass (l : Level) (tested : Bool) : Command → Act Unit
  | .empty => setStatus 0
  | c => l.run tested c

def chooseFrom (l : Level) (tested : Bool) (text : List Char) :
    List (List Word × Command) → Act Unit
  | [] => setStatus 0
  | (patterns, body) :: rest => do
    if ← matchesAny patterns then runOrPass l tested body
    else chooseFrom l tested text rest
where
  matchesAny : List Word → Act Bool
    | [] => return false
    | p :: ps => do
      let bits ← l.expand .front p
      if (Bits.field bits).pattern.fits text then return true else matchesAny ps

/-! ## all commands -/

def command (l : Level) (tested : Bool) (c : Command) : Act Unit := do
  if (← get).options.noExecution then return
  match c with
  | .empty => return
  | .simple line assigns words redirs => do
    simple l tested line assigns words redirs
    answerSignals l
    endOnFailure tested
  | .pipeline cs => do
    foreground (← startPipeline l tested false cs none)
    answerSignals l
    endOnFailure tested
  | .not c => do
    l.run true c
    modify fun s => { s with status := if s.status = 0 then 1 else 0 }
  | .both a b => do
    l.run true a
    if (← get).status = 0 then l.run tested b
  | .either a b => do
    l.run true a
    if (← get).status != 0 then l.run tested b
  | .seq a b => do
    l.run tested a
    l.run tested b
  | .background c => runInBackground l c
  | .subshell line c redirs => do
    subshell l tested line c redirs
    answerSignals l
    endOnFailure tested
  | .redirected line c redirs => redirected l tested line c redirs
  | .cond test then_ else_ => do
    l.run true test
    if (← get).status = 0 then l.run tested then_
    else runOrPass l tested else_
  | .loop until_ test body => inLoop (testedRounds l tested until_ test body rounds 0)
  | .each line var words body => do
    modify fun s => { s with line }
    let fs ← Expansion.allFields l words
    if fs.isEmpty then setStatus 0
    inLoop (eachRound l tested var body fs)
  | .choose line word arms => do
    modify fun s => { s with line }
    let text ← Expansion.text l .front word
    chooseFrom l tested text.toList arms
  | .define name body => do
    modify fun s => { s with functions := s.functions.insert name body, status := 0 }

/-! ## texts -/

/-- runs the lines of a text one by one -/
def runLines (l : Level) : Nat → Source → Act Unit
  | 0, _ => return
  | fuel + 1, before => do
    let s ← get
    match readCommand { before with nextDocument := s.nextDocument, documents := [] } with
    | .error e =>
      modify fun s => { s with line := e.line }
      fail e.message
    | .ok (none, _) => return
    | .ok (some c, after) =>
      modify fun s =>
        { s with
          documents := after.documents ++ s.documents
          nextDocument := after.nextDocument }
      l.run false c
      runLines l fuel after

def runText (l : Level) (text : String) : Act Unit := runLines l rounds (Source.ofText text)

end Evaluation

open Act in
/-- what pieces that nest so deep can ask for -/
def levels (launch : Launch) : Nat → Level
  | 0 => {
      run := fun _ _ => fail "too deep"
      expand := fun _ _ => fail "too deep"
      runText := fun _ => fail "too deep"
      launch }
  | depth + 1 => {
      run := Evaluation.command (levels launch depth)
      expand := Expansion.word (levels launch depth)
      runText := Evaluation.runText (levels launch depth)
      launch }

end IncrementalLint.Shell
