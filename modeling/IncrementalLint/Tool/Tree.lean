import IncrementalLint.Tool.Basic

/-!
# Files and directories

Tools that list, make, copy, move and remove files and directories.

* `Tool.ls`, `Tool.mkdir`, `Tool.rmdir`, `Tool.rm`, `Tool.cp`, `Tool.mv`, `Tool.ln`, `Tool.touch`,
  `Tool.chmod`, `Tool.readlink`, `Tool.realpath`
-/

namespace IncrementalLint.Tool

/-! ## names -/

def baseName (s : String) : String :=
  let cs := s.toList
  let body := (cs.reverse.dropWhile (· == '/'))
  if body.isEmpty then (if cs.isEmpty then "" else "/")
  else String.ofList (body.takeWhile (· != '/')).reverse

def dirName (s : String) : String :=
  let cs := s.toList
  let body := cs.reverse.dropWhile (· == '/')
  let up := (body.dropWhile (· != '/')).dropWhile (· == '/')
  if !up.isEmpty then String.ofList up.reverse
  else if cs.head? == some '/' then "/"
  else "."

def inDir (dir name : String) : String :=
  if Text.endsWith dir "/" then dir ++ name else dir ++ "/" ++ name

/-- a node, a link not followed -/
def lookAt (w : Workspace) (name : String) : Except FileError (Location × Node) :=
  match w.locate (pathOf name) false with
  | .error e => .error e
  | .ok (.found l n) => .ok (l, n)
  | .ok (.free _ _) => .error .notFound

/-! ## listing -/

/-- the mark behind a name that says what it is -/
def typeMark (o : Options) (n : Node) : String :=
  match n with
  | .directory _ => if o.has 'F' || o.has 'p' then "/" else ""
  | .link _ => if o.has 'F' then "@" else ""
  | .file _ _ true => if o.has 'F' then "*" else ""
  | _ => ""

def sorted (names : List String) : List String := names.mergeSort fun a b => a ≤ b

def ordered (o : Options) (names : List String) : List String :=
  if o.has 'r' then (sorted names).reverse else sorted names

def nodeMark (w : Workspace) (o : Options) (name : String) : String :=
  match lookAt w name with
  | .ok (_, n) => typeMark o n
  | .error _ => ""

def entries (w : Workspace) (o : Options) (l : Location) : List String :=
  let names := (w.children l).map Raw.ofText
  let own := if o.has 'a' then [".", ".."] else []
  let shown := names.filter fun n => o.has 'a' || o.has 'A' || !Text.startsWith n "."
  ordered o (own ++ shown)

/-- the listing of a directory, and of those below it if asked for -/
def listDir (w : Workspace) (o : Options) (headings : Bool) : Nat → String → List String
  | 0, _ => []
  | fuel + 1, name =>
    match w.find (pathOf name) with
    | .ok (l, .directory _) =>
      let es := entries w o l
      let lines := es.map fun e => e ++ nodeMark w o (inDir name e) ++ "\n"
      let block := (if headings then name ++ ":\n" else "") ++ Text.joinWith "" lines
      let below := if o.has 'R' then
          es.flatMap fun e =>
            if e == "." || e == ".." then []
            else
              match lookAt w (inDir name e) with
              | .ok (_, .directory _) => listDir w o headings fuel (inDir name e)
              | _ => []
        else []
      block :: below
    | _ => []

def ls (args : List String) : Program Nat :=
  withOptions {
    tool := "ls"
    letters := ['1', 'a', 'A', 'd', 'F', 'p', 'r', 'R', 'C', 'x', 'U', 't', 'S', 'n', 'h', 'i', 'q']
    long := [("all", 'a'), ("almost-all", 'A'), ("directory", 'd'), ("reverse", 'r'),
      ("recursive", 'R'), ("classify", 'F')]
    wrong := 2 } args fun o => do
    let w ← Program.files
    let names := ordered o (if o.operands.isEmpty then ["."] else o.operands)
    let isThere (n : String) : Except FileError Node :=
      match w.find (pathOf n) with
      | .ok (_, node) => .ok node
      | .error e =>
        match lookAt w n with
        | .ok (_, node) => .ok node
        | .error _ => .error e
    let mut status := 0
    for n in names do
      match isThere n with
      | .error e =>
        report "ls" ("cannot access " ++ quoted n ++ ": " ++ e.reason)
        status := 2
      | .ok _ => pure ()
    let isDir (n : String) : Bool :=
      match isThere n with
      | .ok node => node.isDirectory && !o.has 'd'
      | .error _ => false
    let files := names.filter fun n => (isThere n).isOk && !isDir n
    let dirs := names.filter isDir
    let top := Text.joinWith "" (files.map fun n => n ++ nodeMark w o n ++ "\n")
    let headings := names.length > 1 || o.has 'R'
    let blocks := dirs.flatMap (listDir w o headings 200)
    finish "ls" (Text.joinWith "\n" ((if files.isEmpty then [] else [top]) ++ blocks)) status

/-! ## making directories -/

/-- the paths of a directory and of those above it, from the top -/
def upward (name : String) : List String :=
  let pieces := (Chars.splitAt (· == '/') name.toList).map String.ofList
  let starts := (List.range pieces.length).map fun i => Text.joinWith "/" (pieces.take (i + 1))
  starts.filter fun s => s != "" && !Text.endsWith s "/"

def cannotMake (name : String) (e : FileError) : Program Nat :=
  refuse "mkdir" ("cannot create directory " ++ quoted name ++ ": " ++ e.reason)

/-- makes the directories of a path that are missing -/
def makeAll (verbose : Bool) : List String → Program Nat
  | [] => return 0
  | name :: rest => do
    match ← Program.change (·.createDirectory (pathOf name)) with
    | .ok () =>
      if verbose then
        let _ ← put 1 ("mkdir: created directory " ++ quoted name ++ "\n")
      makeAll verbose rest
    | .error e =>
      let w ← Program.files
      if w.isDirectory (pathOf name) then makeAll verbose rest
      else if e == .alreadyExists && !rest.isEmpty then cannotMake name .notDirectory
      else cannotMake name e

def mkdir (args : List String) : Program Nat :=
  withOptions {
    tool := "mkdir"
    letters := ['p', 'v']
    withArg := ['m']
    long := [("parents", 'p'), ("verbose", 'v'), ("mode", 'm')] } args fun o => do
    if o.operands.isEmpty then missingOperand "mkdir"
    else
      forEach (fun name => do
        if o.has 'p' && !name.isEmpty then makeAll (o.has 'v') (upward name)
        else
          match ← Program.change (·.createDirectory (pathOf name)) with
          | .ok () =>
            if o.has 'v' then
              let _ ← put 1 ("mkdir: created directory " ++ quoted name ++ "\n")
            return 0
          | .error e => cannotMake name e) o.operands

def removeDirs (verbose : Bool) : List String → Program Nat
  | [] => return 0
  | name :: rest => do
    if verbose then
      let _ ← put 1 ("rmdir: removing directory, " ++ quoted name ++ "\n")
    match ← Program.change (·.removeDirectory (pathOf name)) with
    | .ok () => removeDirs verbose rest
    | .error e => refuse "rmdir" ("failed to remove " ++ quoted name ++ ": " ++ e.reason)

def rmdir (args : List String) : Program Nat :=
  withOptions {
    tool := "rmdir"
    letters := ['p', 'v']
    long := [("parents", 'p'), ("verbose", 'v')] } args fun o => do
    if o.operands.isEmpty then missingOperand "rmdir"
    else
      forEach (fun name =>
        removeDirs (o.has 'v') (if o.has 'p' then (upward name).reverse else [name])) o.operands

/-! ## removing -/

def isDots (name : String) : Bool := baseName name == "." || baseName name == ".."

def removeOne (o : Options) (name : String) : Program Nat := do
  let w ← Program.files
  let recursive := o.has 'r' || o.has 'R'
  let say : Program Unit := do
    if o.has 'v' then
      let _ ← put 1 ("removed " ++ quoted name ++ "\n")
  let fault (e : FileError) : Program Nat := refuse "rm" ("cannot remove " ++ quoted name ++ ": " ++ e.reason)
  match lookAt w name with
  | .error e => if o.has 'f' && (e == .notFound || e == .notDirectory) then return 0 else fault e
  | .ok (l, .directory _) =>
    if recursive then
      if l.isEmpty then do
        report "rm" "it is dangerous to operate recursively on '/'"
        refuse "rm" "use --no-preserve-root to override this failsafe"
      else if isDots name then
        refuse "rm" ("refusing to remove '.' or '..' directory: skipping " ++ quoted name)
      else do
        let _ ← Program.change fun w => (w.removeTree l, .ok ())
        say
        return 0
    else if o.has 'd' then do
      match ← Program.change (·.removeDirectory (pathOf name)) with
      | .ok () =>
        say
        return 0
      | .error e => fault e
    else fault .isDirectory
  | .ok _ => do
    match ← Program.change (·.unlink (pathOf name)) with
    | .ok () =>
      say
      return 0
    | .error e => fault e

def rm (args : List String) : Program Nat :=
  withOptions {
    tool := "rm"
    letters := ['r', 'R', 'f', 'd', 'v', 'i', 'I']
    long := [("recursive", 'r'), ("force", 'f'), ("dir", 'd'), ("verbose", 'v')] } args fun o => do
    if o.operands.isEmpty && !o.has 'f' then missingOperand "rm"
    else forEach (removeOne o) o.operands

/-! ## copying and moving -/

def isDir (w : Workspace) (name : String) : Bool := w.isDirectory (pathOf name)

/-- copies a node to a place, with all that lies below it -/
def copyTree (w : Workspace) (l dest : Location) : Workspace :=
  let copies := (w.nodes.toList.filter fun e => l.isPrefixOf e.1).map fun e =>
    (dest ++ e.1.drop l.length, e.2.touch w.clock)
  ((copies.foldl (fun w e => w.put e.1 e.2) w).touchParent dest).tick

def copyOne (o : Options) (source target : String) : Program Nat := do
  let w ← Program.files
  let recursive := o.has 'r' || o.has 'R' || o.has 'a'
  match w.find (pathOf source) with
  | .error e => refuse "cp" ("cannot stat " ++ quoted source ++ ": " ++ e.reason)
  | .ok (l, node) =>
    let target := if isDir w target then inDir target (baseName source) else target
    match w.locate (pathOf target) true with
    | .error e => refuse "cp" ("cannot create regular file " ++ quoted target ++ ": " ++ e.reason)
    | .ok place =>
      let (there, taken) := match place with
        | .found m _ => (m, true)
        | .free m _ => (m, false)
      if there == l then
        refuse "cp" (quoted source ++ " and " ++ quoted target ++ " are the same file")
      else
        match node with
        | .directory _ =>
          if !recursive then refuse "cp" ("-r not specified; omitting directory " ++ quoted source)
          else if l.isPrefixOf there then
            refuse "cp" ("cannot copy a directory, " ++ quoted source ++ ", into itself, " ++ quoted target)
          else attempt "cp" "" fun w => (copyTree w l there, .ok ())
        | _ =>
          let content := match node with
            | .file c _ _ => c
            | _ => ByteArray.empty
          let executable := match node with
            | .file _ _ x => x
            | _ => false
          match ← Program.change (·.write (pathOf target) content) with
          | .error e => refuse "cp" ("cannot create regular file " ++ quoted target ++ ": " ++ e.reason)
          | .ok () =>
            if !taken then
              let _ ← Program.change (·.setExecutable (pathOf target) fun _ => executable)
            if o.has 'p' || o.has 'a' then
              let _ ← Program.change (·.setModified (pathOf target) node.modified)
            return 0

def moveOne (o : Options) (source target : String) : Program Nat := do
  let w ← Program.files
  match lookAt w source with
  | .error e => refuse "mv" ("cannot stat " ++ quoted source ++ ": " ++ e.reason)
  | .ok (l, node) =>
    let target := if isDir w target then inDir target (baseName source) else target
    let cannot (e : FileError) : Program Nat :=
      refuse "mv" ("cannot move " ++ quoted source ++ " to " ++ quoted target ++ ": " ++ e.reason)
    match w.locate (pathOf target) false with
    | .error e => cannot e
    | .ok (.free dest _) =>
      if l.isPrefixOf dest then
        refuse "mv" ("cannot move " ++ quoted source ++ " to a subdirectory of itself, " ++ quoted target)
      else attempt "mv" "" fun w => (w.moveTree l dest, .ok ())
    | .ok (.found dest old) =>
      if dest == l then refuse "mv" (quoted source ++ " and " ++ quoted target ++ " are the same file")
      else if o.has 'n' then return 0
      else if old.isDirectory && !node.isDirectory then
        refuse "mv" ("cannot overwrite directory " ++ quoted target ++ " with non-directory")
      else if !old.isDirectory && node.isDirectory then
        refuse "mv" ("cannot overwrite non-directory " ++ quoted target ++ " with directory " ++ quoted source)
      else if old.isDirectory && !(w.below dest).isEmpty then cannot .notEmpty
      else attempt "mv" "" fun w => (w.moveTree l dest, .ok ())

/-- gives sources one by one to a target, which is a directory if there are several -/
def toTarget (tool : String) (one : String → String → Program Nat) (operands : List String) :
    Program Nat := do
  match operands with
  | [] =>
    report tool "missing file operand"
    let _ ← put 2 ("Try '" ++ tool ++ " --help' for more information.\n")
    return 1
  | [a] =>
    report tool ("missing destination file operand after " ++ quoted a)
    let _ ← put 2 ("Try '" ++ tool ++ " --help' for more information.\n")
    return 1
  | [a, b] => one a b
  | _ =>
    let w ← Program.files
    let target := operands.getLastD ""
    match w.find (pathOf target) with
    | .ok (_, .directory _) => forEach (fun s => one s target) operands.dropLast
    | .ok _ => refuse tool ("target " ++ quoted target ++ ": " ++ FileError.notDirectory.reason)
    | .error e => refuse tool ("target " ++ quoted target ++ ": " ++ e.reason)

def cp (args : List String) : Program Nat :=
  withOptions {
    tool := "cp"
    letters := ['r', 'R', 'a', 'p', 'f', 'n', 'i', 'v', 'd', 'P', 'L']
    long := [("recursive", 'r'), ("archive", 'a'), ("force", 'f')] } args fun o =>
    toTarget "cp" (copyOne o) o.operands

def mv (args : List String) : Program Nat :=
  withOptions { tool := "mv", letters := ['f', 'n', 'i', 'v'], long := [("force", 'f')] } args fun o =>
    toTarget "mv" (moveOne o) o.operands

/-! ## links -/

def linkOne (o : Options) (source target : String) : Program Nat := do
  let w ← Program.files
  let target := if isDir w target then inDir target (baseName source) else target
  let kind := if o.has 's' then "symbolic" else "hard"
  let fault (e : FileError) : Program Nat :=
    refuse "ln" ("failed to create " ++ kind ++ " link " ++ quoted target ++
      (if o.has 's' || e == .alreadyExists then "" else " => " ++ quoted source) ++ ": " ++ e.reason)
  if o.has 'f' then
    let _ ← Program.change (·.unlink (pathOf target))
  if o.has 's' then
    match ← Program.change (·.link (pathOf target) (Raw.toText source)) with
    | .ok () => return 0
    | .error e => fault e
  else
    match w.find (pathOf source) with
    | .error e => refuse "ln" ("failed to access " ++ quoted source ++ ": " ++ e.reason)
    | .ok (_, .directory _) => refuse "ln" (quoted source ++ ": hard link not allowed for directory")
    | .ok (_, node) =>
      let w ← Program.files
      match w.locate (pathOf target) false with
      | .error e => fault e
      | .ok (.found _ _) => fault .alreadyExists
      | .ok (.free dest _) => attempt "ln" "" fun w => (w.add dest node, .ok ())

def ln (args : List String) : Program Nat :=
  withOptions {
    tool := "ln"
    letters := ['s', 'f', 'n', 'v', 'T']
    long := [("symbolic", 's'), ("force", 'f')] } args fun o =>
    match o.operands with
    | [a] => linkOne o a (baseName a)
    | os => toTarget "ln" (linkOne o) os

def readlink (args : List String) : Program Nat :=
  withOptions { tool := "readlink", letters := ['f', 'n', 'e', 'm'] } args fun o => do
    if o.operands.isEmpty then missingOperand "readlink"
    else
      let w ← Program.files
      forEach (fun name => do
        let line := if o.has 'n' then "" else "\n"
        if o.has 'f' || o.has 'e' || o.has 'm' then
          match w.locate (pathOf name) true with
          | .ok (.found l _) => finish "readlink" (Raw.ofText (Workspace.pathOf l).text ++ line) 0
          | .ok (.free l _) =>
            if o.has 'e' then return 1 else finish "readlink" (Raw.ofText (Workspace.pathOf l).text ++ line) 0
          | .error _ => return 1
        else
          match lookAt w name with
          | .ok (_, .link target) => finish "readlink" (Raw.ofText target ++ line) 0
          | _ => return 1) o.operands

def realpath (args : List String) : Program Nat :=
  withOptions { tool := "realpath", letters := ['e', 'm', 's', 'q'] } args fun o => do
    if o.operands.isEmpty then missingOperand "realpath"
    else
      let w ← Program.files
      forEach (fun name => do
        match w.locate (pathOf name) true with
        | .ok (.found l _) => finish "realpath" (Raw.ofText (Workspace.pathOf l).text ++ "\n") 0
        | .ok (.free l _) => finish "realpath" (Raw.ofText (Workspace.pathOf l).text ++ "\n") 0
        | .error e => refuse "realpath" (shown name ++ ": " ++ e.reason)) o.operands

/-! ## times and rights -/

def touch (args : List String) : Program Nat :=
  withOptions {
    tool := "touch"
    letters := ['c', 'a', 'm', 'h', 'f']
    withArg := ['d', 't', 'r']
    long := [("no-create", 'c'), ("reference", 'r'), ("date", 'd')] } args fun o => do
    if o.operands.isEmpty then
      report "touch" "missing file operand"
      let _ ← put 2 "Try 'touch --help' for more information.\n"
      return 1
    else
      forEach (fun name => do
        let w ← Program.files
        let time := match o.last? 'r' with
          | some r => ((w.modified (pathOf r)).toOption).getD w.clock
          | none => w.clock
        match w.find (pathOf name) with
        | .ok _ => attempt "touch" "" (·.setModified (pathOf name) time)
        | .error e =>
          if o.has 'c' && e == .notFound then return 0
          else
            attempt "touch" ("cannot touch " ++ quoted name ++ ": ") fun w =>
              match w.write (pathOf name) ByteArray.empty with
              | (w, .ok ()) => w.setModified (pathOf name) time
              | r => r) o.operands

/-- what a mode says about running a file -/
def modeChange? (mode : String) : Option (Bool → Bool) :=
  if !mode.isEmpty && mode.all Char.isDigit then
    mode.toList.getLast?.map fun _ => fun _ => mode.toList.any fun c => (c.toNat - 48) % 2 == 1
  else
    let cs := mode.toList.dropWhile fun c => ['u', 'g', 'o', 'a'].contains c
    match cs with
    | '+' :: more => some fun x => x || more.contains 'x'
    | '-' :: more => some fun x => x && !more.contains 'x'
    | '=' :: more => some fun _ => more.contains 'x'
    | _ => none

def chmod (args : List String) : Program Nat := do
  match args.filter fun a => !(["-R", "-f", "-v", "--"].contains a) with
  | [] => missingOperand "chmod"
  | mode :: names =>
    match modeChange? mode with
    | none =>
      report "chmod" ("invalid mode: " ++ quoted mode)
      let _ ← put 2 "Try 'chmod --help' for more information.\n"
      return 1
    | some f =>
      if names.isEmpty then
        report "chmod" ("missing operand after " ++ quoted mode)
        let _ ← put 2 "Try 'chmod --help' for more information.\n"
        return 1
      else
        forEach (fun name =>
          attempt "chmod" ("cannot access " ++ quoted name ++ ": ") (·.setExecutable (pathOf name) f)) names

end IncrementalLint.Tool
