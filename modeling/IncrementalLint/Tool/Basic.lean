import IncrementalLint.Machine.Executable

/-!
# What all tools share

Tools read their options and operands, read files or their input, write their output, and report
faults under their own name.

* `Options.read`     options and operands of a command line;
* `Tool.readInput`   all that a file or the input holds.
-/

namespace IncrementalLint.Tool

/-! ## output -/

def put (fd : Nat) (text : String) : Program (Except FileError Unit) :=
  if text.isEmpty then return .ok () else Program.call (.write fd (Raw.toBytes text))

def putBytes (fd : Nat) (bs : ByteArray) : Program (Except FileError Unit) :=
  if bs.isEmpty then return .ok () else Program.call (.write fd bs)

def report (tool message : String) : Program Unit := do
  let _ ← put 2 (tool ++ ": " ++ message ++ "\n")

def refuse (tool message : String) : Program Nat := do
  report tool message
  return 1

/-- writes all output at once; the status says whether it could be written -/
def finish (tool text : String) (status : Nat) : Program Nat := do
  match ← put 1 text with
  | .ok () => return status
  | .error e => refuse tool ("write error: " ++ e.reason)

/-! ## names in messages -/

def isPlainChar (c : Char) : Bool :=
  c.isAlphanum || ['_', '-', '+', '.', '/', ':', ',', '@', '%'].contains c || c.toNat ≥ 128

/-- a name between quotes -/
def quoted (name : String) : String :=
  if name.toList.contains '\'' && !name.toList.contains '"' then "\"" ++ name ++ "\""
  else "'" ++ Text.replaceAll "'" "'\\''" name ++ "'"

/-- a name that needs quotes between quotes, and any other as it is -/
def shown (name : String) : String :=
  if !name.isEmpty && name.all isPlainChar then name else quoted name

def pathOf (name : String) : Path := ⟨Raw.toText name⟩

/-! ## options -/

/-- the options of a tool: letters, of which some come with an argument, and long names for them -/
structure Options.Form where
  tool : String
  letters : List Char
  withArg : List Char := []
  long : List (String × Char) := []
  /-- the status of a wrong use -/
  wrong : Nat := 1
  /-- whether operands end the options -/
  strict : Bool := false

/-- the options that were given, in order, and the operands -/
structure Options where
  given : List (Char × String) := []
  operands : List String := []

namespace Options

def has (o : Options) (c : Char) : Bool := o.given.any (·.1 == c)

/-- the argument of the last option of a letter -/
def last? (o : Options) (c : Char) : Option String := ((o.given.reverse).find? (·.1 == c)).map (·.2)

/-- letters behind one dash, and the words behind them -/
def readLetters (f : Form) : List Char → List String → Except String (List (Char × String) × List String)
  | [], rest => .ok ([], rest)
  | c :: cs, rest =>
    if f.withArg.contains c then
      if cs.isEmpty then
        match rest with
        | a :: rest => .ok ([(c, a)], rest)
        | [] => .error ("option requires an argument -- '" ++ String.ofList [c] ++ "'")
      else .ok ([(c, String.ofList cs)], rest)
    else if f.letters.contains c then do
      let (os, rest) ← readLetters f cs rest
      return ((c, "") :: os, rest)
    else .error ("invalid option -- '" ++ String.ofList [c] ++ "'")

/-- a long option, which may be cut short, and the words behind it -/
def readLong (f : Form) (word : String) (rest : List String) :
    Except String (List (Char × String) × List String) :=
  let name := String.ofList (word.toList.takeWhile (· != '='))
  let arg? := match word.toList.dropWhile (· != '=') with
    | _ :: a => some (String.ofList a)
    | [] => none
  let hits := f.long.filter fun l => Text.startsWith l.1 name
  match (hits.find? (·.1 == name)).orElse fun _ => hits.head? with
  | none => .error ("unrecognized option '--" ++ word ++ "'")
  | some (long, c) =>
    if f.withArg.contains c then
      match arg?, rest with
      | some a, _ => .ok ([(c, a)], rest)
      | none, a :: rest => .ok ([(c, a)], rest)
      | none, [] => .error ("option '--" ++ long ++ "' requires an argument")
    else
      match arg? with
      | none => .ok ([(c, "")], rest)
      | some _ => .error ("option '--" ++ long ++ "' doesn't allow an argument")

def readFrom (f : Form) : Nat → List String → Except String Options
  | 0, _ => .ok {}
  | _, [] => .ok {}
  | fuel + 1, w :: rest =>
    match w.toList with
    | ['-', '-'] => .ok { operands := rest }
    | '-' :: '-' :: cs => do
      let (os, rest) ← readLong f (String.ofList cs) rest
      let o ← readFrom f fuel rest
      return { o with given := os ++ o.given }
    | '-' :: c :: cs => do
      let (os, rest) ← readLetters f (c :: cs) rest
      let o ← readFrom f fuel rest
      return { o with given := os ++ o.given }
    | _ =>
      if f.strict then .ok { operands := w :: rest }
      else do
        let o ← readFrom f fuel rest
        return { o with operands := w :: o.operands }

def read (f : Form) (args : List String) : Except String Options := readFrom f (args.length + 1) args

end Options

/-- goes on with the options of a command line, or reports a wrong use -/
def withOptions (f : Options.Form) (args : List String) (go : Options → Program Nat) : Program Nat := do
  match Options.read f args with
  | .ok o => go o
  | .error e =>
    report f.tool e
    let _ ← put 2 ("Try '" ++ f.tool ++ " --help' for more information.\n")
    return f.wrong

def missingOperand (tool : String) : Program Nat := do
  report tool "missing operand"
  let _ ← put 2 ("Try '" ++ tool ++ " --help' for more information.\n")
  return 1

/-! ## input -/

/-- more rounds than any loop makes -/
def rounds : Nat := 1000000000

def chunk : Nat := 65536

/-- what is left of a descriptor, last piece first -/
def drainFrom (fd : Nat) : Nat → List ByteArray → Program (Except FileError (List ByteArray))
  | 0, acc => return .ok acc
  | fuel + 1, acc => do
    match ← Program.call (.read fd chunk) with
    | .error e => return .error e
    | .ok bs => if bs.isEmpty then return .ok acc else drainFrom fd fuel (bs :: acc)

def drain (fd : Nat) : Program (Except FileError ByteArray) := do
  match ← drainFrom fd rounds [] with
  | .error e => return .error e
  | .ok pieces => return .ok (pieces.reverse.foldl (· ++ ·) ByteArray.empty)

/-- does something with a descriptor for a file, or for the input if it is called `-` -/
def withInput {α : Type} (name : String) (f : Nat → Program (Except FileError α)) :
    Program (Except FileError α) := do
  if name == "-" then f 0
  else
    match ← Program.call (.openFile (pathOf name) OpenMode.reading) with
    | .error e => return .error e
    | .ok fd =>
      let r ← f fd
      Program.call (.close fd)
      return r

def readInput (name : String) : Program (Except FileError ByteArray) := withInput name drain

def inputs (operands : List String) : List String := if operands.isEmpty then ["-"] else operands

/-- the texts of files, each reported if it cannot be read, and whether all could be -/
def readAll (tool : String) : List String → Program (List (String × String) × Bool)
  | [] => return ([], true)
  | name :: rest => do
    match ← readInput name with
    | .ok bs =>
      let (others, ok) ← readAll tool rest
      return ((name, Raw.ofBytes bs) :: others, ok)
    | .error e =>
      report tool (shown name ++ ": " ++ e.reason)
      let (others, _) ← readAll tool rest
      return (others, false)

/-! ## lines -/

/-- the lines so far, last one first, and the line under construction, last character first -/
def lineStep (acc : List String × List Char) (c : Char) : List String × List Char :=
  if c == '\n' then (String.ofList acc.2.reverse :: acc.1, []) else (acc.1, c :: acc.2)

/-- the lines of a text without their ends -/
def linesOf (text : String) : List String :=
  let (ls, front) := text.foldl lineStep ([], [])
  (if front.isEmpty then ls else String.ofList front.reverse :: ls).reverse

def unlines (ls : List String) : String := Text.joinWith "" (ls.map (· ++ "\n"))

/-! ## changes -/

/-- changes files and reports a fault; the status says whether it worked -/
def attempt (tool front : String) (f : Workspace → Workspace × Except FileError Unit) : Program Nat := do
  match ← Program.change f with
  | .ok () => return 0
  | .error e => refuse tool (front ++ e.reason)

/-- does something for each of some operands; fails if one fails -/
def forEach (f : String → Program Nat) : List String → Program Nat
  | [] => return 0
  | x :: xs => do
    let a ← f x
    let b ← forEach f xs
    return if a = 0 then b else a

end IncrementalLint.Tool
