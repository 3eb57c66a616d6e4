import IncrementalLint.Shell.Arithmetic
import IncrementalLint.Shell.Child
import IncrementalLint.Shell.FileNames

/-!
# Expansion

The parts of a word become characters: texts as they stand, parameters with what is done to their
values, the output of commands, and the values of arithmetic expressions.

* `Expansion.word`     the bits of a word;
* `Expansion.fields`   the fields of a word, split and matched against file names.
-/

namespace IncrementalLint.Shell.Expansion

open Act

/-! ## home directories -/

/-- the home directory of a user; the nameless one is the user of the shell -/
def home? (user : String) : Act (Option String) := do
  if user.isEmpty then setting? "HOME"
  else return if user == "root" then some "/root" else none

/-- a text that may start with a tilde; `closed` says that the user's name ends with the text -/
def tildeBits (closed : Bool) (cs : List Char) : Act Bits := do
  let plain : Bits := Bits.ofText (String.ofList cs) false false
  match cs with
  | '~' :: rest =>
    let user := rest.takeWhile (· != '/')
    let after := rest.dropWhile (· != '/')
    if after.isEmpty && !closed then return plain
    else
      match ← home? (String.ofList user) with
      | some dir => return Bits.ofText dir true false ++ Bits.ofText (String.ofList after) false false
      | none => return plain
  | _ => return plain

/-- the pieces of an assigned text, each of which may start with a tilde -/
def tildePieces (closed : Bool) : List (List Char) → Act Bits
  | [] => return []
  | [p] => tildeBits closed p
  | p :: rest => do
    let bits ← tildeBits true p
    return bits ++ Bits.ofText ":" false false ++ (← tildePieces closed rest)

/-- an unquoted text; `first` and `last` say where in its word it stands -/
def textBits (tilde : Tilde) (first last : Bool) (s : String) : Act Bits := do
  match tilde with
  | .never => return Bits.ofText s false false
  | .front => if first then tildeBits last s.toList else return Bits.ofText s false false
  | .assignment =>
    match Chars.splitAt (· == ':') s.toList with
    | [] => return []
    | p :: rest =>
      if first then tildePieces last (p :: rest)
      else if rest.isEmpty then return Bits.ofText s false false
      else
        return Bits.ofText (String.ofList p) false false ++ Bits.ofText ":" false false ++
          (← tildePieces last rest)

/-! ## parameters -/

def optionLetters (o : Options) : String :=
  let letters := [(o.endOnFailure, 'e'), (o.noFileNames, 'f'), (o.noExecution, 'n'), (o.trace, 'x'),
    (o.echoInput, 'v'), (o.noClobber, 'C'), (o.exportAll, 'a'), (o.refuseUnset, 'u')]
  String.ofList ((letters.filter (·.1)).map (·.2))

/-- what stands between the parameters in one text -/
def joint : Act String := do
  match ← setting? "IFS" with
  | none => return " "
  | some s => return String.ofList (s.toList.take 1)

def parameter? (name : String) : Act (Option String) := do
  let s ← get
  match name with
  | "#" => return some (toString s.params.length)
  | "?" => return some (toString s.status)
  | "$" => return some (toString s.pid)
  | "!" => return s.lastBackground.map toString
  | "-" => return some (optionLetters s.options)
  | "@" => return some (Text.joinWith " " s.params)
  | "*" => do
    let between ← joint
    return some (Text.joinWith between s.params)
  | name =>
    match name.toNat? with
    | some 0 => return some s.name
    | some n => return s.params[n - 1]?
    | none => setting? name

/-- the values of all parameters, each a field of its own -/
def allParameters (quoted : Bool) (params : List String) : Bits :=
  List.intercalate [Bit.cut] (params.map fun p => Bits.ofText p quoted (!quoted))

/-- the value of a parameter as bits, if it is set -/
def parameterBits? (name : String) (quoted : Bool) : Act (Option Bits) := do
  let s ← get
  if name == "@" || (name == "*" && !quoted) then
    return some (allParameters quoted s.params)
  else return (← parameter? name).map fun v => Bits.ofText v quoted (!quoted)

/-- nothing, which leaves an empty field if it was quoted -/
def emptyBits (quoted : Bool) : Bits := if quoted then [.mark] else []

def isAll (name : String) : Bool := name == "@" || name == "*"

/-- complains about a parameter that is not set, if such are refused -/
def refuse (name : String) : Act Unit := do
  if (← get).options.refuseUnset && !isAll name then fail (name ++ ": parameter not set")

/-- bits of the word behind an operator: an expansion made them -/
def asExpanded (quoted : Bool) (bs : Bits) : Bits :=
  if quoted then (if bs.isEmpty then [.mark] else bs)
  else bs.map fun
    | .glyph g => .glyph { g with expanded := !g.quoted }
    | b => b

def modified (l : Level) (name : String) (kind : ParamKind) (colon quoted : Bool) (w : Word) :
    Act Bits := do
  let tilde : Tilde := if quoted then .never else .front
  let value ← parameter? name
  let usable := value.any fun v => !(colon && v.isEmpty)
  let plain : Act Bits := do
    let bits := (← parameterBits? name quoted).getD []
    return if bits.isEmpty then emptyBits quoted else bits
  match kind with
  | .default => if usable then plain else return asExpanded quoted (← l.expand tilde w)
  | .alternative =>
    if usable then return asExpanded quoted (← l.expand tilde w)
    else return emptyBits (quoted && name != "@")
  | .assign =>
    if usable then plain
    else
      let text := Bits.text (← l.expand tilde w)
      if !isName name then fail (name ++ ": bad variable name")
      assign name text false
      return Bits.ofText text quoted (!quoted)
  | .error =>
    if usable then plain
    else if w.isEmpty then
      fail (name ++ ": parameter not set" ++ (if colon then " or null" else ""))
    else fail (name ++ ": " ++ Bits.text (← l.expand tilde w))
  | .dropSuffix long => do
    if value.isNone then refuse name
    let p := (Bits.field (← l.expand .front w)).pattern
    let text := String.ofList (p.dropEnd long (value.getD "").toList)
    return Bits.ofText text quoted (!quoted)
  | .dropFront long => do
    if value.isNone then refuse name
    let p := (Bits.field (← l.expand .front w)).pattern
    let text := String.ofList (p.dropFront long (value.getD "").toList)
    return Bits.ofText text quoted (!quoted)

/-! ## parts -/

def arithmetic (l : Level) (w : Word) (quoted : Bool) : Act Bits := do
  let text := Bits.text (← l.expand .never w)
  let s ← get
  match Arithmetic.evaluate (fun n => ((s.vars.get? n).bind (·.value)).getD "") text with
  | .error e => fail (e.message text)
  | .ok (v, sets) =>
    for (name, n) in sets do assign name (toString n.toInt) false
    return Bits.ofText (toString v.toInt) quoted (!quoted)

def part (l : Level) (tilde : Tilde) (first last : Bool) : Part → Act Bits
  | .text s true => return Bits.ofText s true false
  | .text s false => textBits tilde first last s
  | .param name .plain quoted => do
    match ← parameterBits? name quoted with
    | some bs => return bs
    | none =>
      refuse name
      return emptyBits (quoted && name != "@")
  | .param name .length quoted => do
    let value ← parameter? name
    if value.isNone then refuse name
    return Bits.ofText (toString (value.getD "").length) quoted (!quoted)
  | .param _ .bad _ => fail "Bad substitution"
  | .param name (.modified kind colon w) quoted => modified l name kind colon quoted w
  | .command c quoted => do
    let text ← capture l (l.run false c)
    return Bits.ofText text quoted (!quoted)
  | .arith w quoted => arithmetic l w quoted

def parts (l : Level) (tilde : Tilde) (first : Bool) : List Part → Act Bits
  | [] => return []
  | p :: rest => do
    let bits ← part l tilde first rest.isEmpty p
    return bits ++ (← parts l tilde false rest)

def word (l : Level) (tilde : Tilde) (w : Word) : Act Bits := parts l tilde true w

/-! ## fields -/

def fields (l : Level) (w : Word) : Act (List String) := do
  let bits ← l.expand .front w
  let fs := bits.split (← separators)
  if (← get).options.noFileNames || !fs.any FileNames.isPattern then return fs.map Field.text
  else
    let files : Workspace ← ask .files
    return fs.flatMap fun f => if FileNames.isPattern f then FileNames.matching files f else [f.text]

def allFields (l : Level) : List Word → Act (List String)
  | [] => return []
  | w :: ws => do
    let front ← fields l w
    return front ++ (← allFields l ws)

def text (l : Level) (tilde : Tilde) (w : Word) : Act String := do
  return Bits.text (← l.expand tilde w)

end IncrementalLint.Shell.Expansion
