import IncrementalLint.Shell.Command

/-!
# Arithmetic

Expressions over 64-bit integers, with variables, assignments, conditions and the usual operators.
An expression is evaluated while it is read; what a condition leaves out is read without effect.

* `Arithmetic.number?`   the integer that a text writes;
* `Arithmetic.evaluate`  the value of an expression and the variables it set.
-/

namespace IncrementalLint.Shell.Arithmetic

/-! ## numbers -/

def digitValue? (c : Char) : Option Nat :=
  if c.isDigit then some (c.toNat - 48)
  else if 'a' ≤ c && c ≤ 'z' then some (c.toNat - 87)
  else if 'A' ≤ c && c ≤ 'Z' then some (c.toNat - 55)
  else none

def digitBelow? (base : Nat) (c : Char) : Option Nat := (digitValue? c).filter (· < base)

/-- the digits at the front of a text, their value, and what follows -/
def takeDigits (base : Nat) : Nat → List Char → Nat × List Char
  | acc, [] => (acc, [])
  | acc, c :: cs =>
    match digitBelow? base c with
    | some d => takeDigits base (acc * base + d) cs
    | none => (acc, c :: cs)

/-- a number in one of the three bases at the front of a text, and what follows -/
def takeNumber (cs : List Char) : Nat × List Char :=
  match cs with
  | '0' :: x :: d :: rest =>
    if (x == 'x' || x == 'X') && (digitBelow? 16 d).isSome then takeDigits 16 0 (d :: rest)
    else takeDigits 8 0 cs
  | '0' :: _ => takeDigits 8 0 cs
  | _ => takeDigits 10 0 cs

def largest : Int := 9223372036854775807

def isSpace (c : Char) : Bool := c == ' ' || (9 ≤ c.toNat && c.toNat ≤ 13)

/-- the sign at the front of a text -/
def takeSign : List Char → Bool × List Char
  | '-' :: cs => (true, cs)
  | '+' :: cs => (false, cs)
  | cs => (false, cs)

/-- the integer that a text writes, in decimal or, if asked for, in any of the three bases; the
empty text counts as zero in the second case -/
def number? (anyBase : Bool) (s : String) : Option Int :=
  let (negative, cs) := takeSign (s.toList.dropWhile isSpace)
  let starts := (cs.head?.map Char.isDigit).getD false
  let (n, rest) :=
    if !starts then (0, s.toList) else if anyBase then takeNumber cs else takeDigits 10 0 cs
  let v : Int := if negative then -n else n
  if !starts && !anyBase then none
  else if rest.any (!isSpace ·) then none
  else if v > largest || v < -largest - 1 then none
  else some v

/-! ## tokens -/

inductive Binary where
  | mul | div | rem | add | sub | shiftLeft | shiftRight | lt | le | gt | ge | eq | ne
  | bitAnd | bitXor | bitOr
  deriving DecidableEq

inductive Token where
  | number (n : Int64)
  | name (s : String)
  | op (b : Binary)
  | assign (b : Option Binary)
  | not | complement | and | or | question | colon | open_ | close | unknown
  deriving DecidableEq

def operators : List (String × Token) := [
  ("<<=", .assign (some .shiftLeft)), (">>=", .assign (some .shiftRight)),
  ("*=", .assign (some .mul)), ("/=", .assign (some .div)), ("%=", .assign (some .rem)),
  ("+=", .assign (some .add)), ("-=", .assign (some .sub)), ("&=", .assign (some .bitAnd)),
  ("^=", .assign (some .bitXor)), ("|=", .assign (some .bitOr)),
  ("<<", .op .shiftLeft), (">>", .op .shiftRight), ("<=", .op .le), (">=", .op .ge),
  ("==", .op .eq), ("!=", .op .ne), ("&&", .and), ("||", .or),
  ("*", .op .mul), ("/", .op .div), ("%", .op .rem), ("+", .op .add), ("-", .op .sub),
  ("<", .op .lt), (">", .op .gt), ("&", .op .bitAnd), ("^", .op .bitXor), ("|", .op .bitOr),
  ("=", .assign none), ("!", .not), ("~", .complement), ("?", .question), (":", .colon),
  ("(", .open_), (")", .close)]

/-- the operator at the front of a text, and its length -/
def operator? (cs : List Char) : Option (Token × Nat) :=
  (operators.find? fun o => o.1.toList.isPrefixOf cs).map fun o => (o.2, o.1.length)

def tokensFrom : Nat → List Char → List Token
  | 0, _ => []
  | _, [] => []
  | fuel + 1, c :: cs =>
    if isSpace c then tokensFrom fuel cs
    else if c.isDigit then
      let (n, rest) := takeNumber (c :: cs)
      .number (Int64.ofInt (min n largest)) :: tokensFrom fuel rest
    else if isNameStart c then
      .name (String.ofList ((c :: cs).takeWhile isNameChar)) ::
        tokensFrom fuel ((c :: cs).dropWhile isNameChar)
    else
      match operator? (c :: cs) with
      | some (t, n) => t :: tokensFrom fuel ((c :: cs).drop n)
      | none => .unknown :: tokensFrom fuel cs

def tokens (s : String) : List Token := tokensFrom (s.length + 1) s.toList

/-! ## evaluation -/

inductive Fault where
  | divisionByZero
  | missingOperand
  | missingColon
  | missingClose
  | leftover
  | notANumber (text : String)
  deriving DecidableEq

def Fault.message (expression : String) : Fault → String
  | notANumber t => "Illegal number: " ++ t
  | divisionByZero => about "division by zero"
  | missingOperand => about "expecting primary"
  | missingColon => about "expecting ':'"
  | missingClose => about "expecting ')'"
  | leftover => about "expecting EOF"
where
  about (what : String) : String := "arithmetic expression: " ++ what ++ ": \"" ++ expression ++ "\""

structure Progress where
  rest : List Token
  value : String → String
  /-- the variables set so far, last one first -/
  sets : List (String × Int64) := []

abbrev Eval := StateT Progress (Except Fault)

def ofBool (b : Bool) : Int64 := if b then 1 else 0

def apply (b : Binary) (x y : Int64) : Except Fault Int64 :=
  match b with
  | .mul => .ok (x * y)
  | .div => if y == 0 then .error .divisionByZero else .ok (x / y)
  | .rem => if y == 0 then .error .divisionByZero else .ok (x % y)
  | .add => .ok (x + y)
  | .sub => .ok (x - y)
  | .shiftLeft => .ok (x <<< y)
  | .shiftRight => .ok (x >>> y)
  | .lt => .ok (ofBool (x < y))
  | .le => .ok (ofBool (x ≤ y))
  | .gt => .ok (ofBool (x > y))
  | .ge => .ok (ofBool (x ≥ y))
  | .eq => .ok (ofBool (x == y))
  | .ne => .ok (ofBool (x != y))
  | .bitAnd => .ok (x &&& y)
  | .bitXor => .ok (x ^^^ y)
  | .bitOr => .ok (x ||| y)

/-- how tightly an operator binds; zero binds tightest -/
def rank : Binary → Nat
  | .mul | .div | .rem => 0
  | .add | .sub => 1
  | .shiftLeft | .shiftRight => 2
  | .lt | .le | .gt | .ge => 3
  | .eq | .ne => 4
  | .bitAnd => 5
  | .bitXor => 6
  | .bitOr => 7

def peek : Eval (Option Token) := do return (← get).rest.head?

def advance : Eval Unit := modify fun p => { p with rest := p.rest.tail }

def variable_ (name : String) : Eval Int64 := do
  let p ← get
  match p.sets.lookup name with
  | some v => return v
  | none =>
    let text := p.value name
    match number? true text with
    | some n => return Int64.ofInt n
    | none => throw (.notANumber text)

def setVariable (name : String) (v : Int64) : Eval Unit :=
  modify fun p => { p with sets := (name, v) :: p.sets }

/-- readers of what a level of the grammar holds -/
structure Levels where
  assignment : Bool → Eval Int64
  operand : Bool → Eval Int64

/-- an operand; with `skip`, without effect -/
def operand (l : Levels) (skip : Bool) : Eval Int64 := do
  match ← peek with
  | some (.number n) =>
    advance
    return n
  | some (.name s) =>
    advance
    if skip then return 0 else variable_ s
  | some .open_ =>
    advance
    let v ← l.assignment skip
    if (← peek) == some .close then
      advance
      return v
    else throw .missingClose
  | some (.op .add) =>
    advance
    l.operand skip
  | some (.op .sub) =>
    advance
    return -(← l.operand skip)
  | some .not =>
    advance
    return ofBool ((← l.operand skip) == 0)
  | some .complement =>
    advance
    return ~~~(← l.operand skip)
  | _ => throw .missingOperand

/-- operators that bind as tightly as `r` or more tightly, behind their first operand -/
def operatorsFrom (l : Levels) (skip : Bool) : Nat → Nat → Int64 → Eval Int64
  | 0, _, x => return x
  | fuel + 1, r, x => do
    match ← peek with
    | some (.op b) =>
      if rank b ≤ r then do
        advance
        let y ← l.operand skip
        let y ← if rank b = 0 then pure y else operatorsFrom l skip fuel (rank b - 1) y
        let v ← if skip then pure 0 else (apply b x y : Except Fault Int64)
        operatorsFrom l skip fuel r v
      else return x
    | _ => return x

def binaries (l : Levels) (skip : Bool) : Eval Int64 := do
  let fuel := (← get).rest.length + 1
  operatorsFrom l skip fuel 7 (← l.operand skip)

def conjunction (l : Levels) (skip : Bool) : Nat → Eval Int64
  | 0 => throw .missingOperand
  | fuel + 1 => do
    let x ← binaries l skip
    if (← peek) == some .and then
      advance
      let y ← conjunction l (skip || x == 0) fuel
      return ofBool (x != 0 && y != 0)
    else return x

def disjunction (l : Levels) (skip : Bool) : Nat → Eval Int64
  | 0 => throw .missingOperand
  | fuel + 1 => do
    let x ← conjunction l skip fuel
    if (← peek) == some .or then
      advance
      let y ← disjunction l (skip || x != 0) fuel
      return ofBool (x != 0 || y != 0)
    else return x

def conditional (l : Levels) (skip : Bool) : Nat → Eval Int64
  | 0 => throw .missingOperand
  | fuel + 1 => do
    let a ← disjunction l skip fuel
    if (← peek) == some .question then
      advance
      let b ← l.assignment (skip || a == 0)
      if (← peek) == some .colon then
        advance
        let c ← conditional l (skip || a != 0) fuel
        return if a != 0 then b else c
      else throw .missingColon
    else return a

def assignment (l : Levels) (skip : Bool) : Eval Int64 := do
  let p ← get
  match p.rest with
  | .name s :: .assign b :: _ =>
    advance
    advance
    let v ← l.assignment skip
    if skip then return v
    else
      let v ← match b with
        | none => pure v
        | some b => (apply b (← variable_ s) v : Except Fault Int64)
      setVariable s v
      return v
  | _ => conditional l skip (p.rest.length + 4)

/-- readers for expressions that nest so deep -/
def levels : Nat → Levels
  | 0 => ⟨fun _ => throw .missingOperand, fun _ => throw .missingOperand⟩
  | depth + 1 => ⟨assignment (levels depth), operand (levels depth)⟩

/-- the value of an expression and the variables it set, first one first -/
def evaluate (value : String → String) (expression : String) :
    Except Fault (Int64 × List (String × Int64)) :=
  let ts := tokens expression
  match ((levels (ts.length + 1)).assignment false).run { rest := ts, value } with
  | .error e => .error e
  | .ok (v, p) => if p.rest.isEmpty then .ok (v, p.sets.reverse) else .error .leftover

end IncrementalLint.Shell.Arithmetic
