import IncrementalLint.Shell.Arithmetic
import IncrementalLint.Text.Replace

/-!
# Formats

What `echo` and `printf` write. Characters behind a backslash have meanings of their own, and a
format is used again as long as there are arguments left.

* `Format.echo`   words with a blank between each two;
* `Format.print`  a format with its arguments.
-/

namespace IncrementalLint.Shell.Format

/-! ## escapes -/

/-- up to `n` octal digits at the front of a text -/
def octal : Nat → Nat → List Char → Nat × List Char
  | 0, acc, cs => (acc, cs)
  | _, acc, [] => (acc, [])
  | n + 1, acc, c :: cs =>
    if '0' ≤ c && c ≤ '7' then octal n (acc * 8 + (c.toNat - 48)) cs else (acc, c :: cs)

def byte (n : Nat) : Char := Char.ofNat (n % 256)

/-- the character that one behind a backslash means -/
def escaped? : Char → Option Char
  | 'a' => some (byte 7)
  | 'b' => some (byte 8)
  | 'e' => some (byte 27)
  | 'f' => some (byte 12)
  | 'n' => some '\n'
  | 'r' => some '\r'
  | 't' => some '\t'
  | 'v' => some (byte 11)
  | '\\' => some '\\'
  | _ => none

/-- what an escape behind its backslash writes, and what follows -/
def escape (cs : List Char) : List Char × List Char :=
  match cs with
  | [] => (['\\'], [])
  | c :: rest =>
    match escaped? c with
    | some d => ([d], rest)
    | none =>
      if '0' ≤ c && c ≤ '7' then
        let (n, rest) := octal 3 0 cs
        ([byte n], rest)
      else (['\\'], cs)

/-- a text with its escapes read, where `\0` starts an octal number and `\c` ends all output; the
flag says whether it did -/
def unescapeFrom : Nat → List Char → List Char → List Char × Bool
  | 0, acc, _ => (acc.reverse, false)
  | _, acc, [] => (acc.reverse, false)
  | _ + 1, acc, '\\' :: 'c' :: _ => (acc.reverse, true)
  | fuel + 1, acc, '\\' :: '0' :: cs =>
    let (n, rest) := octal 3 0 cs
    unescapeFrom fuel (byte n :: acc) rest
  | fuel + 1, acc, '\\' :: cs =>
    let (ds, rest) := escape cs
    unescapeFrom fuel (ds.reverse ++ acc) rest
  | fuel + 1, acc, c :: cs => unescapeFrom fuel (c :: acc) cs

def unescape (s : String) : String × Bool :=
  let (cs, ended) := unescapeFrom (s.length + 1) [] s.toList
  (String.ofList cs, ended)

/-! ## words -/

/-- words with a blank between each two and a line feed behind them; the first word may leave the
line feed out -/
def echo (words : List String) : String :=
  let (line, words) := match words with
    | "-n" :: rest => ("", rest)
    | _ => ("\n", words)
  let (text, ended) := unescape (Text.joinWith " " words)
  if ended then text else text ++ line

/-! ## conversions -/

structure Spec where
  left : Bool := false
  plus : Bool := false
  space : Bool := false
  alternate : Bool := false
  zero : Bool := false
  width : Nat := 0
  precision : Option Nat := none

/-- how a conversion went: the first complaint counts for the status -/
structure State where
  output : List String := []
  args : List String
  used : Bool := false
  complaints : List String := []
  ended : Bool := false

def fill (n : Nat) (c : Char) : String := String.ofList (List.replicate n c)

def pad (s : Spec) (text : String) : String :=
  let n := s.width - text.length
  if s.left then text ++ fill n ' ' else fill n ' ' ++ text

/-- digits with what stands in front of them, filled up to the width -/
def padNumber (s : Spec) (front digits : String) : String :=
  match s.precision with
  | some p =>
    let digits := if p = 0 && digits == "0" then "" else fill (p - digits.length) '0' ++ digits
    pad s (front ++ digits)
  | none =>
    if s.zero && !s.left then front ++ fill (s.width - front.length - digits.length) '0' ++ digits
    else pad s (front ++ digits)

def digitsIn (base : Nat) (upper : Bool) (n : Nat) : String :=
  let s := String.ofList (Nat.toDigits base n)
  if upper then s.map Char.toUpper else s

def sign (s : Spec) (negative : Bool) : String :=
  if negative then "-" else if s.plus then "+" else if s.space then " " else ""

def nextArg : StateM State (Option String) := do
  let s ← get
  match s.args with
  | a :: rest =>
    set { s with args := rest, used := true }
    return some a
  | [] => return none

def complain (message : String) : StateM State Unit :=
  modify fun s => { s with complaints := s.complaints ++ [message] }

def write (text : String) : StateM State Unit := modify fun s => { s with output := text :: s.output }

/-- an argument as an integer between two bounds -/
def integer (least most : Int) : StateM State Int := do
  match ← nextArg with
  | none => return 0
  | some a =>
    match a.toList with
    | '\'' :: c :: _ => return c.toNat
    | '"' :: c :: _ => return c.toNat
    | cs =>
      let body := cs.dropWhile Arithmetic.isSpace
      let (negative, ds) := Arithmetic.takeSign body
      if !(ds.head?.map Char.isDigit).getD false then
        if !a.isEmpty then complain (a ++ ": expected numeric value")
        return 0
      else
        let (n, rest) := Arithmetic.takeNumber ds
        let v : Int := if negative then -n else n
        if v < least || v > most then
          complain (a ++ ": Numerical result out of range")
          return if v < least then least else most
        if !rest.isEmpty then complain (a ++ ": not completely converted")
        return v

/-! ### decimals -/

/-- a decimal as digits and a number of places -/
structure Decimal where
  negative : Bool
  digits : Nat
  /-- how often ten is divided out, or multiplied in if negative -/
  scale : Int

/-- the decimal at the front of a text, and what follows -/
def decimal? (s : String) : Option (Decimal × List Char) :=
  let (negative, cs) := Arithmetic.takeSign (s.toList.dropWhile Arithmetic.isSpace)
  let whole := cs.takeWhile Char.isDigit
  let rest := cs.dropWhile Char.isDigit
  let (places, rest) := match rest with
    | '.' :: more => (more.takeWhile Char.isDigit, more.dropWhile Char.isDigit)
    | _ => ([], rest)
  if whole.isEmpty && places.isEmpty then none
  else
    let digits := (Arithmetic.takeDigits 10 0 (whole ++ places)).1
    let (exponent, rest) : Int × List Char := match rest with
      | e :: more =>
        let (minus, ds) := Arithmetic.takeSign more
        if (e == 'e' || e == 'E') && (ds.head?.map Char.isDigit).getD false then
          let (n, rest) := Arithmetic.takeDigits 10 0 ds
          (if minus then -n else n, rest)
        else (0, rest)
      | [] => (0, rest)
    some (⟨negative, digits, places.length - exponent⟩, rest)

/-- the binary number nearest to a decimal, written out in full -/
def Decimal.nearest (d : Decimal) : Decimal :=
  let f := if d.scale ≥ 0 then Float.ofScientific d.digits true d.scale.toNat
    else Float.ofScientific d.digits false (-d.scale).toNat
  let bits := f.toBits.toNat
  let field : Nat := bits / Nat.pow 2 52 % 2048
  let fraction : Nat := bits % Nat.pow 2 52
  if field = 2047 then d
  else
    let (m, e) : Nat × Int :=
      if field = 0 then (fraction, -1074) else (fraction + Nat.pow 2 52, Int.ofNat field - 1075)
    if e ≥ 0 then { d with digits := m * Nat.pow 2 e.toNat, scale := 0 }
    else { d with digits := m * Nat.pow 5 (-e).toNat, scale := -e }

/-- `a / b` to the nearest integer, a half to the even one -/
def divideRounded (a b : Nat) : Nat :=
  let q := a / b
  let r := 2 * (a % b)
  if r > b || (r = b && q % 2 = 1) then q + 1 else q

/-- a decimal with so many places, as one number -/
def Decimal.scaled (d : Decimal) (places : Int) : Nat :=
  let shift := places - d.scale
  if shift ≥ 0 then d.digits * Nat.pow 10 shift.toNat
  else divideRounded d.digits (Nat.pow 10 (-shift).toNat)

/-- digits with a point in front of the last ones -/
def withPoint (n places : Nat) (always : Bool) : String :=
  let text := digitsIn 10 false n
  let text := fill (places + 1 - text.length) '0' ++ text
  let cs := text.toList
  let whole := String.ofList (cs.take (cs.length - places))
  if places = 0 then whole ++ (if always then "." else "")
  else whole ++ "." ++ String.ofList (cs.drop (cs.length - places))

def Decimal.exponent (d : Decimal) : Int :=
  if d.digits = 0 then 0 else (digitsIn 10 false d.digits).length - 1 - d.scale

/-- one digit in front of the point, and an exponent -/
def Decimal.scientific (d : Decimal) (places : Nat) (always : Bool) : String × Int :=
  let e := d.exponent
  let n := d.scaled (places - e)
  let (n, e) := if n ≥ Nat.pow 10 (places + 1) then (d.scaled (places - e - 1), e + 1) else (n, e)
  (withPoint n places always, e)

def exponentText (e : Int) : String :=
  let digits := digitsIn 10 false e.natAbs
  (if e < 0 then "-" else "+") ++ fill (2 - digits.length) '0' ++ digits

/-- a text without zeros at the end of its places -/
def trimPlaces (text : String) : String :=
  if text.toList.contains '.' then
    let cs := (text.toList.reverse.dropWhile (· == '0'))
    String.ofList (match cs with
      | '.' :: rest => rest.reverse
      | _ => cs.reverse)
  else text

/-- a decimal in one of the three styles -/
def Decimal.text (d : Decimal) (s : Spec) (style : Char) : String :=
  let p := s.precision.getD 6
  match style.toLower with
  | 'f' => withPoint (d.scaled p) p s.alternate
  | 'e' =>
    let (m, e) := d.scientific p s.alternate
    m ++ "e" ++ exponentText e
  | _ =>
    let p := if p = 0 then 1 else p
    let (m, e) := d.scientific (p - 1) s.alternate
    if e < -4 || e ≥ p then
      (if s.alternate then m else trimPlaces m) ++ "e" ++ exponentText e
    else
      let places := (p - 1 - e).toNat
      let t := withPoint (d.scaled places) places s.alternate
      if s.alternate then t else trimPlaces t

def decimalArg : StateM State Decimal := do
  match ← nextArg with
  | none => return ⟨false, 0, 0⟩
  | some a =>
    match decimal? a with
    | none =>
      if !a.isEmpty then complain (a ++ ": expected numeric value")
      return ⟨false, 0, 0⟩
    | some (d, rest) =>
      if !rest.isEmpty then complain (a ++ ": not completely converted")
      return d

/-! ## formats -/

def int64Most : Int := 9223372036854775807
def uint64Most : Int := 18446744073709551615

/-- writes one conversion; none if there is no such conversion -/
def convert (s : Spec) (c : Char) : StateM State Bool := do
  match c with
  | 'd' | 'i' => do
    let v ← integer (-int64Most - 1) int64Most
    write (padNumber s (sign s (v < 0)) (digitsIn 10 false v.natAbs))
    return true
  | 'o' | 'u' | 'x' | 'X' => do
    let v ← integer (-uint64Most) uint64Most
    let n := (if v < 0 then v + uint64Most + 1 else v).toNat
    let (base, front) := match c with
      | 'o' => (8, "0")
      | 'u' => (10, "")
      | 'x' => (16, "0x")
      | _ => (16, "0X")
    let front := if s.alternate && n != 0 then front else ""
    write (padNumber s front (digitsIn base (c == 'X') n))
    return true
  | 'c' => do
    let a := (← nextArg).getD ""
    write (pad s (String.ofList (match a.toList with
      | c :: _ => [c]
      | [] => [byte 0])))
    return true
  | 's' => do
    let a := (← nextArg).getD ""
    write (pad s (match s.precision with
      | some p => String.ofList (a.toList.take p)
      | none => a))
    return true
  | 'b' => do
    let (a, ended) := unescape ((← nextArg).getD "")
    write (pad s (match s.precision with
      | some p => String.ofList (a.toList.take p)
      | none => a))
    if ended then modify fun t => { t with ended := true }
    return true
  | 'e' | 'E' | 'f' | 'F' | 'g' | 'G' => do
    let d := (← decimalArg).nearest
    let text := d.text s c
    let text := if c.isUpper then text.map Char.toUpper else text
    let front := sign s d.negative
    write (if s.zero && !s.left then front ++ fill (s.width - front.length - text.length) '0' ++ text
      else pad s (front ++ text))
    return true
  | _ => return false

def flags (s : Spec) : List Char → Spec × List Char
  | '-' :: cs => flags { s with left := true } cs
  | '+' :: cs => flags { s with plus := true } cs
  | ' ' :: cs => flags { s with space := true } cs
  | '#' :: cs => flags { s with alternate := true } cs
  | '0' :: cs => flags { s with zero := true } cs
  | cs => (s, cs)

/-- a number in a conversion, written out or taken from the arguments -/
def amount (cs : List Char) : StateM State (Option Int × List Char) := do
  match cs with
  | '*' :: rest => return (some (← integer (-2147483648) 2147483647), rest)
  | _ =>
    let ds := cs.takeWhile Char.isDigit
    if ds.isEmpty then return (none, cs)
    else return (some (Arithmetic.takeDigits 10 0 ds).1, cs.dropWhile Char.isDigit)

inductive Fault where
  | missingConversion
  | noConversion (text : String)

def Fault.message : Fault → String
  | missingConversion => "missing format character"
  | noConversion t => t ++ ": invalid directive"

/-- goes through a format once -/
def run : Nat → List Char → StateM State (Option Fault)
  | 0, _ => return none
  | _, [] => return none
  | fuel + 1, '\\' :: cs => do
    let (ds, rest) := escape cs
    write (String.ofList ds)
    run fuel rest
  | fuel + 1, '%' :: '%' :: cs => do
    write "%"
    run fuel cs
  | fuel + 1, '%' :: cs => do
    let (spec, rest) := flags {} cs
    let (width, rest) ← amount rest
    let spec := match width with
      | some w => { spec with width := w.natAbs, left := spec.left || w < 0 }
      | none => spec
    let (spec, rest) ← match rest with
      | '.' :: more => do
        let (p, rest) ← amount more
        let p := p.getD 0
        pure ({ spec with precision := if p < 0 then none else some p.toNat }, rest)
      | _ => pure (spec, rest)
    match rest with
    | [] => return some .missingConversion
    | c :: rest =>
      if ← convert spec c then
        if (← get).ended then return none else run fuel rest
      else return some (.noConversion ("%" ++ String.ofList (cs.take (cs.length - rest.length))))
  | fuel + 1, c :: cs => do
    write (String.ofList [c])
    run fuel cs

/-- what a format and its arguments write, with the complaints about them -/
structure Printed where
  output : String
  complaints : List String
  fault : Option Fault

/-- uses a format again as long as it takes arguments away -/
def rounds (format : List Char) : Nat → State → State × Option Fault
  | 0, s => (s, none)
  | fuel + 1, s =>
    let (fault, s) := (run (format.length + 1) format).run { s with used := false }
    if fault.isSome || s.ended || !s.used || s.args.isEmpty then (s, fault)
    else rounds format fuel s

def print (format : String) (args : List String) : Printed :=
  let (s, fault) := rounds format.toList (args.length + 1) { args }
  ⟨Text.joinWith "" s.output.reverse, s.complaints, fault⟩

end IncrementalLint.Shell.Format
