import IncrementalLint.Toml.Value
import IncrementalLint.Toml.Text

/-!
# Numbers and dates in TOML

Digits may be grouped by single underscores between digits. Integers have 64 bits. The value of a
float and of a date is not kept, only that it was well formed: in range, and a day of its month.
-/

namespace IncrementalLint.Toml

/-! ## digits -/

/-- reads on behind the digits `acc`, last first; `ready` tells that the last character was a digit -/
def groupedFrom (isDigit : Char → Bool) (ready : Bool) (acc : List Char) :
    List Char → Option (List Char × List Char)
  | [] => if ready then some (acc.reverse, []) else none
  | c :: rest =>
    if isDigit c then groupedFrom isDigit true (c :: acc) rest
    else if ready then
      if c == '_' then groupedFrom isDigit false acc rest else some (acc.reverse, c :: rest)
    else none

/-- digits with single underscores between them, and the text behind -/
def grouped? (isDigit : Char → Bool) (cs : List Char) : Option (List Char × List Char) :=
  groupedFrom isDigit false [] cs

def inBase (base : Nat) (ds : List Char) : Nat :=
  ds.foldl (fun n d => n * base + (Json.hexValue? d).getD 0) 0

def int64? (n : Int) : Option Toml :=
  if Int64.minValue.toInt ≤ n && n ≤ Int64.maxValue.toInt then some (.integer n) else none

/-- a sign, the digits of a whole number without a leading zero, and the text behind -/
def whole? (cs : List Char) : Option (Bool × List Char × List Char) := do
  let (negative, cs) := match cs with
    | '-' :: rest => (true, rest)
    | '+' :: rest => (false, rest)
    | _ => (false, cs)
  match cs with
  | '0' :: rest => return (negative, ['0'], rest)
  | d :: _ =>
    if Json.isDigit d then
      let (ds, rest) ← grouped? Json.isDigit cs
      return (negative, ds, rest)
    else none
  | [] => none

/-! ## integers -/

def based? (base : Nat) (isDigit : Char → Bool) (cs : List Char) : Option (Toml × List Char) := do
  let (ds, rest) ← grouped? isDigit cs
  return (← int64? (inBase base ds), rest)

def integer? : Reader Toml
  | '0' :: 'x' :: rest => based? 16 isHex rest
  | '0' :: 'o' :: rest => based? 8 (fun c => '0' ≤ c && c ≤ '7') rest
  | '0' :: 'b' :: rest => based? 2 (fun c => c == '0' || c == '1') rest
  | cs => do
    let (negative, ds, rest) ← whole? cs
    return (← int64? (if negative then -(inBase 10 ds : Int) else inBase 10 ds), rest)

/-! ## floats -/

/-- the first value that no longer rounds to a float -/
def floatLimit : Nat := Nat.pow 2 1024 - Nat.pow 2 970

/-- whether digits times a power of ten is out of the range of floats -/
def overflows (ds : List Char) (exponent : Int) : Bool :=
  let ds := ds.dropWhile (· == '0')
  let size := (ds.length : Int) + exponent
  if ds.isEmpty || size < 308 then false
  else if size > 310 then true
  else
    match exponent with
    | .ofNat e => floatLimit ≤ inBase 10 ds * Nat.pow 10 e
    | .negSucc e => floatLimit * Nat.pow 10 (e + 1) ≤ inBase 10 ds

/-- the exponent, if one is written -/
def exponent? : List Char → Option (Option Int × List Char)
  | e :: rest =>
    if e == 'e' || e == 'E' then do
      let (negative, rest) := match rest with
        | '-' :: more => (true, more)
        | '+' :: more => (false, more)
        | _ => (false, rest)
      let (ds, rest) ← grouped? Json.isDigit rest
      return (some (if negative then -(inBase 10 ds : Int) else inBase 10 ds), rest)
    else some (none, e :: rest)
  | [] => some (none, [])

/-- what a float reader finds: nothing of its kind, an ill-formed float, or one -/
inductive FloatScan where
  | absent
  | broken
  | float (rest : List Char)

def scanFloat (cs : List Char) : FloatScan :=
  match whole? cs with
  | none =>
    let unsigned := match cs with
      | '+' :: rest => rest
      | '-' :: rest => rest
      | _ => cs
    match unsigned with
    | 'i' :: 'n' :: 'f' :: rest => .float rest
    | 'n' :: 'a' :: 'n' :: rest => .float rest
    | _ => .absent
  | some (negative, ds, rest) =>
    match rest with
    | '.' :: rest =>
      match grouped? Json.isDigit rest with
      | none => .broken
      | some (fraction, rest) =>
        match exponent? rest with
        | none => .broken
        | some (e, rest) =>
          if !negative && overflows (ds ++ fraction) (e.getD 0 - fraction.length) then .broken
          else .float rest
    | _ =>
      match exponent? rest with
      | none => .broken
      | some (none, _) => .absent
      | some (some e, rest) => if !negative && overflows ds e then .broken else .float rest

/-! ## dates and times -/

/-- a number of so many digits -/
def fixedDigits? (n : Nat) (cs : List Char) : Option (Nat × List Char) :=
  let ds := cs.take n
  if ds.length = n && ds.all Json.isDigit then some (inBase 10 ds, cs.drop n) else none

def fixedIn? (n low high : Nat) (cs : List Char) : Option (Nat × List Char) :=
  (fixedDigits? n cs).filter fun r => low ≤ r.1 && r.1 ≤ high

def isLeapYear (year : Nat) : Bool := year % 4 == 0 && (year % 100 != 0 || year % 400 == 0)

def daysIn (year month : Nat) : Nat :=
  if month == 2 then (if isLeapYear year then 29 else 28)
  else if month == 4 || month == 6 || month == 9 || month == 11 then 30
  else 31

def char? (c : Char) : List Char → Option (List Char)
  | d :: rest => if c == d then some rest else none
  | [] => none

/-- the rest of a date whose year and first dash are read -/
def dateTail? (year : Nat) (cs : List Char) : Option (List Char) := do
  let (month, cs) ← fixedIn? 2 1 12 cs
  let cs ← char? '-' cs
  let (day, cs) ← fixedIn? 2 1 31 cs
  if day ≤ daysIn year month then some cs else none

/-- the rest of a time whose hour and first colon are read -/
def timeTail? (cs : List Char) : Option (List Char) := do
  let (_, cs) ← fixedIn? 2 0 59 cs
  let cs ← char? ':' cs
  let (_, cs) ← fixedIn? 2 0 60 cs
  match cs with
  | '.' :: rest =>
    if (rest.takeWhile Json.isDigit).isEmpty then some cs else some (rest.dropWhile Json.isDigit)
  | _ => some cs

/-- an hour and its colon -/
def hour? (cs : List Char) : Option (List Char) := do
  let (_, cs) ← fixedIn? 2 0 23 cs
  char? ':' cs

def offset? : List Char → Option (List Char)
  | 'Z' :: rest => some rest
  | 'z' :: rest => some rest
  | s :: rest =>
    if s == '+' || s == '-' then do
      let rest ← hour? rest
      let (_, rest) ← fixedIn? 2 0 59 rest
      return rest
    else some (s :: rest)
  | [] => some []

/-- a date with the time that may follow, or a time; `none` for neither, `some none` for an
ill-formed one -/
def scanDate (cs : List Char) : Option (Option (List Char)) :=
  match fixedDigits? 4 cs with
  | some (year, '-' :: rest) =>
    some (do
      let rest ← dateTail? year rest
      match rest with
      | d :: more =>
        if d == 'T' || d == 't' || d == ' ' then
          match hour? more with
          | none => some rest
          | some more => (timeTail? more).bind offset?
        else some rest
      | [] => some [])
  | _ => (hour? cs).map timeTail?

/-! ## numbers -/

def number? (cs : List Char) : Option (Toml × List Char) :=
  match scanDate cs with
  | some rest => rest.map (Toml.datetime, ·)
  | none =>
    match scanFloat cs with
    | .float rest => some (.float, rest)
    | .broken => none
    | .absent => integer? cs

end IncrementalLint.Toml
