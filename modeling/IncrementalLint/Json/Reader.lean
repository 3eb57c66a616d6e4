import IncrementalLint.Json.Value

/-!
# Reading JSON

`Json.read?` accepts exactly one value with blanks around it. Strings hold no control character,
numbers no leading zero, lists no trailing comma. Members keep their order and may repeat a key.
-/

namespace IncrementalLint.Json

/-! ## blanks and digits -/

def isGap (c : Char) : Bool := c == ' ' || c == '\n' || c == '\t' || c == '\r'

def skipGap (cs : List Char) : List Char := cs.dropWhile isGap

def isDigit (c : Char) : Bool := '0' ≤ c && c ≤ '9'

def digitValue (c : Char) : Nat := c.toNat - '0'.toNat

def decimal (ds : List Char) : Nat := ds.foldl (fun n d => n * 10 + digitValue d) 0

def hexValue? (c : Char) : Option Nat :=
  if '0' ≤ c && c ≤ '9' then some (c.toNat - 48)
  else if 'a' ≤ c && c ≤ 'f' then some (c.toNat - 87)
  else if 'A' ≤ c && c ≤ 'F' then some (c.toNat - 55)
  else none

def hex4? (a b c d : Char) : Option Nat := do
  let a ← hexValue? a
  let b ← hexValue? b
  let c ← hexValue? c
  let d ← hexValue? d
  return ((a * 16 + b) * 16 + c) * 16 + d

/-! ## numbers -/

/-- reads a fraction and an exponent, if they are there; the flag tells whether one was -/
def readTail? (cs : List Char) : Option (Bool × List Char) := do
  let (fraction, cs) ← match cs with
    | '.' :: rest =>
      if (rest.takeWhile isDigit).isEmpty then none else some (true, rest.dropWhile isDigit)
    | _ => some (false, cs)
  match cs with
  | e :: rest =>
    if e == 'e' || e == 'E' then
      let rest := match rest with
        | s :: more => if s == '+' || s == '-' then more else rest
        | [] => rest
      if (rest.takeWhile isDigit).isEmpty then none else some (true, rest.dropWhile isDigit)
    else some (fraction, cs)
  | [] => some (fraction, cs)

/-- a number whose sign has been read; minus zero is no integer -/
def readNumber? (negative : Bool) (cs : List Char) : Option (Json × List Char) := do
  let ds := cs.takeWhile isDigit
  let whole ← match ds with
    | [] => none
    | ['0'] => some 0
    | '0' :: _ => none
    | _ => some (decimal ds)
  let (broken, rest) ← readTail? (cs.dropWhile isDigit)
  let value :=
    if broken || (negative && whole == 0) then Json.other
    else Json.int (if negative then -(Int.ofNat whole) else Int.ofNat whole)
  return (value, rest)

/-! ## strings -/

def isHighHalf (n : Nat) : Bool := 0xD800 ≤ n && n ≤ 0xDBFF
def isLowHalf (n : Nat) : Bool := 0xDC00 ≤ n && n ≤ 0xDFFF

def shortEscape? : Char → Option Char
  | '"' => some '"'
  | '\\' => some '\\'
  | '/' => some '/'
  | 'b' => some '\x08'
  | 'f' => some '\x0c'
  | 'n' => some '\n'
  | 'r' => some '\r'
  | 't' => some '\t'
  | _ => none

/-- the second half of a surrogate pair, written as an escape -/
def lowHalf? : List Char → Option (Nat × List Char)
  | '\\' :: 'u' :: a :: b :: c :: d :: rest => do
    let n ← hex4? a b c d
    if isLowHalf n then some (n, rest) else none
  | _ => none

theorem length_lowHalf? {cs rest : List Char} {n : Nat} (h : lowHalf? cs = some (n, rest)) :
    rest.length < cs.length := by
  unfold lowHalf? at h
  split at h
  · obtain ⟨m, _, h⟩ := Option.bind_eq_some_iff.1 h
    split at h
    · simp only [Option.some.injEq, Prod.mk.injEq] at h
      rw [← h.2]
      simp only [List.length_cons]
      omega
    · contradiction
  · contradiction

/--
the characters up to the closing quote, behind `acc`, last first; no text when an escape names one
half of a surrogate pair
-/
def readString? (acc : Option (List Char)) : List Char → Option (Option (List Char) × List Char)
  | '"' :: rest => some (acc.map List.reverse, rest)
  | '\\' :: 'u' :: a :: b :: c :: d :: rest =>
    match hex4? a b c d with
    | none => none
    | some n =>
      if isHighHalf n then
        match _h : lowHalf? rest with
        | some (m, more) =>
          readString? (acc.map (Char.ofNat (0x10000 + (n - 0xD800) * 1024 + (m - 0xDC00)) :: ·)) more
        | none => readString? none rest
      else if isLowHalf n then readString? none rest
      else readString? (acc.map (Char.ofNat n :: ·)) rest
  | '\\' :: e :: rest =>
    match shortEscape? e with
    | none => none
    | some c => readString? (acc.map (c :: ·)) rest
  | c :: rest => if c.val < 0x20 || c == '\\' then none else readString? (acc.map (c :: ·)) rest
  | [] => none
termination_by cs => cs.length
decreasing_by
  all_goals simp_wf
  · have := length_lowHalf? _h
    omega
  all_goals omega

/-! ## values -/

def literal? (word : List Char) (value : Json) (cs : List Char) : Option (Json × List Char) :=
  if word.isPrefixOf cs then some (value, cs.drop word.length) else none

mutual

/-- one value; `fuel` bounds the calls and need not exceed twice the length of the text -/
def readValue? : Nat → List Char → Option (Json × List Char)
  | 0, _ => none
  | fuel + 1, cs =>
    match skipGap cs with
    | [] => none
    | '"' :: rest => do
      let (s, rest) ← readString? (some []) rest
      return (s.elim .other fun s => .string (String.ofList s), rest)
    | '[' :: rest =>
      match skipGap rest with
      | ']' :: rest => some (.array [], rest)
      | rest => do
        let (items, rest) ← readItems? fuel rest
        return (.array items, rest)
    | '\x7b' :: rest =>
      match skipGap rest with
      | '\x7d' :: rest => some (.object [], rest)
      | rest => do
        let (members, rest) ← readMembers? fuel rest
        return (members.elim .other .object, rest)
    | '-' :: rest => readNumber? true rest
    | 'n' :: rest => literal? ['u', 'l', 'l'] .null rest
    | 't' :: rest => literal? ['r', 'u', 'e'] (.bool true) rest
    | 'f' :: rest => literal? ['a', 'l', 's', 'e'] (.bool false) rest
    | cs => readNumber? false cs

/-- the items of a list up to its closing bracket -/
def readItems? : Nat → List Char → Option (List Json × List Char)
  | 0, _ => none
  | fuel + 1, cs => do
    let (item, rest) ← readValue? fuel cs
    match skipGap rest with
    | ']' :: rest => return ([item], rest)
    | ',' :: rest =>
      let (items, rest) ← readItems? fuel rest
      return (item :: items, rest)
    | _ => none

/-- the members of an object up to its closing brace; no members when a key has no text -/
def readMembers? : Nat → List Char → Option (Option (List (String × Json)) × List Char)
  | 0, _ => none
  | fuel + 1, cs =>
    match skipGap cs with
    | '"' :: rest => do
      let (key, rest) ← readString? (some []) rest
      match skipGap rest with
      | ':' :: rest =>
        let (value, rest) ← readValue? fuel rest
        let member := key.map fun k => (String.ofList k, value)
        match skipGap rest with
        | '\x7d' :: rest => return (member.map ([·]), rest)
        | ',' :: rest =>
          let (members, rest) ← readMembers? fuel rest
          return (member.bind fun m => members.map (m :: ·), rest)
        | _ => none
      | _ => none
    | _ => none

end

def read? (text : String) : Option Json := do
  let cs := text.toList
  let (value, rest) ← readValue? (2 * cs.length + 2) cs
  if (skipGap rest).isEmpty then some value else none

end IncrementalLint.Json
