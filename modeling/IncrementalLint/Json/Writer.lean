import IncrementalLint.Json.Value

/-!
# Writing JSON

One member or item per line, two blanks for each level, nothing between the brackets of an empty
list or object. Only quotes, backslashes and control characters are escaped.
-/

namespace IncrementalLint.Json

/-! ## strings -/

def hexDigit (n : Nat) : Char := if n < 10 then Char.ofNat (48 + n) else Char.ofNat (87 + n)

/-- a character as it stands between quotes -/
def escape (c : Char) : List Char :=
  if c = '"' then ['\\', '"']
  else if c = '\\' then ['\\', '\\']
  else if c = '\x08' then ['\\', 'b']
  else if c = '\x0c' then ['\\', 'f']
  else if c = '\n' then ['\\', 'n']
  else if c = '\r' then ['\\', 'r']
  else if c = '\t' then ['\\', 't']
  else if c.val < 0x20 then ['\\', 'u', '0', '0', hexDigit (c.toNat / 16), hexDigit (c.toNat % 16)]
  else [c]

def quoted (s : String) : List Char := '"' :: (s.toList.flatMap escape ++ ['"'])

/-! ## values -/

/-- a new line at a level -/
def newLine (level : Nat) : List Char := '\n' :: List.replicate (2 * level) ' '

def writeInt (n : Int) : List Char :=
  match n with
  | .ofNat n => (toString n).toList
  | .negSucc n => '-' :: (toString (n + 1)).toList

mutual

def write (level : Nat) : Json → List Char
  | .null => ['n', 'u', 'l', 'l']
  | .other => ['n', 'u', 'l', 'l']
  | .bool true => ['t', 'r', 'u', 'e']
  | .bool false => ['f', 'a', 'l', 's', 'e']
  | .int n => writeInt n
  | .string s => quoted s
  | .array [] => ['[', ']']
  | .array (x :: xs) => '[' :: (writeItems (level + 1) (x :: xs) ++ newLine level ++ [']'])
  | .object [] => ['\x7b', '\x7d']
  | .object (m :: ms) => '\x7b' :: (writeMembers (level + 1) (m :: ms) ++ newLine level ++ ['\x7d'])

/-- items, each on its line -/
def writeItems (level : Nat) : List Json → List Char
  | [] => []
  | [x] => newLine level ++ write level x
  | x :: y :: xs => newLine level ++ write level x ++ ',' :: writeItems level (y :: xs)

/-- members, each on its line -/
def writeMembers (level : Nat) : List (String × Json) → List Char
  | [] => []
  | [(k, v)] => newLine level ++ quoted k ++ ':' :: ' ' :: write level v
  | (k, v) :: m :: ms =>
    newLine level ++ quoted k ++ ':' :: ' ' :: write level v ++ ',' :: writeMembers level (m :: ms)

end

def pretty (v : Json) : String := String.ofList (write 0 v)

end IncrementalLint.Json
