import IncrementalLint.Text.Replace

/-!
# Quoting for the shell

A word of letters, digits and a few harmless marks stands as it is; any other word stands between
single quotes, where a single quote is written by closing the quotes, escaping it and opening them
again.
-/

namespace IncrementalLint.Shell

/-- characters that mean nothing but themselves to the shell -/
def isHarmless (c : Char) : Bool :=
  c.isAlphanum || ['_', '-', '+', '=', '.', '/', ':', ',', '@', '%'].contains c

def isHarmlessWord (cs : List Char) : Bool := !cs.isEmpty && cs.all isHarmless

def quoteChar (c : Char) : List Char := if c = '\'' then ['\'', '\\', '\'', '\''] else [c]

def quoteChars (cs : List Char) : List Char :=
  if isHarmlessWord cs then cs else '\'' :: (cs.flatMap quoteChar ++ ['\''])

def quote (s : String) : String := String.ofList (quoteChars s.toList)

/-- words quoted one by one, with a blank between each two -/
def quoteAll (words : List String) : String := Text.joinWith " " (words.map quote)

theorem quoteChars_harmless {cs : List Char} (h : isHarmlessWord cs = true) : quoteChars cs = cs := by
  simp [quoteChars, h]

end IncrementalLint.Shell
