/-!
# Blanks, words and lines

Text is cut at the characters with the Unicode property White_Space. All functions are given on
character lists; the versions on strings stand in the namespace `Text`.

* `words`      the maximal runs without a blank;
* `trim`       what is left without the blanks at both ends;
* `lines`      the pieces between line feeds, each without a carriage return before its feed.
-/

namespace IncrementalLint.Chars

/-! ## the property -/

def isBlank (c : Char) : Bool :=
  let n := c.val
  (9 ≤ n && n ≤ 13) || n == 32 || n == 0x85 || n == 0xA0 || n == 0x1680 ||
    (0x2000 ≤ n && n ≤ 0x200A) || n == 0x2028 || n == 0x2029 || n == 0x202F || n == 0x205F ||
    n == 0x3000

/-! ## trimming -/

def trimStart (cs : List Char) : List Char := cs.dropWhile isBlank
def trimEnd (cs : List Char) : List Char := (cs.reverse.dropWhile isBlank).reverse
def trim (cs : List Char) : List Char := trimEnd (trimStart cs)

theorem trimStart_cons {c : Char} (h : isBlank c = false) (cs : List Char) :
    trimStart (c :: cs) = c :: cs := by simp [trimStart, h]

/-! ## words -/

/-- cuts at every character of a class, keeping empty pieces -/
def splitAt (p : Char → Bool) : List Char → List (List Char)
  | [] => [[]]
  | c :: cs =>
    if p c then [] :: splitAt p cs
    else
      match splitAt p cs with
      | [] => [[c]]
      | w :: ws => (c :: w) :: ws

theorem splitAt_ne_nil (p : Char → Bool) (cs : List Char) : splitAt p cs ≠ [] := by
  cases cs with
  | nil => simp [splitAt]
  | cons c cs =>
    simp only [splitAt]
    split
    · simp
    · split <;> simp

/-- a separator that is known cuts a text in two -/
theorem splitAt_append {p : Char → Bool} {c : Char} (h : p c = true) (a b : List Char) :
    splitAt p (a ++ c :: b) = splitAt p a ++ splitAt p b := by
  induction a with
  | nil => simp [splitAt, h]
  | cons d a ih =>
    simp only [List.cons_append, splitAt, ih]
    split
    · rfl
    · cases hs : splitAt p a with
      | nil => exact absurd hs (splitAt_ne_nil _ _)
      | cons w ws => rfl

theorem splitAt_of_none {p : Char → Bool} {cs : List Char} (h : ∀ c ∈ cs, p c = false) :
    splitAt p cs = [cs] := by
  induction cs with
  | nil => rfl
  | cons c cs ih =>
    rw [splitAt, ih fun d hd => h d (List.mem_cons_of_mem _ hd), h c List.mem_cons_self]
    rfl

def words (cs : List Char) : List (List Char) := (splitAt isBlank cs).filter (· ≠ [])

theorem words_append {c : Char} (h : isBlank c = true) (a b : List Char) :
    words (a ++ c :: b) = words a ++ words b := by
  rw [words, splitAt_append h, List.filter_append]
  rfl

theorem words_cons {c : Char} (h : isBlank c = true) (cs : List Char) : words (c :: cs) = words cs :=
  words_append h [] cs

theorem words_of_blank {cs : List Char} (h : ∀ c ∈ cs, isBlank c = true) : words cs = [] := by
  induction cs with
  | nil => rfl
  | cons c cs ih =>
    rw [words_cons (h c List.mem_cons_self)]
    exact ih fun d hd => h d (List.mem_cons_of_mem _ hd)

theorem words_of_solid {cs : List Char} (hne : cs ≠ []) (h : ∀ c ∈ cs, isBlank c = false) :
    words cs = [cs] := by
  rw [words, splitAt_of_none h, List.filter_cons_of_pos (by simpa using hne), List.filter_nil]

/-! ## lines -/

/-- a line without the carriage return that ends it -/
def dropReturn (cs : List Char) : List Char :=
  if cs.getLast? = some '\r' then cs.dropLast else cs

/-- reads on in a line of which `acc` is known, last character first -/
def linesFrom (acc : List Char) : List Char → List (List Char)
  | [] => if acc.isEmpty then [] else [acc.reverse]
  | c :: cs => if c = '\n' then dropReturn acc.reverse :: linesFrom [] cs else linesFrom (c :: acc) cs

/-- the lines of a text; what follows the last line feed counts when it is not empty -/
def lines (cs : List Char) : List (List Char) := linesFrom [] cs

end IncrementalLint.Chars

namespace IncrementalLint.Text

/-! ## on strings -/

def trim (s : String) : String := String.ofList (Chars.trim s.toList)
def trimEnd (s : String) : String := String.ofList (Chars.trimEnd s.toList)
def lines (s : String) : List String := (Chars.lines s.toList).map String.ofList

end IncrementalLint.Text
