import IncrementalLint.Json.Reader
import IncrementalLint.Json.Writer

/-!
# What is written is read back

A written value is followed by nothing, by a comma or by a new line, and read as itself.

* `plain`          values without `other`, which has no text of its own;
* `Stops`          what may follow a value;
* `readString?_quoted`, `readValue?_writeInt`   strings and integers;
* `readValue?_write`   a value at any level, for enough calls;
* `read?_write`     a whole text, with blanks behind it.
-/

namespace IncrementalLint.Json

/-! ## strings -/

theorem hexValue?_hexDigit : ∀ n, n < 16 → hexValue? (hexDigit n) = some n := by decide

theorem hex4?_hexDigit {n : Nat} (h : n < 32) :
    hex4? '0' '0' (hexDigit (n / 16)) (hexDigit (n % 16)) = some n := by
  have h1 := hexValue?_hexDigit (n / 16) (by omega)
  have h2 := hexValue?_hexDigit (n % 16) (by omega)
  have h0 : hexValue? '0' = some 0 := by decide
  simp only [hex4?, h0, h1, h2, Option.bind_eq_bind, Option.bind_some, Option.pure_def]
  congr 1
  omega

/-- behind a backslash that is not the start of a character number -/
theorem readString?_short (acc : Option (List Char)) {e c : Char} (h : shortEscape? e = some c)
    (rest : List Char) :
    readString? acc ('\\' :: e :: rest) = readString? (acc.map (c :: ·)) rest := by
  have hu : e ≠ 'u' := by
    rintro rfl
    have hnone : shortEscape? 'u' = none := rfl
    rw [hnone] at h
    exact absurd h (by simp)
  rw [readString?.eq_def]
  split
  next he => exact absurd (List.cons.inj he).1 (by decide)
  next he => exact absurd (List.cons.inj (List.cons.inj he).2).1 hu
  next e' rest' _ he =>
    obtain ⟨rfl, rfl⟩ := List.cons.inj (List.cons.inj he).2
    simp only [h]
  next _ _ hno he =>
    obtain ⟨rfl, rfl⟩ := List.cons.inj he
    exact absurd rfl (hno e rest rfl)
  next he => exact absurd he (by simp)

theorem readString?_number (acc : Option (List Char)) {n : Nat} (h : n < 32) (rest : List Char) :
    readString? acc ('\\' :: 'u' :: '0' :: '0' :: hexDigit (n / 16) :: hexDigit (n % 16) :: rest) =
      readString? (acc.map (Char.ofNat n :: ·)) rest := by
  have hhigh : isHighHalf n = false := by simp [isHighHalf]; omega
  have hlow : isLowHalf n = false := by simp [isLowHalf]; omega
  rw [readString?.eq_def]
  split
  next he => exact absurd (List.cons.inj he).1 (by decide)
  next he =>
    simp only [List.cons.injEq] at he
    obtain ⟨-, -, rfl, rfl, rfl, rfl, rfl⟩ := he
    simp [hex4?_hexDigit h, hhigh, hlow]
  next _ _ hno he =>
    simp only [List.cons.injEq] at he
    obtain ⟨-, rfl, rfl⟩ := he
    exact absurd rfl (hno _ _ _ _ _ rfl)
  next hno _ he =>
    simp only [List.cons.injEq] at he
    obtain ⟨rfl, rfl⟩ := he
    exact absurd rfl (hno _ _ _ _ _ rfl)
  next he => exact absurd he (by simp)

theorem readString?_plain (acc : Option (List Char)) {c : Char} (h1 : c ≠ '"') (h2 : c ≠ '\\')
    (h3 : ¬ c.val < 0x20) (rest : List Char) :
    readString? acc (c :: rest) = readString? (acc.map (c :: ·)) rest := by
  rw [readString?.eq_def]
  split
  next he => exact absurd (List.cons.inj he).1 h1
  next he => exact absurd (List.cons.inj he).1 h2
  next he => exact absurd (List.cons.inj he).1 h2
  next he =>
    obtain ⟨rfl, rfl⟩ := List.cons.inj he
    simp [h2, h3]
  next he => exact absurd he (by simp)

theorem readString?_escape (acc : Option (List Char)) (c : Char) (rest : List Char) :
    readString? acc (escape c ++ rest) = readString? (acc.map (c :: ·)) rest := by
  unfold escape
  split
  · subst c; exact readString?_short acc (by decide) rest
  split
  · subst c; exact readString?_short acc (by decide) rest
  split
  · subst c; exact readString?_short acc (by decide) rest
  split
  · subst c; exact readString?_short acc (by decide) rest
  split
  · subst c; exact readString?_short acc (by decide) rest
  split
  · subst c; exact readString?_short acc (by decide) rest
  split
  · subst c; exact readString?_short acc (by decide) rest
  split
  next h =>
    have hn : c.toNat < 32 := UInt32.lt_iff_toNat_lt.mp h
    have := readString?_number acc hn rest
    rwa [Char.ofNat_toNat] at this
  next h1 h2 _ _ _ _ _ h3 => exact readString?_plain acc h1 h2 h3 rest

theorem readString?_escapes (acc cs rest : List Char) :
    readString? (some acc) (cs.flatMap escape ++ '"' :: rest) =
      some (some (acc.reverse ++ cs), rest) := by
  induction cs generalizing acc with
  | nil =>
    rw [List.flatMap_nil, List.nil_append, readString?.eq_def]
    simp
  | cons c cs ih =>
    rw [List.flatMap_cons, List.append_assoc, readString?_escape, Option.map_some, ih]
    simp

theorem readString?_quoted (s : String) (rest : List Char) :
    readString? (some []) (s.toList.flatMap escape ++ '"' :: rest) = some (some s.toList, rest) := by
  simpa using readString?_escapes [] s.toList rest

/-! ## integers -/

/-- what may follow a value -/
def Stops (cs : List Char) : Prop := ∀ c rest, cs = c :: rest → c = ',' ∨ c = '\n'

theorem stops_nil : Stops [] := fun _ _ h => absurd h (by simp)

theorem stops_comma (cs : List Char) : Stops (',' :: cs) := by
  rintro c rest ⟨⟩
  exact Or.inl rfl

theorem stops_newLine (level : Nat) (cs : List Char) : Stops (newLine level ++ cs) := by
  rintro c rest ⟨⟩
  exact Or.inr rfl

theorem isDigit_eq (c : Char) : isDigit c = c.isDigit := by
  simp [isDigit, Char.isDigit, Char.le_def]

theorem toDigits_all (n : Nat) : ∀ c ∈ Nat.toDigits 10 n, isDigit c = true := fun c hc => by
  rw [isDigit_eq]
  exact Nat.isDigit_of_mem_toDigits (by decide) (by decide) hc

theorem decimal_toDigits (n : Nat) : decimal (Nat.toDigits 10 n) = n := by
  have h := Nat.ofDigitChars_ten_toDigits (n := n)
  unfold decimal digitValue
  simpa [Nat.ofDigitChars, Nat.mul_comm] using h

theorem toDigits_head {n : Nat} (h : n ≠ 0) : (Nat.toDigits 10 n).head? ≠ some '0' := by
  induction n using Nat.strongRecOn with
  | ind n ih =>
    rw [Nat.toDigits_eq_if (by decide)]
    split
    next hn =>
      intro he
      have hz : ∀ d, d < 10 → d ≠ 0 → Nat.digitChar d ≠ '0' := by decide
      exact hz n hn h (by simpa using he)
    next hn =>
      have := ih (n / 10) (by omega) (by omega)
      cases hd : Nat.toDigits 10 (n / 10) with
      | nil => exact absurd hd Nat.toDigits_ne_nil
      | cons d ds => simpa [hd] using this

theorem takeWhile_digits {ds rest : List Char} (hd : ∀ c ∈ ds, isDigit c = true) (hr : Stops rest) :
    (ds ++ rest).takeWhile isDigit = ds ∧ (ds ++ rest).dropWhile isDigit = rest := by
  have hrest : rest.takeWhile isDigit = [] ∧ rest.dropWhile isDigit = rest := by
    cases rest with
    | nil => exact ⟨rfl, rfl⟩
    | cons c cs =>
      have hc : isDigit c = false := by
        rcases hr c cs rfl with h | h <;> subst h <;> decide
      simp [hc]
  rw [List.takeWhile_append_of_pos hd, List.dropWhile_append_of_pos hd, hrest.1, hrest.2]
  simp

theorem readTail?_stops {rest : List Char} (hr : Stops rest) : readTail? rest = some (false, rest) := by
  cases rest with
  | nil => rfl
  | cons c cs => rcases hr c cs rfl with h | h <;> subst h <;> rfl

theorem readNumber?_digits (negative : Bool) {n : Nat} (h : negative = true → n ≠ 0)
    {rest : List Char} (hr : Stops rest) :
    readNumber? negative (Nat.toDigits 10 n ++ rest) =
      some (.int (if negative then -(Int.ofNat n) else Int.ofNat n), rest) := by
  obtain ⟨htake, hdrop⟩ := takeWhile_digits (toDigits_all n) hr
  have hsign : (negative && n == 0) = false := by
    cases negative with
    | false => rfl
    | true => simpa using h rfl
  unfold readNumber?
  simp only [htake, hdrop, readTail?_stops hr, Option.bind_eq_bind, Option.pure_def]
  split
  next hd => exact absurd hd Nat.toDigits_ne_nil
  next hd =>
    have hn : n = 0 := by rw [← decimal_toDigits n, hd]; rfl
    subst hn
    cases negative with
    | false => rfl
    | true => exact absurd rfl (h rfl)
  next hno hd =>
    by_cases hn : n = 0
    · subst hn
      rw [Nat.toDigits_zero] at hd
      exact absurd (List.cons.inj hd).2.symm hno
    · exact absurd (by rw [hd]; rfl) (toDigits_head hn)
  next => simp only [decimal_toDigits, hsign, Option.bind_some, Bool.or_false, Bool.false_eq_true,
      if_false]

theorem readValue?_digit {d : Char} (hd : isDigit d = true) (fuel : Nat) (cs : List Char) :
    readValue? (fuel + 1) (d :: cs) = readNumber? false (d :: cs) := by
  have hgap : skipGap (d :: cs) = d :: cs := by
    have : isGap d = false := by
      cases hg : isGap d with
      | false => rfl
      | true =>
        simp only [isGap, Bool.or_eq_true, beq_iff_eq] at hg
        rcases hg with ((h | h) | h) | h <;> subst h <;> exact absurd hd (by decide)
    simp [skipGap, this]
  rw [readValue?, hgap]
  split
  next h => exact absurd h (by simp)
  next h => exact absurd ((List.cons.inj h).1 ▸ hd) (by decide)
  next h => exact absurd ((List.cons.inj h).1 ▸ hd) (by decide)
  next h => exact absurd ((List.cons.inj h).1 ▸ hd) (by decide)
  next h => exact absurd ((List.cons.inj h).1 ▸ hd) (by decide)
  next h => exact absurd ((List.cons.inj h).1 ▸ hd) (by decide)
  next h => exact absurd ((List.cons.inj h).1 ▸ hd) (by decide)
  next h => exact absurd ((List.cons.inj h).1 ▸ hd) (by decide)
  next => rfl

theorem readValue?_writeInt (n : Int) (fuel : Nat) {rest : List Char} (hr : Stops rest) :
    readValue? (fuel + 1) (writeInt n ++ rest) = some (.int n, rest) := by
  cases n with
  | ofNat n =>
    have hw : writeInt (.ofNat n) = Nat.toDigits 10 n := by
      simp [writeInt]
    rw [hw]
    cases hd : Nat.toDigits 10 n with
    | nil => exact absurd hd Nat.toDigits_ne_nil
    | cons d ds =>
      have hdig : isDigit d = true := toDigits_all n d (by rw [hd]; exact List.mem_cons_self)
      have hnum := readNumber?_digits false (n := n) (by simp) hr
      rw [hd] at hnum
      rw [List.cons_append, readValue?_digit hdig, ← List.cons_append, hnum]
      rfl
  | negSucc n =>
    have hw : writeInt (.negSucc n) = '-' :: Nat.toDigits 10 (n + 1) := by
      simp [writeInt]
    have hgap (cs : List Char) : skipGap ('-' :: cs) = '-' :: cs := rfl
    rw [hw, List.cons_append, readValue?, hgap]
    exact readNumber?_digits true (by simp) hr

/-! ## values -/

mutual

/-- whether a value is free of `other`, which is written as something else -/
def plain : Json → Bool
  | .other => false
  | .array items => plainItems items
  | .object members => plainMembers members
  | .null => true
  | .bool _ => true
  | .int _ => true
  | .string _ => true

def plainItems : List Json → Bool
  | [] => true
  | x :: xs => plain x && plainItems xs

def plainMembers : List (String × Json) → Bool
  | [] => true
  | (_, v) :: ms => plain v && plainMembers ms

end

mutual

/-- how many calls reading a written value takes -/
def calls : Json → Nat
  | .array items => 1 + callsItems items
  | .object members => 1 + callsMembers members
  | .other => 1
  | .null => 1
  | .bool _ => 1
  | .int _ => 1
  | .string _ => 1

def callsItems : List Json → Nat
  | [] => 0
  | x :: xs => 1 + calls x + callsItems xs

def callsMembers : List (String × Json) → Nat
  | [] => 0
  | (_, v) :: ms => 1 + calls v + callsMembers ms

end

theorem skipGap_newLine (level : Nat) (cs : List Char) : skipGap (newLine level ++ cs) = skipGap cs := by
  have hspaces (n : Nat) : skipGap (List.replicate n ' ' ++ cs) = skipGap cs := by
    induction n with
    | zero => rfl
    | succ n ih => exact ih
  exact hspaces _

theorem skipGap_skipGap (cs : List Char) : skipGap (skipGap cs) = skipGap cs := by
  induction cs with
  | nil => rfl
  | cons c cs ih =>
    cases hc : isGap c with
    | true =>
      have : skipGap (c :: cs) = skipGap cs := by simp [skipGap, hc]
      rw [this, ih]
    | false =>
      have : skipGap (c :: cs) = c :: cs := by simp [skipGap, hc]
      rw [this, this]

/-- blanks in front of a value do not matter -/
theorem readValue?_gap (fuel : Nat) {cs ds : List Char} (h : skipGap cs = skipGap ds) :
    readValue? fuel cs = readValue? fuel ds := by
  cases fuel with
  | zero => rfl
  | succ fuel => rw [readValue?, readValue?, h]

theorem readItems?_gap (fuel : Nat) {cs ds : List Char} (h : skipGap cs = skipGap ds) :
    readItems? fuel cs = readItems? fuel ds := by
  cases fuel with
  | zero => rfl
  | succ fuel => rw [readItems?, readItems?, readValue?_gap fuel h]

theorem readMembers?_gap (fuel : Nat) {cs ds : List Char} (h : skipGap cs = skipGap ds) :
    readMembers? fuel cs = readMembers? fuel ds := by
  cases fuel with
  | zero => rfl
  | succ fuel => rw [readMembers?, readMembers?, h]

/-- how a written value starts -/
theorem write_head (level : Nat) (v : Json) :
    ∃ c cs, write level v = c :: cs ∧ isGap c = false ∧ c ≠ ']' := by
  cases v with
  | null => exact ⟨'n', _, rfl, rfl, by decide⟩
  | other => exact ⟨'n', _, rfl, rfl, by decide⟩
  | bool b => cases b <;> exact ⟨_, _, rfl, rfl, by decide⟩
  | string s => exact ⟨'"', _, rfl, rfl, by decide⟩
  | array items => cases items <;> exact ⟨'[', _, rfl, rfl, by decide⟩
  | object members => cases members <;> exact ⟨'\x7b', _, rfl, rfl, by decide⟩
  | int n =>
    cases n with
    | negSucc n => exact ⟨'-', _, rfl, rfl, by decide⟩
    | ofNat n =>
      have hw : write level (.int (.ofNat n)) = Nat.toDigits 10 n := by simp [write, writeInt]
      rw [hw]
      cases hd : Nat.toDigits 10 n with
      | nil => exact absurd hd Nat.toDigits_ne_nil
      | cons d ds =>
        have hdig : isDigit d = true := toDigits_all n d (by rw [hd]; exact List.mem_cons_self)
        refine ⟨d, ds, rfl, ?_, ?_⟩
        · cases hg : isGap d with
          | false => rfl
          | true =>
            simp only [isGap, Bool.or_eq_true, beq_iff_eq] at hg
            rcases hg with ((h | h) | h) | h <;> subst h <;> exact absurd hdig (by decide)
        · rintro rfl
          exact absurd hdig (by decide)

theorem readValue?_literal (fuel : Nat) (rest : List Char) :
    readValue? (fuel + 1) (['n', 'u', 'l', 'l'] ++ rest) = some (.null, rest) ∧
    readValue? (fuel + 1) (['t', 'r', 'u', 'e'] ++ rest) = some (.bool true, rest) ∧
    readValue? (fuel + 1) (['f', 'a', 'l', 's', 'e'] ++ rest) = some (.bool false, rest) := by
  refine ⟨?_, ?_, ?_⟩ <;> rw [readValue?] <;> rfl

theorem readValue?_string (s : String) (fuel : Nat) (rest : List Char) :
    readValue? (fuel + 1) (quoted s ++ rest) = some (.string s, rest) := by
  have hq : quoted s ++ rest = '"' :: (s.toList.flatMap escape ++ '"' :: rest) := by
    simp [quoted]
  have hgap (cs : List Char) : skipGap ('"' :: cs) = '"' :: cs := rfl
  rw [hq, readValue?, hgap]
  simp only [readString?_quoted]
  simp

theorem readValue?_array (fuel : Nat) {cs : List Char} (h : (skipGap cs).head? ≠ some ']') :
    readValue? (fuel + 1) ('[' :: cs) = (readItems? fuel cs).map fun p => (.array p.1, p.2) := by
  have hgap : skipGap ('[' :: cs) = '[' :: cs := rfl
  rw [readValue?, hgap]
  simp only
  split
  next hs => exact absurd (by rw [hs]; rfl) h
  next =>
    rw [readItems?_gap fuel (skipGap_skipGap cs)]
    cases readItems? fuel cs <;> rfl

theorem readValue?_object (fuel : Nat) {cs : List Char} (h : (skipGap cs).head? ≠ some '\x7d') :
    readValue? (fuel + 1) ('\x7b' :: cs) =
      (readMembers? fuel cs).map fun p => (p.1.elim .other .object, p.2) := by
  have hgap : skipGap ('\x7b' :: cs) = '\x7b' :: cs := rfl
  rw [readValue?, hgap]
  simp only
  split
  next hs => exact absurd (by rw [hs]; rfl) h
  next =>
    rw [readMembers?_gap fuel (skipGap_skipGap cs)]
    cases readMembers? fuel cs <;> rfl

theorem writeItems_cons (level : Nat) (x : Json) (xs : List Json) :
    ∃ tail, writeItems level (x :: xs) = newLine level ++ write level x ++ tail := by
  cases xs with
  | nil => exact ⟨[], by simp [writeItems]⟩
  | cons y ys => exact ⟨',' :: writeItems level (y :: ys), by simp [writeItems]⟩

theorem writeMembers_cons (level : Nat) (m : String × Json) (ms : List (String × Json)) :
    ∃ tail, writeMembers level (m :: ms) = newLine level ++ quoted m.1 ++ tail := by
  obtain ⟨k, v⟩ := m
  cases ms with
  | nil => exact ⟨':' :: ' ' :: write level v, by simp [writeMembers]⟩
  | cons n ns =>
    exact ⟨':' :: ' ' :: write level v ++ ',' :: writeMembers level (n :: ns), by simp [writeMembers]⟩

theorem items_head (level : Nat) (x : Json) (xs : List Json) (rest : List Char) :
    (skipGap (writeItems level (x :: xs) ++ rest)).head? ≠ some ']' := by
  obtain ⟨tail, ht⟩ := writeItems_cons level x xs
  obtain ⟨c, cs, hc, hgap, hne⟩ := write_head level x
  rw [ht, List.append_assoc, List.append_assoc, skipGap_newLine, hc]
  simpa [skipGap, hgap] using hne

theorem members_head (level : Nat) (m : String × Json) (ms : List (String × Json)) (rest : List Char) :
    (skipGap (writeMembers level (m :: ms) ++ rest)).head? ≠ some '\x7d' := by
  obtain ⟨tail, ht⟩ := writeMembers_cons level m ms
  rw [ht, List.append_assoc, List.append_assoc, skipGap_newLine]
  simp [quoted, skipGap, isGap]

/-- what follows the value of a member -/
def memberEnd (fuel : Nat) (m : String × Json) (cs : List Char) :
    Option (Option (List (String × Json)) × List Char) :=
  match skipGap cs with
  | '\x7d' :: rest => some (some [m], rest)
  | ',' :: rest => do
    let (members, rest) ← readMembers? fuel rest
    return (members.map (m :: ·), rest)
  | _ => none

theorem readMembers?_key (level fuel : Nat) (k : String) (cs : List Char) :
    readMembers? (fuel + 1) (newLine level ++ quoted k ++ ':' :: ' ' :: cs) =
      (readValue? fuel cs).bind fun p => memberEnd fuel (k, p.1) p.2 := by
  have hq : newLine level ++ quoted k ++ ':' :: ' ' :: cs =
      newLine level ++ '"' :: (k.toList.flatMap escape ++ '"' :: ':' :: ' ' :: cs) := by
    simp [quoted]
  have hquote (ds : List Char) : skipGap ('"' :: ds) = '"' :: ds := rfl
  have hcolon (ds : List Char) : skipGap (':' :: ds) = ':' :: ds := rfl
  have hblank : skipGap (' ' :: cs) = skipGap cs := rfl
  rw [hq, readMembers?, skipGap_newLine, hquote]
  simp only [readString?_quoted, Option.bind_eq_bind, Option.bind_some, hcolon,
    readValue?_gap fuel hblank]
  congr 1
  funext p
  rw [Option.map_some, String.ofList_toList]
  rfl

mutual

/-- a written value is read back, for enough calls -/
theorem readValue?_write (level : Nat) : ∀ (v : Json) (fuel : Nat) (rest : List Char),
    plain v = true → calls v ≤ fuel → Stops rest →
      readValue? fuel (write level v ++ rest) = some (v, rest)
  | v, 0, _, _, hc, _ => by cases v <;> simp [calls] at hc
  | .null, fuel + 1, rest, _, _, _ => (readValue?_literal fuel rest).1
  | .bool true, fuel + 1, rest, _, _, _ => (readValue?_literal fuel rest).2.1
  | .bool false, fuel + 1, rest, _, _, _ => (readValue?_literal fuel rest).2.2
  | .int n, fuel + 1, _, _, _, hr => readValue?_writeInt n fuel hr
  | .string s, fuel + 1, rest, _, _, _ => readValue?_string s fuel rest
  | .array [], fuel + 1, rest, _, _, _ => by
    show readValue? (fuel + 1) ('[' :: ']' :: rest) = _
    rw [readValue?]
    rfl
  | .object [], fuel + 1, rest, _, _, _ => by
    show readValue? (fuel + 1) ('\x7b' :: '\x7d' :: rest) = _
    rw [readValue?]
    rfl
  | .array (x :: xs), fuel + 1, rest, hp, hc, hr => by
    have hitems := readItems?_write level (x :: xs) fuel rest (by simp) hp
      (by simp only [calls] at hc; omega)
    have hw : write level (.array (x :: xs)) ++ rest =
        '[' :: (writeItems (level + 1) (x :: xs) ++ (newLine level ++ ']' :: rest)) := by
      simp [write]
    rw [hw, readValue?_array fuel (items_head _ _ _ _), hitems]
    rfl
  | .object (m :: ms), fuel + 1, rest, hp, hc, hr => by
    have hmembers := readMembers?_write level (m :: ms) fuel rest (by simp) hp
      (by simp only [calls] at hc; omega)
    have hw : write level (.object (m :: ms)) ++ rest =
        '\x7b' :: (writeMembers (level + 1) (m :: ms) ++ (newLine level ++ '\x7d' :: rest)) := by
      simp [write]
    rw [hw, readValue?_object fuel (members_head _ _ _ _), hmembers]
    rfl
  | .other, _, _, hp, _, _ => absurd hp (by simp [plain])

theorem readItems?_write (level : Nat) : ∀ (xs : List Json) (fuel : Nat) (rest : List Char),
    xs ≠ [] → plainItems xs = true → callsItems xs ≤ fuel →
      readItems? fuel (writeItems (level + 1) xs ++ (newLine level ++ ']' :: rest)) = some (xs, rest)
  | [], _, _, h, _, _ => absurd rfl h
  | x :: xs, 0, _, _, _, hc => by simp only [callsItems] at hc; omega
  | [x], fuel + 1, rest, _, hp, hc => by
    simp only [plainItems, Bool.and_true, callsItems] at hp hc
    have hx := readValue?_write (level + 1) x fuel (newLine level ++ ']' :: rest) hp (by omega)
      (stops_newLine level _)
    have hend : skipGap (newLine level ++ ']' :: rest) = ']' :: rest := skipGap_newLine level _
    rw [writeItems, List.append_assoc, readItems?, readValue?_gap fuel (skipGap_newLine _ _), hx]
    simp only [Option.bind_eq_bind, Option.bind_some, hend]
    rfl
  | x :: y :: xs, fuel + 1, rest, _, hp, hc => by
    rw [plainItems, Bool.and_eq_true] at hp
    rw [callsItems] at hc
    have hx := readValue?_write (level + 1) x fuel
      (',' :: (writeItems (level + 1) (y :: xs) ++ (newLine level ++ ']' :: rest))) hp.1
      (by omega) (stops_comma _)
    have hxs := readItems?_write level (y :: xs) fuel rest (by simp) hp.2 (by omega)
    have hgap (cs : List Char) : skipGap (',' :: cs) = ',' :: cs := rfl
    rw [writeItems, List.append_assoc, List.append_assoc, readItems?,
      readValue?_gap fuel (skipGap_newLine _ _), List.cons_append, hx]
    simp only [Option.bind_eq_bind, Option.bind_some, hgap, hxs]
    rfl

theorem readMembers?_write (level : Nat) : ∀ (ms : List (String × Json)) (fuel : Nat) (rest : List Char),
    ms ≠ [] → plainMembers ms = true → callsMembers ms ≤ fuel →
      readMembers? fuel (writeMembers (level + 1) ms ++ (newLine level ++ '\x7d' :: rest)) =
        some (some ms, rest)
  | [], _, _, h, _, _ => absurd rfl h
  | (k, v) :: ms, 0, _, _, _, hc => by simp only [callsMembers] at hc; omega
  | [(k, v)], fuel + 1, rest, _, hp, hc => by
    simp only [plainMembers, Bool.and_true, callsMembers] at hp hc
    have hv := readValue?_write (level + 1) v fuel (newLine level ++ '\x7d' :: rest) hp
      (by omega) (stops_newLine level _)
    have hend : skipGap (newLine level ++ '\x7d' :: rest) = '\x7d' :: rest := skipGap_newLine level _
    rw [writeMembers, List.append_assoc, List.cons_append, List.cons_append, readMembers?_key, hv]
    simp only [Option.bind_some, memberEnd, hend]
  | (k, v) :: m :: ms, fuel + 1, rest, _, hp, hc => by
    rw [plainMembers, Bool.and_eq_true] at hp
    rw [callsMembers] at hc
    have hv := readValue?_write (level + 1) v fuel
      (',' :: (writeMembers (level + 1) (m :: ms) ++ (newLine level ++ '\x7d' :: rest))) hp.1
      (by omega) (stops_comma _)
    have hms := readMembers?_write level (m :: ms) fuel rest (by simp) hp.2 (by omega)
    have hgap (cs : List Char) : skipGap (',' :: cs) = ',' :: cs := rfl
    have hw : writeMembers (level + 1) ((k, v) :: m :: ms) ++ (newLine level ++ '\x7d' :: rest) =
        newLine (level + 1) ++ quoted k ++ ':' :: ' ' :: (write (level + 1) v ++
          ',' :: (writeMembers (level + 1) (m :: ms) ++ (newLine level ++ '\x7d' :: rest))) := by
      simp [writeMembers]
    rw [hw, readMembers?_key, hv]
    simp only [Option.bind_some, memberEnd, hgap, hms]
    rfl

end

/-! ## whole texts -/

mutual

/-- a text is long enough for the calls that reading it takes -/
theorem calls_le (level : Nat) : ∀ v : Json, calls v ≤ 2 * (write level v).length
  | .array (x :: xs) => by
    have := callsItems_le (level + 1) (x :: xs)
    simp only [calls, write, List.length_cons, List.length_append, List.length_nil]
    omega
  | .object (m :: ms) => by
    have := callsMembers_le (level + 1) (m :: ms)
    simp only [calls, write, List.length_cons, List.length_append, List.length_nil]
    omega
  | .array [] => by simp [calls, callsItems, write]
  | .object [] => by simp [calls, callsMembers, write]
  | .null => by simp [calls, write]
  | .other => by simp [calls, write]
  | .bool true => by simp [calls, write]
  | .bool false => by simp [calls, write]
  | .string s => by
    simp only [calls, write, quoted, List.length_cons]
    omega
  | .int n => by
    obtain ⟨c, cs, h, -⟩ := write_head level (.int n)
    simp only [calls, h, List.length_cons]
    omega

theorem callsItems_le (level : Nat) : ∀ xs : List Json,
    callsItems xs ≤ 2 * (writeItems level xs).length
  | [] => by simp [callsItems]
  | [x] => by
    have := calls_le level x
    simp only [callsItems, writeItems, newLine, List.length_append, List.length_cons]
    omega
  | x :: y :: xs => by
    have hx := calls_le level x
    have hxs := callsItems_le level (y :: xs)
    rw [callsItems, writeItems]
    simp only [newLine, List.length_append, List.length_cons]
    omega

theorem callsMembers_le (level : Nat) : ∀ ms : List (String × Json),
    callsMembers ms ≤ 2 * (writeMembers level ms).length
  | [] => by simp [callsMembers]
  | [(k, v)] => by
    have := calls_le level v
    simp only [callsMembers, writeMembers, newLine, List.length_append, List.length_cons]
    omega
  | (k, v) :: m :: ms => by
    have hv := calls_le level v
    have hms := callsMembers_le level (m :: ms)
    rw [callsMembers, writeMembers]
    simp only [newLine, List.length_append, List.length_cons]
    omega

end

theorem read?_write {v : Json} (h : plain v = true) {rest : List Char} (hr : Stops rest)
    (hgap : skipGap rest = []) : read? (String.ofList (write 0 v ++ rest)) = some v := by
  have hcalls := calls_le 0 v
  have hread := readValue?_write 0 v (2 * (write 0 v ++ rest).length + 2) rest h
    (by rw [List.length_append]; omega) hr
  rw [read?, String.toList_ofList, hread]
  simp only [Option.bind_eq_bind, Option.bind_some, hgap, List.isEmpty_nil, if_true]

theorem read?_pretty {v : Json} (h : plain v = true) : read? (pretty v) = some v := by
  rw [pretty, ← List.append_nil (write 0 v)]
  exact read?_write h stops_nil rfl

/-- as a line of a file or of a terminal -/
theorem read?_line {v : Json} (h : plain v = true) : read? (pretty v ++ "\n") = some v := by
  have hline : pretty v ++ "\n" = String.ofList (write 0 v ++ newLine 0) := by
    rw [pretty, String.ofList_append]
    rfl
  rw [hline]
  exact read?_write h (by simpa using stops_newLine 0 []) rfl

end IncrementalLint.Json
