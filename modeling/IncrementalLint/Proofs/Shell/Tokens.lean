import Mathlib.Data.List.Infix
import IncrementalLint.Shell.Quote
import IncrementalLint.Shell.Reader

/-!
# The tokens of a text

The shell reads a text token by token, and the texts of here-documents behind the line that asks for
them.

* `lexeme`            the next token, or the operator of a here-document with the word behind it;
* `Reads`             a text read up to some point;
* `Word.literal?`     the text of a word that stands for itself;
* `skipBlanks_gap`    what stands between tokens;
* `lexeme_blank`      a blank in front changes nothing.
-/

namespace IncrementalLint.Shell

/-! ## words that stand for themselves -/

/-- the characters of a part that stands for itself: quoted, or harmless -/
def Part.literal? : Part → Option (List Char)
  | .text s true => some s.toList
  | .text s false => if isHarmlessWord s.toList then some s.toList else none
  | _ => none

/-- the text of a word that stands for itself: no expansion, no pattern and no tilde is in it -/
def Word.literal? (w : Word) : Option String :=
  if w.isEmpty then none else (w.mapM Part.literal?).map fun parts => String.ofList parts.flatten

/-! ## reading on -/

/-- notes a here-document whose text starts behind this line -/
def awaitDocument (w : Word) (stripTabs : Bool) : Read Unit := modify fun s =>
  let (mark, quoted) := markText w
  { s with
    pending := s.pending ++ [Pending.mk s.nextDocument mark (!quoted) stripTabs]
    nextDocument := s.nextDocument + 1 }

/-- the next token, with what has to be read along with it: the mark of a here-document with its
operator, and the texts of here-documents with the end of their line -/
def lexeme (n : Nested) : Read (List Token) := do
  match ← scan n with
  | .newline =>
    flushDocuments n
    return [.newline]
  | .redir fd .document strip =>
    match ← scan n with
    | .word w =>
      awaitDocument w strip
      return [.redir fd .document strip, .word w]
    | t => unexpected t none
  | t => return [t]

/-- a text read up to some point -/
inductive Reads (n : Nested) : Source → List Token → Source → Prop
  | done {s : Source} : Reads n s [] s
  | next {s s₁ s₂ : Source} {ts us : List Token} (h : lexeme n s = .ok (ts, s₁)) (h' : Reads n s₁ us s₂) :
      Reads n s (ts ++ us) s₂

section
variable {n : Nested} {s s₁ s₂ : Source} {ts us : List Token}

theorem Reads.append (h : Reads n s ts s₁) (h' : Reads n s₁ us s₂) : Reads n s (ts ++ us) s₂ := by
  induction h with
  | done => exact h'
  | next hl _ ih =>
    rw [List.append_assoc]
    exact .next hl (ih h')

theorem Reads.single (h : lexeme n s = .ok (ts, s₁)) : Reads n s ts s₁ := by
  have hnext := Reads.next h .done
  rwa [List.append_nil] at hnext

end

/-! ## steps of a reader -/

section
variable {α β : Type} {r : Read α} {f : α → Read β} {s t : Source} {a : α}

theorem bind_of_ok (h : r s = .ok (a, t)) : (r >>= f) s = f a t := by
  show (r s >>= fun x => f x.1 x.2) = f a t
  rw [h]
  rfl

theorem bind_congr_left (h : r s = r t) : (r >>= f) s = (r >>= f) t := by
  show (r s >>= fun x => f x.1 x.2) = (r t >>= fun x => f x.1 x.2)
  rw [h]

end

/-- a source whose front has been read -/
def Source.past (s : Source) (front back : List Char) : Source :=
  { s with rest := back, line := s.line + front.count '\n' }

section
variable {s : Source} {c : Char} {cs front back rest : List Char}

theorem Source.length_ofText (text : String) : (ofText text).rest.length < (ofText text).size := by
  show text.toList.length < 2 * text.toList.length + 16
  omega

theorem Source.past_nil (h : s.rest = back) : s.past [] back = s := by
  subst h
  rfl

theorem Source.past_past (xs ys : List Char) :
    (s.past front xs).past back ys = s.past (front ++ back) ys := by
  simp only [past, List.count_append, Nat.add_assoc]

theorem nextChar_cons (h : s.rest = c :: rest) : nextChar s = .ok (some c, s.past [c] rest) := by
  have hline : (if (c == '\n') = true then s.line + 1 else s.line) = s.line + [c].count '\n' := by
    by_cases hc : c = '\n'
    · simp [hc]
    · simp [hc]
  unfold nextChar
  rw [bind_of_ok rfl, h]
  dsimp only
  rw [hline]
  rfl

theorem peekChar_eq : peekChar s = .ok (s.rest.head?, s) := rfl

theorem fuelLeft_eq : fuelLeft s = .ok (s.size, s) := rfl

end

/-! ## joined lines -/

section
variable {s : Source} {cs : List Char}

theorem skipJoins_other (h : ¬['\\', '\n'] <+: cs) (fuel line : Nat) :
    skipJoins fuel cs line = (cs, line) := by
  unfold skipJoins
  split
  · rfl
  · exact absurd ⟨_, rfl⟩ h
  · rfl

/-- no more joins are skipped than there are characters -/
theorem skipJoins_enough {fuel fuel' : Nat} (h : cs.length ≤ fuel) (h' : cs.length ≤ fuel') (line : Nat) :
    skipJoins fuel cs line = skipJoins fuel' cs line := by
  induction fuel generalizing cs fuel' line with
  | zero =>
    obtain rfl := List.length_eq_zero_iff.mp (Nat.le_zero.mp h)
    rw [skipJoins_other (by decide), skipJoins_other (by decide)]
  | succ fuel ih =>
    by_cases hjoin : ['\\', '\n'] <+: cs
    · obtain ⟨rest, rfl⟩ := hjoin
      obtain ⟨k, rfl⟩ : ∃ k, fuel' = k + 1 := ⟨fuel' - 1, by simp at h'; omega⟩
      simp only [List.cons_append, List.nil_append, List.length_cons] at h h'
      show skipJoins fuel rest (line + 1) = skipJoins k rest (line + 1)
      exact ih (by omega) (by omega) (line + 1)
    · rw [skipJoins_other hjoin, skipJoins_other hjoin]

theorem skipJoins_suffix (fuel : Nat) (cs : List Char) (line : Nat) : (skipJoins fuel cs line).1 <:+ cs := by
  induction fuel generalizing cs line with
  | zero => exact List.suffix_refl _
  | succ fuel ih =>
    by_cases hjoin : ['\\', '\n'] <+: cs
    · obtain ⟨rest, rfl⟩ := hjoin
      exact (ih rest (line + 1)).trans ⟨['\\', '\n'], rfl⟩
    · rw [skipJoins_other hjoin]

theorem joinLines_eq : joinLines s = .ok ((), { s with
    rest := (skipJoins s.rest.length s.rest s.line).1
    line := (skipJoins s.rest.length s.rest s.line).2 }) := by
  show Except.ok ((), _) = _
  congr 2
  dsimp only
  split
  · rfl
  next h =>
    rw [skipJoins_other]
    rintro ⟨rest, hrest⟩
    exact h rest hrest.symm

theorem joinLines_other (h : ¬['\\', '\n'] <+: s.rest) : joinLines s = .ok ((), s) := by
  rw [joinLines_eq, skipJoins_other h]

/-- a join is skipped, with those behind it -/
theorem joinLines_join (h : s.rest = '\\' :: '\n' :: cs) :
    joinLines s = joinLines (s.past ['\\', '\n'] cs) := by
  have hskip : skipJoins s.rest.length s.rest s.line = skipJoins cs.length cs (s.line + 1) := by
    rw [h]
    exact skipJoins_enough (Nat.le_succ _) (Nat.le_refl _) _
  rw [joinLines_eq, joinLines_eq, hskip]
  rfl

end

/-! ## between tokens -/

/-- blanks and joined lines -/
inductive Gap : List Char → Prop
  | nil : Gap []
  | blank {c : Char} {cs : List Char} (hc : c = ' ' ∨ c = '\t') (h : Gap cs) : Gap (c :: cs)
  | join {cs : List Char} (h : Gap cs) : Gap ('\\' :: '\n' :: cs)

/-- a text that begins with a token, or is at its end -/
def Begins (back : List Char) : Prop := ∀ c ∈ back.head?, c ≠ ' ' ∧ c ≠ '\t' ∧ c ≠ '#' ∧ c ≠ '\\'

section
variable {s : Source} {gap back : List Char}

theorem Begins.not_join (h : Begins back) : ¬['\\', '\n'] <+: back := by
  rintro ⟨rest, rfl⟩
  exact (h '\\' rfl).2.2.2 rfl

theorem skipBlanks_gap (hgap : Gap gap) (hback : Begins back) {fuel : Nat} (hs : s.rest = gap ++ back)
    (hfuel : gap.length < fuel) : skipBlanks fuel s = .ok ((), s.past gap back) := by
  induction hgap generalizing fuel s with
  | nil =>
    obtain ⟨k, rfl⟩ : ∃ k, fuel = k + 1 := ⟨fuel - 1, by omega⟩
    have hrest : s.rest = back := hs
    rw [Source.past_nil hrest, skipBlanks, bind_of_ok (joinLines_other (hrest ▸ hback.not_join)),
      bind_of_ok rfl, hrest]
    cases back with
    | nil => rfl
    | cons c rest =>
      obtain ⟨hspace, htab, hcomment, _⟩ := hback c rfl
      simp [hspace, htab, hcomment]
      rfl
  | @blank c cs hc _ ih =>
    obtain ⟨k, rfl⟩ : ∃ k, fuel = k + 1 := ⟨fuel - 1, by omega⟩
    have hother : ¬['\\', '\n'] <+: s.rest := by
      rw [hs]
      rintro ⟨rest, hrest⟩
      obtain rfl : '\\' = c := (List.cons.inj hrest).1
      rcases hc with hc | hc <;> cases hc
    have hblank : (c == ' ' || c == '\t') = true := by
      rcases hc with rfl | rfl <;> rfl
    rw [skipBlanks, bind_of_ok (joinLines_other hother), bind_of_ok rfl, hs]
    simp only [List.cons_append, hblank, if_true]
    rw [bind_of_ok (nextChar_cons hs), ih rfl (Nat.lt_of_succ_lt_succ hfuel), Source.past_past]
    rfl
  | @join cs _ ih =>
    obtain ⟨k, rfl⟩ : ∃ k, fuel = k + 1 := ⟨fuel - 1, by omega⟩
    have hnext : skipBlanks (k + 1) s = skipBlanks (k + 1) (s.past ['\\', '\n'] (cs ++ back)) := by
      rw [skipBlanks]
      exact bind_congr_left (joinLines_join hs)
    rw [hnext, ih rfl (by simp at hfuel; omega), Source.past_past]
    rfl

variable {n : Nested}

/-- what a text begins with is looked at without skipping anything -/
theorem skipBlanks_begins (hs : Begins s.rest) (hsize : s.rest.length < s.size) :
    skipBlanks s.size s = .ok ((), s) :=
  skipBlanks_gap .nil hs rfl (Nat.lt_of_le_of_lt (Nat.zero_le _) hsize)

/-- no more blanks are skipped than there are characters -/
theorem skipBlanks_enough {fuel fuel' : Nat} (h : s.rest.length < fuel) (h' : s.rest.length < fuel') :
    skipBlanks fuel s = skipBlanks fuel' s := by
  induction fuel generalizing s fuel' with
  | zero => exact absurd h (Nat.not_lt_zero _)
  | succ fuel ih =>
    obtain ⟨k, rfl⟩ : ∃ k, fuel' = k + 1 := ⟨fuel' - 1, by omega⟩
    have hlength := (skipJoins_suffix s.rest.length s.rest s.line).length_le
    rw [skipBlanks, skipBlanks, bind_of_ok joinLines_eq, bind_of_ok joinLines_eq, bind_of_ok rfl,
      bind_of_ok rfl]
    dsimp only
    cases hrest : (skipJoins s.rest.length s.rest s.line).1 with
    | nil => rfl
    | cons c rest =>
      rw [hrest, List.length_cons] at hlength
      by_cases hblank : (c == ' ' || c == '\t') = true
      · simp only [hblank, if_true]
        rw [bind_of_ok (nextChar_cons rfl), bind_of_ok (nextChar_cons rfl)]
        exact ih (show rest.length < fuel by omega) (show rest.length < k by omega)
      · simp only [hblank, if_false, Bool.false_eq_true]

/-- tokens are looked for behind blanks -/
theorem scan_gap (hgap : Gap gap) (hback : Begins back) (hs : s.rest = gap ++ back)
    (hsize : s.rest.length < s.size) : scan n s = scan n (s.past gap back) := by
  have hlength : gap.length < s.size := by
    rw [hs, List.length_append] at hsize
    omega
  have hskip : skipBlanks s.size s = .ok ((), s.past gap back) := skipBlanks_gap hgap hback hs hlength
  have hsize' : (s.past gap back).rest.length < s.size := by
    rw [hs, List.length_append] at hsize
    exact Nat.lt_of_le_of_lt (Nat.le_add_left _ _) hsize
  rw [scan, bind_of_ok fuelLeft_eq, bind_of_ok hskip, bind_of_ok fuelLeft_eq,
    bind_of_ok (skipBlanks_begins hback hsize')]

theorem lexeme_gap (hgap : Gap gap) (hback : Begins back) (hs : s.rest = gap ++ back)
    (hsize : s.rest.length < s.size) : lexeme n s = lexeme n (s.past gap back) :=
  bind_congr_left (scan_gap hgap hback hs hsize)

/-- a blank in front changes nothing -/
theorem lexeme_blank (hs : s.rest = ' ' :: back) (hsize : s.rest.length < s.size) :
    lexeme n s = lexeme n (s.past [' '] back) := by
  have hother : ¬['\\', '\n'] <+: s.rest := by
    rw [hs]
    rintro ⟨rest, hrest⟩
    cases hrest
  have hsize' : back.length + 1 < s.size := by
    rwa [hs] at hsize
  have hskip : skipBlanks s.size s = skipBlanks s.size (s.past [' '] back) := by
    obtain ⟨k, hk⟩ : ∃ k, s.size = k + 1 := ⟨s.size - 1, by omega⟩
    rw [skipBlanks_enough (show (s.past [' '] back).rest.length < s.size from Nat.lt_of_succ_lt hsize')
      (show back.length < k by omega), hk, skipBlanks, bind_of_ok (joinLines_other hother), bind_of_ok rfl, hs]
    exact bind_of_ok (nextChar_cons hs)
  refine bind_congr_left ?_
  rw [scan, bind_of_ok fuelLeft_eq, bind_of_ok fuelLeft_eq]
  exact bind_congr_left hskip

theorem lexeme_eof (hs : s.rest = []) (hsize : s.rest.length < s.size) : lexeme n s = .ok ([.eof], s) := by
  have hbegins : Begins s.rest := by
    rw [hs]
    exact fun c hc => by contradiction
  have hscan : scan n s = .ok (.eof, s) := by
    rw [scan, bind_of_ok fuelLeft_eq, bind_of_ok (skipBlanks_begins hbegins hsize), bind_of_ok peekChar_eq, hs]
    rfl
  rw [lexeme, bind_of_ok hscan]
  rfl

end

end IncrementalLint.Shell
