import IncrementalLint.Proofs.Shell.Literal
import IncrementalLint.Proofs.Shell.Text
import IncrementalLint.Shell.Evaluation
import IncrementalLint.Units

/-!
# Reading what was quoted

A quoted text is one word for the shell, and that word stands for the text, whatever its characters
are. A word of harmless characters is read as it is. Any other is read in stretches between single
quotes, with an escaped quote between each two.

* `Draft.Quoted`         the invariant of a word under construction;
* `baseText_stretches`   the stretches of a quoted text make one word;
* `scan_quote`           that word as the next token of a text;
* `ofText_quote`         the bytes of a quoted text are its quoted bytes;
* `quoteAll_read`        words that were quoted one by one are read as they were.
-/

namespace IncrementalLint.Shell

/-! ## words under construction -/

namespace Draft

/-- a word of quoted pieces, which have a text -/
structure Quoted (d : Draft) (cs : List Char) : Prop where
  flag : d.chars ≠ [] → d.quoted = true
  text : ∃ ss : List String, d.parts.reverse = ss.map (Part.text · true) ∧
    (ss.map String.toList).flatten ++ d.chars.reverse = cs

section
variable {d : Draft} {cs : List Char}

theorem quoted_empty : Quoted {} [] := ⟨fun h => absurd rfl h, [], rfl, rfl⟩

theorem Quoted.flush (h : d.Quoted cs) : d.flush.Quoted cs ∧ d.flush.chars = [] := by
  obtain ⟨ss, hparts, htext⟩ := h.text
  unfold Draft.flush
  split
  next hempty =>
    have hnil : d.chars = [] := List.isEmpty_iff.mp hempty
    exact ⟨⟨fun hne => absurd hnil hne, ss, hparts, htext⟩, hnil⟩
  next hempty =>
    have hquoted : d.quoted = true := h.flag fun hnil => hempty (List.isEmpty_iff.mpr hnil)
    refine ⟨⟨fun hne => absurd rfl hne, ss ++ [String.ofList d.chars.reverse], ?_, ?_⟩, rfl⟩
    · rw [List.reverse_cons, hparts, hquoted, List.map_append]
      rfl
    · rw [List.map_append, List.flatten_append, List.map_singleton, String.toList_ofList, List.flatten_singleton,
        htext]
      exact List.append_nil cs

theorem chars_addChar_ne_nil (d : Draft) (c : Char) (quoted : Bool) : (d.addChar c quoted).chars ≠ [] := by
  unfold Draft.addChar
  split <;> exact List.cons_ne_nil _ _

theorem Quoted.addChar (h : d.Quoted cs) (c : Char) : (d.addChar c true).Quoted (cs ++ [c]) := by
  obtain ⟨ss, hparts, htext⟩ := h.text
  unfold Draft.addChar
  split
  next hquoted =>
    refine ⟨fun _ => eq_of_beq hquoted, ss, hparts, ?_⟩
    rw [List.reverse_cons, ← List.append_assoc, htext]
  next hquoted =>
    obtain ⟨hflush, hchars⟩ := h.flush
    obtain ⟨ss, hparts, htext⟩ := hflush.text
    refine ⟨fun _ => rfl, ss, hparts, ?_⟩
    rw [hchars, List.reverse_nil, List.append_nil] at htext
    rw [htext]
    rfl

def addQuoted (d : Draft) (xs : List Char) : Draft := xs.foldl (fun d c => d.addChar c true) d

theorem Quoted.addQuoted (h : d.Quoted cs) (xs : List Char) : (d.addQuoted xs).Quoted (cs ++ xs) := by
  induction xs generalizing d cs with
  | nil => exact (List.append_nil cs).symm ▸ h
  | cons x xs ih =>
    have hrest := ih (h.addChar x)
    rwa [List.append_assoc] at hrest

/-- quoted text between two quotes, behind what there was -/
theorem Quoted.closeQuotes (h : d.Quoted cs) (xs : List Char) :
    (Draft.closeQuotes d (d.addQuoted xs)).Quoted (cs ++ xs) := by
  have hxs := h.addQuoted xs
  unfold Draft.closeQuotes
  split
  next hempty =>
    obtain ⟨hflush, hchars⟩ := hxs.flush
    obtain ⟨ss, hparts, htext⟩ := hflush.text
    refine ⟨fun hne => absurd hchars hne, ss ++ [""], ?_, ?_⟩
    · show (_ :: _).reverse = _
      rw [List.reverse_cons, hparts, List.map_append]
      rfl
    · show _ ++ (Draft.flush _).chars.reverse = _
      rw [List.map_append, List.flatten_append]
      simpa using htext
  next => exact ⟨hxs.flag, hxs.text⟩

/-- between two quotes there is a piece, if only an empty one -/
theorem closeQuotes_ne_nil (d : Draft) (xs : List Char) :
    (Draft.closeQuotes d (d.addQuoted xs)).parts ≠ [] ∨
      (Draft.closeQuotes d (d.addQuoted xs)).chars ≠ [] := by
  unfold Draft.closeQuotes
  split
  next => exact .inl (List.cons_ne_nil _ _)
  next hopen =>
    refine .inr fun hchars => ?_
    rcases List.eq_nil_or_concat xs with rfl | ⟨ys, y, rfl⟩
    · exact hopen (by simpa [Draft.addQuoted] using hchars)
    · rw [List.concat_eq_append, Draft.addQuoted, List.foldl_append] at hchars
      exact chars_addChar_ne_nil _ y true hchars

theorem word_ne_nil (h : d.parts ≠ [] ∨ d.chars ≠ []) : d.word ≠ [] := by
  unfold Draft.word Draft.flush
  rw [Ne, List.reverse_eq_nil_iff]
  split
  next hempty => exact h.resolve_right fun hne => hne (List.isEmpty_iff.mp hempty)
  next => exact List.cons_ne_nil _ _

theorem mapM_literal? (ss : List String) :
    (ss.map (Part.text · true)).mapM Part.literal? = some (ss.map String.toList) := by
  induction ss with
  | nil => rfl
  | cons x ss ih =>
    rw [List.map_cons, List.mapM_cons, ih]
    rfl

theorem Quoted.literal? (h : d.Quoted cs) (hd : d.word ≠ []) : d.word.literal? = some (String.ofList cs) := by
  obtain ⟨hflush, hchars⟩ := h.flush
  obtain ⟨ss, hparts, htext⟩ := hflush.text
  have hword : d.word = ss.map (Part.text · true) := hparts
  rw [hchars, List.reverse_nil, List.append_nil] at htext
  rw [Word.literal?, if_neg (by simpa using hd), hword, mapM_literal?, Option.map_some, htext]

end

end Draft

/-! ## between single quotes -/

/-- what may stand behind a word: a blank, or the end of the text -/
def AtBlank (back : List Char) : Prop := ∀ c ∈ back.head?, c = ' '

theorem atBlank_cons (cs : List Char) : AtBlank (' ' :: cs) := fun _ hc => (Option.some.inj hc).symm

section
variable {n : Nested} {t : TextReaders} {s : Source} {d : Draft} {cs xs back : List Char} {fuel : Nat}

theorem singleQuoted_eq (hxs : '\'' ∉ xs) (hs : s.rest = xs ++ '\'' :: back) (hfuel : xs.length < fuel) :
    singleQuoted fuel d s =
      .ok (d.addQuoted xs, s.past (xs ++ ['\'']) back) := by
  induction xs generalizing d s fuel with
  | nil =>
    obtain ⟨k, rfl⟩ : ∃ k, fuel = k + 1 := ⟨fuel - 1, by omega⟩
    rw [singleQuoted, bind_of_ok (nextChar_cons hs)]
    rfl
  | cons x xs ih =>
    obtain ⟨k, rfl⟩ : ∃ k, fuel = k + 1 := ⟨fuel - 1, by omega⟩
    have hx : x ≠ '\'' := fun he => hxs (he ▸ List.mem_cons_self)
    rw [singleQuoted, bind_of_ok (nextChar_cons hs)]
    simp only
    rw [ih (fun hm => hxs (List.mem_cons_of_mem _ hm)) rfl (Nat.lt_of_succ_lt_succ hfuel), Source.past_past]
    rfl

/-- a stretch between single quotes -/
theorem baseText_stretch (hxs : '\'' ∉ xs) (hs : s.rest = '\'' :: (xs ++ '\'' :: back))
    (hsize : s.rest.length < s.size) :
    baseText n t false (fuel + 1) d s =
      baseText n t false fuel (Draft.closeQuotes d.flush (d.flush.addQuoted xs))
        (s.past ('\'' :: (xs ++ ['\''])) back) := by
  have hlength : xs.length < s.size := by
    rw [hs] at hsize
    simp at hsize
    omega
  rw [baseText, bind_of_ok peekChar_eq, hs]
  simp only [List.head?_cons]
  rw [if_neg (by decide), bind_of_ok (nextChar_cons hs), bind_of_ok fuelLeft_eq,
    bind_of_ok (bind_of_ok (singleQuoted_eq hxs rfl hlength)), Source.past_past]
  rfl

/-- an escaped quote -/
theorem baseText_escape (hs : s.rest = '\\' :: '\'' :: back) :
    baseText n t false (fuel + 1) d s =
      baseText n t false fuel (d.addChar '\'' true) (s.past ['\\', '\''] back) := by
  rw [baseText, bind_of_ok peekChar_eq, hs]
  simp only [List.head?_cons]
  rw [if_neg (by decide), bind_of_ok (nextChar_cons hs), bind_of_ok (nextChar_cons rfl), Source.past_past]
  rfl

theorem baseText_end (hback : AtBlank back) (hs : s.rest = back) :
    baseText n t false (fuel + 1) d s = .ok (d, s) := by
  rw [baseText, bind_of_ok peekChar_eq, hs]
  cases back with
  | nil => rfl
  | cons c rest =>
    obtain rfl := hback c rfl
    rfl

/-! ## quoted words -/

theorem flatMap_quoteChar (hxs : '\'' ∉ xs) : xs.flatMap quoteChar = xs := by
  induction xs with
  | nil => rfl
  | cons x xs ih =>
    have hx : x ≠ '\'' := fun he => hxs (he ▸ List.mem_cons_self)
    rw [List.flatMap_cons, ih fun hm => hxs (List.mem_cons_of_mem _ hm), quoteChar, if_neg hx]
    rfl

/-- a text is one stretch, or one stands in front of its first quote -/
theorem exists_stretch (cs : List Char) :
    ∃ xs, '\'' ∉ xs ∧ (cs = xs ∨ ∃ rest, cs = xs ++ '\'' :: rest) := by
  induction cs with
  | nil => exact ⟨[], List.not_mem_nil, .inl rfl⟩
  | cons c cs ih =>
    by_cases hc : c = '\''
    · exact ⟨[], List.not_mem_nil, .inr ⟨cs, by rw [hc]; rfl⟩⟩
    · obtain ⟨xs, hxs, hcs⟩ := ih
      have hnot : '\'' ∉ c :: xs := by
        simp [hxs, Ne.symm hc]
      refine ⟨c :: xs, hnot, ?_⟩
      rcases hcs with rfl | ⟨rest, rfl⟩
      · exact .inl rfl
      · exact .inr ⟨rest, rfl⟩

/-- the stretches of a quoted text make one word of it -/
theorem baseText_stretches {ds : List Char} (hd : d.Quoted ds)
    (hs : s.rest = '\'' :: (cs.flatMap quoteChar ++ '\'' :: back)) (hback : AtBlank back)
    (hsize : s.rest.length < s.size) (hfuel : (cs.flatMap quoteChar).length + 2 < fuel) :
    ∃ e, baseText n t false fuel d s = .ok (e, s.past ('\'' :: (cs.flatMap quoteChar ++ ['\''])) back) ∧
      e.Quoted (ds ++ cs) ∧ e.word ≠ [] := by
  induction hlen : cs.length using Nat.strongRecOn generalizing cs s d ds fuel with
  | ind m ih =>
    obtain ⟨k, rfl⟩ : ∃ k, fuel = k + 2 := ⟨fuel - 2, by omega⟩
    obtain ⟨xs, hxs, hcs⟩ := exists_stretch cs
    have hclosed := hd.flush.1.closeQuotes xs
    rcases hcs with rfl | ⟨rest, rfl⟩
    · rw [flatMap_quoteChar hxs] at hs ⊢
      exact ⟨_, (baseText_stretch hxs hs hsize).trans (baseText_end hback rfl), hclosed,
        Draft.word_ne_nil (Draft.closeQuotes_ne_nil _ cs)⟩
    · have hbody : (xs ++ '\'' :: rest).flatMap quoteChar =
          xs ++ '\'' :: '\\' :: '\'' :: '\'' :: rest.flatMap quoteChar := by
        rw [List.flatMap_append, flatMap_quoteChar hxs]
        rfl
      have hlength : ((xs ++ '\'' :: rest).flatMap quoteChar).length =
          xs.length + (rest.flatMap quoteChar).length + 4 := by
        rw [hbody]
        simp
        omega
      have hstretch := hd.flush.1.closeQuotes xs
      have hescape := hstretch.addChar '\''
      rw [hlength] at hfuel
      rw [hbody] at hs ⊢
      -- the closing quote, the escaped one and the opening one of the rest
      let back' := '\'' :: (rest.flatMap quoteChar ++ '\'' :: back)
      have hs' : s.rest = '\'' :: (xs ++ '\'' :: '\\' :: '\'' :: back') := by
        rw [hs]
        simp [back']
      let s' := (s.past ('\'' :: (xs ++ ['\''])) ('\\' :: '\'' :: back')).past ['\\', '\''] back'
      have hsmall : s'.rest.length < s'.size := by
        show back'.length < s.size
        rw [hs'] at hsize
        simp at hsize
        omega
      have hstep : baseText n t false (k + 2) d s = baseText n t false k _ s' :=
        (baseText_stretch hxs hs' hsize).trans (baseText_escape rfl)
      obtain ⟨e, he, hquoted, hword⟩ := ih rest.length (by rw [← hlen]; simp; omega) hescape rfl hsmall
        (show (rest.flatMap quoteChar).length + 2 < k by omega) rfl
      refine ⟨e, ?_, ?_, hword⟩
      · rw [hstep, he, Source.past_past, Source.past_past]
        simp
      · simpa using hquoted

/-! ## harmless words -/

theorem Draft.addChar_plain (hd : d.quoted = false) (c : Char) :
    d.addChar c false = { d with chars := c :: d.chars } := by
  rw [Draft.addChar, hd]
  rfl

theorem isHarmless_plain {c : Char} (h : isHarmless c = true) : endsWord c = false ∧
    c ∉ ['\\', '\'', '"', '$', '`', '\x7d', ' ', '\t', '#'] := by
  constructor
  · rw [endsWord, List.contains_eq_mem, decide_eq_false_iff_not]
    intro hm
    simp only [List.mem_cons, List.not_mem_nil, or_false] at hm
    rcases hm with rfl | rfl | rfl | rfl | rfl | rfl | rfl | rfl | rfl | rfl <;> contradiction
  · intro hm
    simp only [List.mem_cons, List.not_mem_nil, or_false] at hm
    rcases hm with rfl | rfl | rfl | rfl | rfl | rfl | rfl | rfl | rfl <;> contradiction

theorem baseText_harmless (hcs : cs.all isHarmless = true) (hd : d.quoted = false) (hs : s.rest = cs ++ back)
    (hback : AtBlank back) (hfuel : cs.length < fuel) :
    baseText n t false fuel d s = .ok ({ d with chars := cs.reverse ++ d.chars }, s.past cs back) := by
  induction cs generalizing d s fuel with
  | nil =>
    obtain ⟨k, rfl⟩ : ∃ k, fuel = k + 1 := ⟨fuel - 1, by omega⟩
    rw [baseText_end hback hs]
    exact congrArg (fun x => Except.ok (d, x)) (Source.past_nil hs).symm
  | cons c cs ih =>
    obtain ⟨k, rfl⟩ : ∃ k, fuel = k + 1 := ⟨fuel - 1, by omega⟩
    rw [List.all_cons, Bool.and_eq_true] at hcs
    obtain ⟨hends, hplain⟩ := isHarmless_plain hcs.1
    have hstep : baseText n t false (k + 1) d s =
        baseText n t false k (d.addChar c false) (s.past [c] (cs ++ back)) := by
      rw [baseText, bind_of_ok peekChar_eq, hs]
      simp only [List.cons_append, List.head?_cons]
      rw [if_neg (by simp [hends]), bind_of_ok (nextChar_cons hs)]
      split <;> first | rfl | exact absurd (by decide) hplain
    have hd' : (d.addChar c false).quoted = false := by
      rw [Draft.addChar_plain hd]
      exact hd
    rw [hstep, ih hcs.2 hd' rfl (Nat.lt_of_succ_lt_succ hfuel), Source.past_past, Draft.addChar_plain hd]
    simp

/-! ## the word of a quoted text -/

theorem literal?_harmless (h : isHarmlessWord cs = true) :
    Word.literal? [.text (String.ofList cs) false] = some (String.ofList cs) := by
  have hpart : Part.literal? (.text (String.ofList cs) false) = some cs := by
    rw [Part.literal?, String.toList_ofList, if_pos h]
  simp [Word.literal?, hpart]

theorem readWord_quote (hs : s.rest = quoteChars cs ++ back) (hback : AtBlank back)
    (hsize : s.rest.length < s.size) :
    ∃ d, readWord n s = .ok (d, s.past (quoteChars cs) back) ∧
      Word.literal? d.word = some (String.ofList cs) := by
  have hread : readWord n s = baseText n (textReaders n maxNesting) false s.size {} s := rfl
  have hlength : (quoteChars cs).length < s.size := by
    rw [hs, List.length_append] at hsize
    omega
  rw [hread]
  by_cases hcs : isHarmlessWord cs = true
  · obtain ⟨hne, hall⟩ := (Bool.and_eq_true _ _).mp hcs
    rw [quoteChars_harmless hcs] at hs hlength ⊢
    refine ⟨_, baseText_harmless hall rfl hs hback hlength, ?_⟩
    have hword : Draft.word { chars := cs.reverse ++ [] } = [.text (String.ofList cs) false] := by
      rw [Draft.word, Draft.flush, if_neg (by simpa using hne)]
      simp
    show Word.literal? (Draft.word { chars := cs.reverse ++ [] }) = _
    rw [hword, literal?_harmless hcs]
  · have hquote : quoteChars cs = '\'' :: (cs.flatMap quoteChar ++ ['\'']) := by
      rw [quoteChars, if_neg hcs]
    rw [hquote] at hs hlength ⊢
    have hs' : s.rest = '\'' :: (cs.flatMap quoteChar ++ '\'' :: back) := by
      rw [hs, List.cons_append, List.append_assoc, List.singleton_append]
    rw [List.length_cons, List.length_append, List.length_singleton] at hlength
    obtain ⟨e, he, hquoted, hword⟩ := baseText_stretches Draft.quoted_empty hs' hback hsize hlength
    exact ⟨e, he, hquoted.literal? hword⟩

theorem quoteChars_head (cs : List Char) : ∃ c rest, quoteChars cs = c :: rest ∧ endsWord c = false ∧
    c ∉ ['\\', ' ', '\t', '#'] := by
  unfold quoteChars
  split
  next hcs =>
    cases cs with
    | nil => contradiction
    | cons c cs =>
      have hall := List.all_eq_true.mp ((Bool.and_eq_true _ _).mp hcs).2
      obtain ⟨hends, hplain⟩ := isHarmless_plain (hall c List.mem_cons_self)
      refine ⟨c, cs, rfl, hends, fun hm => hplain ?_⟩
      simp only [List.mem_cons, List.not_mem_nil, or_false] at hm ⊢
      rcases hm with rfl | rfl | rfl | rfl <;> simp
  next => exact ⟨'\'', _, rfl, by decide, by decide⟩

theorem begins_quoteChars (cs back : List Char) : Begins (quoteChars cs ++ back) := by
  obtain ⟨c, rest, hhead, _, hplain⟩ := quoteChars_head cs
  intro x hx
  rw [hhead] at hx
  obtain rfl := Option.some.inj hx
  simp only [List.mem_cons, List.not_mem_nil, or_false, not_or] at hplain
  exact ⟨hplain.2.1, hplain.2.2.1, hplain.2.2.2, hplain.1⟩

/-- a quoted text is one word, and it stands for the text -/
theorem scan_quote (hs : s.rest = quoteChars cs ++ back) (hback : AtBlank back)
    (hsize : s.rest.length < s.size) :
    ∃ w, scan n s = .ok (.word w, s.past (quoteChars cs) back) ∧ Word.literal? w = some (String.ofList cs) := by
  obtain ⟨c, rest, hhead, hends, _⟩ := quoteChars_head cs
  obtain ⟨d, hd, hliteral⟩ := @readWord_quote n s cs back hs hback hsize
  have hbegins : Begins s.rest := hs ▸ begins_quoteChars cs back
  have hfirst : s.rest.head? = some c := by
    rw [hs, hhead]
    rfl
  refine ⟨d.word, ?_, hliteral⟩
  rw [scan, bind_of_ok fuelLeft_eq, bind_of_ok (skipBlanks_begins hbegins hsize), bind_of_ok peekChar_eq,
    hfirst]
  dsimp only
  rw [if_pos (by rw [hends]; rfl), bind_of_ok hd, bind_of_ok peekChar_eq]
  -- a lone digit would belong to the operator of a redirection, but none follows
  have hnext : back.head? = none ∨ back.head? = some ' ' := by
    cases hb : back.head? with
    | none => exact .inl rfl
    | some x => exact .inr (congrArg some (hback x hb))
  have hrest : (s.past (quoteChars cs) back).rest.head? = back.head? := rfl
  rw [hrest]
  rcases hnext with hnext | hnext <;>
  · rw [hnext]
    repeat' split
    all_goals rfl

theorem lexeme_quote {gap : List Char} (hgap : Gap gap) (hs : s.rest = gap ++ (quoteChars cs ++ back))
    (hback : AtBlank back) (hsize : s.rest.length < s.size) :
    ∃ w, lexeme n s = .ok ([.word w], s.past (gap ++ quoteChars cs) back) ∧
      Word.literal? w = some (String.ofList cs) := by
  have hsize' : (quoteChars cs ++ back).length < s.size := by
    rw [hs, List.length_append] at hsize
    omega
  obtain ⟨w, hscan, hw⟩ := @scan_quote n (s.past gap (quoteChars cs ++ back)) cs back rfl hback hsize'
  refine ⟨w, ?_, hw⟩
  rw [lexeme_gap hgap (begins_quoteChars cs back) hs hsize, lexeme, bind_of_ok hscan, Source.past_past]
  rfl

end

/-! ## from texts to bytes -/

theorem isHarmless_byte : ∀ k < 256, 128 ≤ k → isHarmless (Char.ofNat k) = false := by decide +kernel

theorem isHarmless_ascii {c : Char} (h : isHarmless c = true) : c.toNat < 128 := by
  rcases (Bool.or_eq_true _ _).mp h with h | h
  · delta Char.isAlphanum Char.isAlpha Char.isUpper Char.isLower Char.isDigit at h
    simp only [Bool.or_eq_true, Bool.and_eq_true, decide_eq_true_eq, ge_iff_le, UInt32.le_iff_toNat_le] at h
    show c.val.toNat < 128
    have hlast : 'Z'.val.toNat = 90 ∧ 'z'.val.toNat = 122 ∧ '9'.val.toNat = 57 := by decide
    omega
  · simp only [List.contains_eq_mem, decide_eq_true_eq, List.mem_cons, List.not_mem_nil, or_false] at h
    rcases h with rfl | rfl | rfl | rfl | rfl | rfl | rfl | rfl | rfl | rfl <;> decide

theorem all_spell (c : Char) : (Raw.spell c).all isHarmless = isHarmless c := by
  by_cases hc : c.toNat < 128
  · rw [Raw.spell_ascii hc, List.all_cons, List.all_nil, Bool.and_true]
  · rw [Bool.eq_false_iff.mpr fun h => hc (isHarmless_ascii h), List.all_eq_false]
    obtain ⟨x, hx⟩ := List.exists_mem_of_ne_nil _ (Raw.spell_ne_nil c)
    refine ⟨x, hx, ?_⟩
    obtain ⟨b, hb, rfl⟩ := List.mem_map.mp hx
    rw [isHarmless_byte b.toNat b.toNat_lt (Raw.le_of_mem_encodeChar hc hb)]
    exact Bool.false_ne_true

theorem isHarmlessWord_spell (cs : List Char) :
    isHarmlessWord (cs.flatMap Raw.spell) = isHarmlessWord cs := by
  have hall : (cs.flatMap Raw.spell).all isHarmless = cs.all isHarmless := by
    rw [List.all_flatMap]
    exact congrArg cs.all (funext all_spell)
  have hempty : (cs.flatMap Raw.spell).isEmpty = cs.isEmpty := by
    cases cs with
    | nil => rfl
    | cons c cs => simp [Raw.spell_ne_nil]
  rw [isHarmlessWord, isHarmlessWord, hall, hempty]

theorem flatMap_quoteChar_spell (cs : List Char) :
    (cs.flatMap quoteChar).flatMap Raw.spell = (cs.flatMap Raw.spell).flatMap quoteChar := by
  rw [List.flatMap_assoc, List.flatMap_assoc]
  refine List.flatMap_congr fun c _ => ?_
  by_cases hc : c = '\''
  · obtain rfl := hc
    decide
  · rw [flatMap_quoteChar (Raw.notMem_spell (by decide) hc), quoteChar, if_neg hc, List.flatMap_singleton]

/-- quoting goes by bytes as it goes by characters -/
theorem ofText_quote (s : String) : Raw.ofText (quote s) = quote (Raw.ofText s) := by
  have hquote : Raw.spell '\'' = ['\''] := Raw.spell_ascii (by decide)
  rw [← String.toList_inj, Raw.toList_ofText, quote, quote, String.toList_ofList, String.toList_ofList,
    Raw.toList_ofText, quoteChars, quoteChars, isHarmlessWord_spell]
  split
  · rfl
  · rw [List.flatMap_cons, List.flatMap_append, flatMap_quoteChar_spell, List.flatMap_singleton, hquote]
    rfl

theorem toList_ofText_quote (s : String) :
    (Raw.ofText (quote s)).toList = quoteChars (Raw.ofText s).toList := by
  rw [ofText_quote, quote, String.toList_ofList]

/-! ## many words -/

theorem quoteAll_singleton (a : String) : quoteAll [a] = quote a := by
  rw [quoteAll, List.map_singleton, Text.joinWith, String.intercalate_singleton]

theorem quoteAll_cons_cons (a b : String) (as : List String) :
    quoteAll (a :: b :: as) = quote a ++ (" " ++ quoteAll (b :: as)) := by
  rw [quoteAll, List.map_cons, List.map_cons, Text.joinWith, String.intercalate_cons_cons, String.append_assoc]
  rfl

section
variable {n : Nested} {s : Source} {gap back : List Char}

theorem reads_quoteAll (hgap : Gap gap) (a : String) (as : List String)
    (hs : s.rest = gap ++ ((Raw.ofText (quoteAll (a :: as))).toList ++ back)) (hback : AtBlank back)
    (hsize : s.rest.length < s.size) :
    ∃ ws : List Word,
      Reads n s (ws.map .word) (s.past (gap ++ (Raw.ofText (quoteAll (a :: as))).toList) back) ∧
        ws.map Word.literal? = ((a :: as).map Raw.ofText).map some := by
  induction as generalizing a s gap with
  | nil =>
    rw [quoteAll_singleton, toList_ofText_quote] at hs ⊢
    obtain ⟨w, hread, hw⟩ := @lexeme_quote n s _ back gap hgap hs hback hsize
    rw [String.ofList_toList] at hw
    exact ⟨[w], .single hread, congrArg (fun x => [x]) hw⟩
  | cons b as ih =>
    have htext : (Raw.ofText (quoteAll (a :: b :: as))).toList =
        quoteChars (Raw.ofText a).toList ++ ([' '] ++ (Raw.ofText (quoteAll (b :: as))).toList) := by
      have hblank : Raw.ofText " " = " " := Raw.ofText_ascii (by decide)
      rw [quoteAll_cons_cons, Raw.ofText_append, Raw.ofText_append, String.toList_append, String.toList_append,
        toList_ofText_quote, hblank]
      rfl
    let back' := [' '] ++ ((Raw.ofText (quoteAll (b :: as))).toList ++ back)
    rw [htext] at hs ⊢
    have hs' : s.rest = gap ++ (quoteChars (Raw.ofText a).toList ++ back') := by
      rw [hs]
      simp [back']
    have hsize' : back'.length < s.size := by
      rw [hs', List.length_append, List.length_append] at hsize
      omega
    obtain ⟨w, hread, hw⟩ := @lexeme_quote n s _ back' gap hgap hs' (atBlank_cons _) hsize
    obtain ⟨ws, hreads, hws⟩ := @ih (s.past (gap ++ quoteChars (Raw.ofText a).toList) back') [' ']
      (.blank (.inl rfl) .nil) b rfl hsize'
    refine ⟨w :: ws, ?_, ?_⟩
    · have hall := Reads.next hread hreads
      rw [Source.past_past] at hall
      simpa using hall
    · rw [List.map_cons, hws, hw, String.ofList_toList]
      rfl

end

/-- words that were quoted one by one are read as they were: one word for each, none of which is
expanded or split; this is the command line of an entry with arguments -/
theorem quoteAll_read (n : Nested) (args : List String) :
    (∃ (ws : List Word) (s : Source),
      Reads n (Source.ofText (Raw.ofText (quoteAll args))) (ws.map .word ++ [.eof]) s ∧ s.rest = [] ∧
        ws.map Word.literal? = (args.map Raw.ofText).map some ∧
          ∀ launch depth W S,
            Act.Runs W S (Expansion.allFields (levels launch (depth + 1)) ws) W S (args.map Raw.ofText)) ∧
      ∀ directory file, CompileEntry.commandLine? ⟨directory, file, none, some args⟩ =
        if args.isEmpty then none else some (quoteAll args) := by
  have hread : ∃ (ws : List Word) (s : Source),
      Reads n (Source.ofText (Raw.ofText (quoteAll args))) (ws.map .word ++ [.eof]) s ∧ s.rest = [] ∧
        ws.map Word.literal? = (args.map Raw.ofText).map some := by
    let s₀ := Source.ofText (Raw.ofText (quoteAll args))
    have hsize : s₀.rest.length < s₀.size := Source.length_ofText _
    cases hargs : args with
    | nil =>
      subst hargs
      have hnil : (Raw.ofText (quoteAll [])).toList = [] := by
        rw [show quoteAll [] = "" from rfl, Raw.ofText_ascii (by decide)]
        rfl
      exact ⟨[], s₀, .single (lexeme_eof hnil hsize), hnil, rfl⟩
    | cons a as =>
      subst hargs
      have hs : s₀.rest = [] ++ ((Raw.ofText (quoteAll (a :: as))).toList ++ []) :=
        (List.append_nil _).symm
      obtain ⟨ws, hreads, hws⟩ := @reads_quoteAll n s₀ [] [] .nil a as hs (fun c hc => by contradiction) hsize
      refine ⟨ws, _, hreads.append (.single (lexeme_eof rfl ?_)), rfl, hws⟩
      exact Nat.lt_of_le_of_lt (Nat.zero_le _) hsize
  obtain ⟨ws, s, hreads, hrest, hws⟩ := hread
  refine ⟨⟨ws, s, hreads, hrest, hws, fun launch depth W S => ?_⟩, fun directory file => ?_⟩
  · exact @Expansion.runs_allFields (levels launch (depth + 1)) (levels launch depth) W S ws _ rfl hws
  · cases args with
    | nil => rfl
    | cons a as => rfl

/-- an empty word, blanks, and a quote with what would separate commands -/
example : quoteAll ["", "a b", "it's; #$"] = "'' 'a b' 'it'\\''s; #$'" := by decide +kernel

end IncrementalLint.Shell
