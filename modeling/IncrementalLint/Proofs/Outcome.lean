import IncrementalLint.Outcome
import Mathlib.Data.List.DropRight

/-!
# Which successes count as failures

A success counts as a failure if its output goes on in another line. The rule cuts the blanks at both
ends of the output off and counts the lines of the rest; what it comes to is whether a line feed stands
between two characters that are no blanks.

* `Chars.Padded`              a text with blanks around it;
* `Chars.trim_eq_of_padded`   the blanks around a text do not show in what is left of it;
* `Chars.FeedInside`          a line feed between the first and the last character that is no blank;
* `Chars.feedInside_iff`      a line feed in what is left without the blanks at the ends;
* `Chars.length_lines`        a text that ends in no line feed has a line more than line feeds;
* `Outcome.normalize_exact`   what the rule makes of an outcome.
-/

namespace IncrementalLint

namespace Chars

/-! ## blanks at the ends -/

/-- a text with blanks around it; there may be none -/
def Padded (core cs : List Char) : Prop :=
  ∃ before after, cs = before ++ core ++ after ∧ (∀ c ∈ before, isBlank c = true) ∧
    ∀ c ∈ after, isBlank c = true

section
variable {core cs before after : List Char}

theorem trimStart_append (h : ∀ c ∈ before, isBlank c = true) (cs : List Char) :
    trimStart (before ++ cs) = trimStart cs := List.dropWhile_append_of_pos h

theorem trimEnd_append (h : ∀ c ∈ after, isBlank c = true) (cs : List Char) :
    trimEnd (cs ++ after) = trimEnd cs := by
  have hback : ∀ c ∈ after.reverse, isBlank c = true := fun c hc => h c (List.mem_reverse.mp hc)
  rw [trimEnd, List.reverse_append, List.dropWhile_append_of_pos hback, trimEnd]

theorem trim_of_blank (h : ∀ c ∈ cs, isBlank c = true) : trim cs = [] := by
  rw [trim, trimStart, List.dropWhile_eq_nil_iff.mpr h]
  rfl

/-- the blanks around a text do not show in what is left of it -/
theorem trim_eq_of_padded (h : Padded core cs) : trim cs = trim core := by
  obtain ⟨before, after, rfl, hbefore, hafter⟩ := h
  rw [trim, List.append_assoc, trimStart_append hbefore]
  by_cases hblank : ∀ c ∈ core, isBlank c = true
  · -- nothing is left of the text, so that the blanks behind it are met from the front
    have hall : ∀ c ∈ core ++ after, isBlank c = true := fun c hc =>
      (List.mem_append.mp hc).elim (hblank c) (hafter c)
    rw [trim_of_blank hblank]
    exact trim_of_blank hall
  · have hsolid : ¬(trimStart core).isEmpty = true := by
      rwa [List.isEmpty_iff, trimStart, List.dropWhile_eq_nil_iff]
    have hfront : trimStart (core ++ after) = trimStart core ++ after := by
      rw [trimStart, List.dropWhile_append]
      exact if_neg hsolid
    rw [hfront, trimEnd_append hafter]
    rfl

theorem padded_trim (cs : List Char) : Padded (trim cs) cs := by
  refine ⟨cs.takeWhile isBlank, ((trimStart cs).reverse.takeWhile isBlank).reverse, ?_, ?_, ?_⟩
  · have hend : trim cs ++ ((trimStart cs).reverse.takeWhile isBlank).reverse = trimStart cs := by
      rw [trim, trimEnd, ← List.reverse_append, List.takeWhile_append_dropWhile, List.reverse_reverse]
    rw [List.append_assoc, hend]
    exact List.takeWhile_append_dropWhile.symm
  · exact fun c hc => List.mem_takeWhile_imp hc
  · exact fun c hc => List.mem_takeWhile_imp (List.mem_reverse.mp hc)

/-- what is left ends in a character that is no blank -/
theorem getLast_trim (h : trim cs ≠ []) : isBlank ((trim cs).getLast h) = false :=
  Bool.eq_false_iff.mpr (List.rdropWhile_last_not isBlank (trimStart cs) h)

/-- and starts with one -/
theorem head_trim (h : trim cs ≠ []) : isBlank ((trim cs).head h) = false := by
  have hfront : trim cs <+: trimStart cs := List.rdropWhile_prefix isBlank (trimStart cs)
  have hne : trimStart cs ≠ [] := fun hnil => h (List.prefix_nil.mp (hnil ▸ hfront))
  rw [hfront.head h]
  exact List.head_dropWhile_not isBlank hne

end

/-! ## line feeds within -/

/-- a line feed stands somewhere between the first and the last character that is no blank -/
def FeedInside (cs : List Char) : Prop :=
  ∃ first middle last, Padded (first :: (middle ++ [last])) cs ∧ isBlank first = false ∧
    isBlank last = false ∧ '\n' ∈ middle

/-- a text that starts and ends with no blank has nothing to cut off -/
theorem trim_of_solid {first last : Char} {middle : List Char} (hfirst : isBlank first = false)
    (hlast : isBlank last = false) : trim (first :: (middle ++ [last])) = first :: (middle ++ [last]) := by
  rw [trim, trimStart_cons hfirst, trimEnd]
  simp [hlast]

theorem feedInside_iff {cs : List Char} : FeedInside cs ↔ '\n' ∈ trim cs := by
  constructor
  · rintro ⟨first, middle, last, hpadded, hfirst, hlast, hfeed⟩
    rw [trim_eq_of_padded hpadded, trim_of_solid hfirst hlast]
    exact List.mem_cons_of_mem first (List.mem_append_left [last] hfeed)
  · intro hfeed
    have hne : trim cs ≠ [] := List.ne_nil_of_mem hfeed
    have hblank : isBlank '\n' = true := rfl
    have hfirst := head_trim hne
    have hlast := getLast_trim hne
    have hpadded := padded_trim cs
    -- a line feed is a blank, and so it is neither the first character nor the last one
    generalize trim cs = core at hfeed hne hfirst hlast hpadded
    obtain ⟨first, rest, rfl⟩ := List.exists_cons_of_ne_nil hne
    have hrest : '\n' ∈ rest := (List.mem_cons.mp hfeed).resolve_left fun he => by
      rw [List.head_cons, ← he, hblank] at hfirst
      contradiction
    obtain ⟨middle, last, rfl⟩ := (List.eq_nil_or_concat' rest).resolve_left (List.ne_nil_of_mem hrest)
    rw [List.getLast_cons (by simp), List.getLast_concat] at hlast
    refine ⟨first, middle, last, hpadded, hfirst, hlast, ?_⟩
    refine (List.mem_append.mp hrest).resolve_right fun he => ?_
    rw [← List.mem_singleton.mp he, hblank] at hlast
    contradiction

/-! ## counting lines -/

theorem length_linesFrom {c : Char} (h : c ≠ '\n') (acc cs : List Char) :
    (linesFrom acc (cs ++ [c])).length = cs.count '\n' + 1 := by
  induction cs generalizing acc with
  | nil =>
    rw [List.nil_append, linesFrom, if_neg h]
    rfl
  | cons d cs ih =>
    rw [List.cons_append, linesFrom]
    by_cases hd : d = '\n'
    · rw [if_pos hd, List.length_cons, ih, hd, List.count_cons_self]
    · rw [if_neg hd, ih, List.count_cons_of_ne hd]

/-- a text that ends in no line feed has a line more than line feeds, whatever else ends its lines -/
theorem length_lines {c : Char} (h : c ≠ '\n') (cs : List Char) :
    (lines (cs ++ [c])).length = cs.count '\n' + 1 := length_linesFrom h [] cs

/-- what is left without the blanks at the ends has more than one line if a line feed is in it -/
theorem one_lt_length_lines_trim {cs : List Char} : 1 < (lines (trim cs)).length ↔ '\n' ∈ trim cs := by
  rcases List.eq_nil_or_concat' (trim cs) with hnil | ⟨front, last, hconcat⟩
  · rw [hnil]
    decide
  · have hsolid : trim cs ≠ [] := by simp [hconcat]
    have hlast : isBlank last = false := by simpa [hconcat] using getLast_trim hsolid
    have hne : last ≠ '\n' := fun he => by
      rw [he] at hlast
      contradiction
    rw [hconcat, length_lines hne, Nat.lt_add_left_iff_pos, List.count_pos_iff, List.mem_append,
      List.mem_singleton]
    exact (or_iff_left hne.symm).symm

end Chars

/-! ## the rule -/

namespace Outcome

theorem multiline_iff {text : String} : multiline text = true ↔ Chars.FeedInside text.toList := by
  rw [multiline, decide_eq_true_iff, Text.lines, List.length_map, Text.trim, String.toList_ofList,
    gt_iff_lt, Chars.one_lt_length_lines_trim, Chars.feedInside_iff]

/-- a failure is left as it is -/
theorem normalize_of_ne {o : Outcome} (h : o.result ≠ 0) : o.normalize = o := by
  rw [normalize, if_neg (by simp [h])]

theorem normalize_of_feed {o : Outcome} (h : o.result = 0) (hf : Chars.FeedInside o.output.toList) :
    o.normalize = ⟨multilineResult, o.output⟩ := by
  rw [normalize, if_pos (by simp [h, multiline_iff.mpr hf])]

theorem normalize_of_noFeed {o : Outcome} (hf : ¬Chars.FeedInside o.output.toList) : o.normalize = o := by
  rw [normalize, if_neg (by simp [multiline_iff.not.mpr hf])]

/-- a success with a line feed inside its output becomes a failure, and all else stays as it is; so the
rule changes nothing when it is used again, and blanks at the ends of an output do not matter to it -/
theorem normalize_exact (o : Outcome) :
    o.normalize.output = o.output ∧
      (o.result ≠ 0 → o.normalize.result = o.result) ∧
      (o.result = 0 → (o.normalize.result = 127 ↔ Chars.FeedInside o.output.toList) ∧
        (o.normalize.result = 0 ↔ ¬Chars.FeedInside o.output.toList)) ∧
      o.normalize.normalize = o.normalize ∧
      (o.normalize.result = 0 → o.result = 0) ∧
      ∀ (o' : Outcome) (core : List Char), o'.result = o.result → Chars.Padded core o.output.toList →
        Chars.Padded core o'.output.toList → o'.normalize.result = o.normalize.result := by
  have hdiffer : multilineResult ≠ 0 := by decide
  have hpassed : o.normalize.result = 0 → o.result = 0 := fun h =>
    eq_of_beq (passed_normalize (beq_iff_eq.mpr h))
  refine ⟨output_normalize o, fun h => by rw [normalize_of_ne h], fun h => ?_, ?_, hpassed, ?_⟩
  · by_cases hf : Chars.FeedInside o.output.toList
    · rw [normalize_of_feed h hf]
      exact ⟨iff_of_true rfl hf, iff_of_false hdiffer (not_not_intro hf)⟩
    · rw [normalize_of_noFeed hf, h]
      exact ⟨iff_of_false (by decide) hf, iff_of_true rfl hf⟩
  · by_cases h : o.normalize.result = 0
    · -- it was a success that stayed one, so no line feed is in the output, which is still the same
      have hf : ¬Chars.FeedInside o.output.toList := fun hf => by
        rw [normalize_of_feed (hpassed h) hf] at h
        exact hdiffer h
      rw [normalize_of_noFeed hf, normalize_of_noFeed hf]
    · exact normalize_of_ne h
  · intro o' core hresult hcore hcore'
    have hsame : Chars.FeedInside o'.output.toList ↔ Chars.FeedInside o.output.toList := by
      rw [Chars.feedInside_iff, Chars.feedInside_iff, Chars.trim_eq_of_padded hcore,
        Chars.trim_eq_of_padded hcore']
    by_cases h : o.result = 0
    · by_cases hf : Chars.FeedInside o.output.toList
      · rw [normalize_of_feed h hf, normalize_of_feed (hresult.trans h) (hsame.mpr hf)]
      · rw [normalize_of_noFeed hf, normalize_of_noFeed (hsame.not.mpr hf), hresult]
    · rw [normalize_of_ne h, normalize_of_ne (hresult ▸ h), hresult]

/-- a carriage return ends no line of its own, and a line may be empty -/
example : ["a\rb\r\n", "\x0b a \u2028\n\n", "a\n\nb", "\na\r\nb"].map
    (fun text => (normalize ⟨0, text⟩).result) = [0, 0, 127, 127] := by decide

end Outcome

end IncrementalLint
