/-!
# Replacing one text by another

`replaceAll pat new s` reads `s` from the left and writes `new` for every occurrence of `pat` that
starts where the last one ended or later. A pattern is never empty here; the empty one changes
nothing.

* `replaceAll_append`      an occurrence at the front is replaced and the rest is read on;
* `replaceAll_pass`        what an occurrence cannot start in stays as it is;
* `contains_iff_infix`     what it means that a text contains another.
-/

namespace IncrementalLint.Chars

/-- what follows `pat` at the front of a text -/
def afterFront? : List Char → List Char → Option (List Char)
  | [], cs => some cs
  | _ :: _, [] => none
  | p :: ps, c :: cs => if p = c then afterFront? ps cs else none

theorem afterFront?_eq_some_iff {pat cs rest : List Char} :
    afterFront? pat cs = some rest ↔ cs = pat ++ rest := by
  induction pat generalizing cs with
  | nil => simp [afterFront?]
  | cons p ps ih =>
    cases cs with
    | nil => simp [afterFront?]
    | cons c cs =>
      by_cases h : p = c
      · simp [afterFront?, h, ih]
      · simp [afterFront?, h, Ne.symm h]

theorem afterFront?_append (pat rest : List Char) : afterFront? pat (pat ++ rest) = some rest :=
  afterFront?_eq_some_iff.2 rfl

theorem afterFront?_cons_of_ne {p c : Char} (h : p ≠ c) (ps cs : List Char) :
    afterFront? (p :: ps) (c :: cs) = none := if_neg h

theorem length_afterFront? {pat cs rest : List Char} (h : afterFront? pat cs = some rest) :
    rest.length = cs.length - pat.length := by
  rw [afterFront?_eq_some_iff.1 h]
  simp

/-- writes `new` for every occurrence of `pat`, from the left -/
def replaceAll (pat new : List Char) (cs : List Char) : List Char :=
  match cs with
  | [] => []
  | c :: rest =>
    match _h : afterFront? pat (c :: rest) with
    | none => c :: replaceAll pat new rest
    | some after =>
      if pat = [] then c :: replaceAll pat new rest
      else new ++ replaceAll pat new after
termination_by cs.length
decreasing_by
  all_goals simp_wf
  have := length_afterFront? _h
  have : 0 < pat.length := List.length_pos_iff.2 ‹_›
  simp only [List.length_cons] at *
  omega

theorem replaceAll_nil (pat new : List Char) : replaceAll pat new [] = [] := by
  unfold replaceAll
  rfl

theorem replaceAll_append {pat : List Char} (h : pat ≠ []) (new rest : List Char) :
    replaceAll pat new (pat ++ rest) = new ++ replaceAll pat new rest := by
  cases pat with
  | nil => contradiction
  | cons p ps =>
    rw [List.cons_append, replaceAll]
    split
    next hn => simp [afterFront?, afterFront?_append] at hn
    next after ha =>
      have : after = rest := by simpa [afterFront?, afterFront?_append] using ha.symm
      simp [this]

theorem replaceAll_cons_of_none {pat rest : List Char} {c : Char} (h : afterFront? pat (c :: rest) = none)
    (new : List Char) : replaceAll pat new (c :: rest) = c :: replaceAll pat new rest := by
  rw [replaceAll]
  split
  · rfl
  next ha => cases ha.symm.trans h

/-- what does not hold the first character of a pattern stays as it is -/
theorem replaceAll_pass {p : Char} {front : List Char} (h : p ∉ front) (ps new rest : List Char) :
    replaceAll (p :: ps) new (front ++ rest) = front ++ replaceAll (p :: ps) new rest := by
  induction front with
  | nil => rfl
  | cons c cs ih =>
    have hc : p ≠ c := fun he => h (he ▸ List.mem_cons_self)
    rw [List.cons_append, replaceAll_cons_of_none (afterFront?_cons_of_ne hc ps _),
      ih (fun hp => h (List.mem_cons_of_mem c hp)), List.cons_append]

def contains (pat : List Char) : List Char → Bool
  | [] => pat.isEmpty
  | c :: cs => (afterFront? pat (c :: cs)).isSome || contains pat cs

theorem contains_iff_infix {pat cs : List Char} : contains pat cs = true ↔ pat <:+: cs := by
  induction cs with
  | nil => simp [contains]
  | cons c cs ih =>
    rw [contains, Bool.or_eq_true, ih, List.infix_cons_iff]
    refine or_congr ?_ Iff.rfl
    constructor
    · intro h
      obtain ⟨r, hr⟩ := Option.isSome_iff_exists.1 h
      exact ⟨r, (afterFront?_eq_some_iff.1 hr).symm⟩
    · rintro ⟨r, hr⟩
      rw [afterFront?_eq_some_iff.2 hr.symm]
      rfl

theorem contains_pass {p : Char} {front : List Char} (h : p ∉ front) (ps rest : List Char) :
    contains (p :: ps) (front ++ rest) = contains (p :: ps) rest := by
  induction front with
  | nil => rfl
  | cons c cs ih =>
    have hc : p ≠ c := fun he => h (he ▸ List.mem_cons_self)
    rw [List.cons_append, contains, afterFront?_cons_of_ne hc,
      ih (fun hp => h (List.mem_cons_of_mem c hp))]
    rfl

end IncrementalLint.Chars

namespace IncrementalLint.Text

def replaceAll (pat new s : String) : String :=
  String.ofList (Chars.replaceAll pat.toList new.toList s.toList)
def contains (pat s : String) : Bool := Chars.contains pat.toList s.toList
def startsWith (s front : String) : Bool := front.toList.isPrefixOf s.toList
def endsWith (s back : String) : Bool := back.toList.isSuffixOf s.toList

/-- the texts with one between each two -/
def joinWith (sep : String) (parts : List String) : String := String.intercalate sep parts

end IncrementalLint.Text
