import IncrementalLint.SortedMap
import IncrementalLint.Text.Replace
import IncrementalLint.Text.Blank

/-!
# Paths

A path keeps the text it was written with; what it names is the list of its components. Repeated
separators and inner `.` components carry no meaning, a leading `.` and every `..` do.

* `Component`       the root, `.`, `..` or a name, ordered in this sequence;
* `Path.join`       a path below another one; an absolute path stays what it is;
* `Path.parent?`    the path without its last component, in its own spelling;
* `Path.below?`     the components that follow those of a directory;
* `Path.absolute?`  an absolute spelling, without looking at any file.
-/

namespace IncrementalLint

/-! ## components -/

inductive Component where
  | root
  | current
  | parent
  | name (text : String)
  deriving DecidableEq, Repr, Inhabited

namespace Component

def text : Component → String
  | root => "/"
  | current => "."
  | parent => ".."
  | name t => t

def rank : Component → Nat
  | root => 0
  | current => 1
  | parent => 2
  | name _ => 3

instance : Ord Component := ⟨compareLex (compareOn rank) (compareOn text)⟩

instance : Std.TransOrd Component :=
  inferInstanceAs (Std.TransCmp (compareLex (compareOn rank) (compareOn text)))

theorem eq_of_rank_text {a b : Component} (hr : a.rank = b.rank) (ht : a.text = b.text) : a = b := by
  cases a <;> cases b <;> simp_all [rank, text]

instance : Std.LawfulEqOrd Component where
  compare_self := Std.ReflCmp.compare_self
  eq_of_compare {a b} h := by
    have h' : (compare a.rank b.rank).then (compare a.text b.text) = .eq := h
    rw [Ordering.then_eq_eq] at h'
    exact eq_of_rank_text (Std.LawfulEqCmp.eq_of_compare h'.1) (Std.LawfulEqCmp.eq_of_compare h'.2)

end Component

/-! ## pieces of the text -/

namespace PathText

def isSlash (c : Char) : Bool := c == '/'

/-- a piece between separators that names nothing -/
def isIdle (piece : List Char) : Bool := piece == [] || piece == ['.']

def componentOf (piece : List Char) : Component :=
  if piece = ['.', '.'] then .parent else .name (String.ofList piece)

def isAbsolute : List Char → Bool
  | '/' :: _ => true
  | _ => false

/-- whether a relative path starts with a `.` component of its own -/
def startsHere (cs : List Char) : Bool := cs.takeWhile (· != '/') == ['.']

/-- the root or the leading `.`, and the text behind it -/
def splitHead (cs : List Char) : List Char × List Char :=
  if isAbsolute cs || startsHere cs then (cs.take 1, cs.drop 1) else ([], cs)

def join (pieces : List (List Char)) : List Char := List.intercalate ['/'] pieces

/-- a body without the separators and idle pieces at its end -/
def dropIdleEnd (pieces : List (List Char)) : List (List Char) :=
  (pieces.reverse.dropWhile isIdle).reverse

/-! ### pieces put together -/

@[simp] theorem join_nil : join [] = [] := rfl

@[simp] theorem join_singleton (x : List Char) : join [x] = x := by simp [join, List.intercalate]

@[simp] theorem join_cons_cons (x y : List Char) (ps : List (List Char)) :
    join (x :: y :: ps) = x ++ '/' :: join (y :: ps) := by
  simp [join, List.intercalate]

/-- cutting at separators and putting together again changes nothing -/
theorem join_splitAt (cs : List Char) : join (Chars.splitAt isSlash cs) = cs := by
  induction cs with
  | nil => rfl
  | cons c cs ih =>
    simp only [Chars.splitAt]
    cases hs : Chars.splitAt isSlash cs with
    | nil => exact absurd hs (Chars.splitAt_ne_nil _ _)
    | cons w ws =>
      rw [hs] at ih
      split
      next hc =>
        have : c = '/' := by simpa [isSlash] using hc
        rw [join_cons_cons, ih, this]
        rfl
      · cases ws with
        | nil => simpa using ih
        | cons v vs => simpa using ih

theorem length_join_append (a b : List (List Char)) :
    (join a).length + (join b).length ≤ (join (a ++ b)).length := by
  induction a with
  | nil => simp
  | cons x a ih =>
    cases a with
    | nil =>
      cases b with
      | nil => simp
      | cons y b => simp
    | cons y a =>
      rw [List.cons_append, List.cons_append, join_cons_cons, join_cons_cons]
      rw [List.cons_append] at ih
      simp only [List.length_append, List.length_cons]
      omega

theorem dropIdleEnd_front (ps : List (List Char)) : dropIdleEnd ps <+: ps := by
  have := List.reverse_prefix.mpr (List.dropWhile_suffix isIdle (l := ps.reverse))
  rwa [List.reverse_reverse] at this

theorem length_join_dropIdleEnd (ps : List (List Char)) :
    (join (dropIdleEnd ps)).length ≤ (join ps).length := by
  obtain ⟨t, ht⟩ := dropIdleEnd_front ps
  have := length_join_append (dropIdleEnd ps) t
  rw [ht] at this
  omega

theorem getLast_dropIdleEnd {ps : List (List Char)} (h : dropIdleEnd ps ≠ []) :
    isIdle ((dropIdleEnd ps).getLast h) = false := by
  unfold dropIdleEnd at h ⊢
  rw [List.getLast_reverse]
  simpa using List.head_dropWhile_not isIdle (by simpa using h)

/-- without its last piece that is not idle, a body is shorter -/
theorem length_join_parent {ps : List (List Char)} (h : dropIdleEnd ps ≠ []) :
    (join (dropIdleEnd (dropIdleEnd ps).dropLast)).length < (join ps).length := by
  have hlast : (dropIdleEnd ps).getLast h ≠ [] := by
    intro he
    have := getLast_dropIdleEnd h
    simp [he, isIdle] at this
  have hpos := List.length_pos_iff.mpr hlast
  have hsum := length_join_append (dropIdleEnd ps).dropLast [(dropIdleEnd ps).getLast h]
  rw [List.dropLast_concat_getLast, join_singleton] at hsum
  have h1 := length_join_dropIdleEnd (dropIdleEnd ps).dropLast
  have h2 := length_join_dropIdleEnd ps
  omega

theorem dropIdleEnd_ne_nil {ps : List (List Char)} {x : List Char} (hx : x ∈ ps) (h : isIdle x = false) :
    dropIdleEnd ps ≠ [] := by
  intro hnil
  have hdrop : ps.reverse.dropWhile isIdle = [] := List.reverse_eq_nil_iff.mp hnil
  have hall : ps.reverse.all isIdle = true := by
    rw [← List.takeWhile_append_dropWhile (p := isIdle) (l := ps.reverse), hdrop, List.append_nil]
    exact List.all_takeWhile
  rw [List.all_eq_true.mp hall x (List.mem_reverse.mpr hx)] at h
  contradiction

/-- a character that separates nothing is in a piece -/
theorem exists_mem_splitAt {c : Char} (hc : c ≠ '/') {cs : List Char} (h : c ∈ cs) :
    ∃ x ∈ Chars.splitAt isSlash cs, c ∈ x := by
  rw [← join_splitAt cs] at h
  generalize Chars.splitAt isSlash cs = ps at h ⊢
  induction ps with
  | nil => contradiction
  | cons x ps ih =>
    cases ps with
    | nil => exact ⟨x, List.mem_cons_self, by simpa using h⟩
    | cons y ps =>
      rw [join_cons_cons, List.mem_append, List.mem_cons] at h
      rcases h with h | h | h
      · exact ⟨x, List.mem_cons_self, h⟩
      · exact absurd h hc
      · obtain ⟨z, hz, hmem⟩ := ih h
        exact ⟨z, List.mem_cons_of_mem _ hz, hmem⟩

theorem splitHead_append (cs : List Char) : (splitHead cs).1 ++ (splitHead cs).2 = cs := by
  unfold splitHead
  split
  · exact List.take_append_drop 1 cs
  · rfl

def bodyComponents (body : List Char) : List Component :=
  ((Chars.splitAt isSlash body).filter (fun p => !isIdle p)).map componentOf

def components (cs : List Char) : List Component :=
  if isAbsolute cs then .root :: bodyComponents (cs.drop 1)
  else if startsHere cs then .current :: bodyComponents (cs.drop 1)
  else bodyComponents cs

end PathText

structure Path where
  text : String
  deriving DecidableEq, Repr, Inhabited

namespace Path

def components (p : Path) : List Component := PathText.components p.text.toList
def isAbsolute (p : Path) : Bool := PathText.isAbsolute p.text.toList
def isEmpty (p : Path) : Bool := p.text.isEmpty

/-! ## going down and up -/

/-- `q` as seen from `p` -/
def join (p q : Path) : Path :=
  if q.isAbsolute || p.text.isEmpty then q
  else if p.text.toList.getLast? = some '/' then ⟨p.text ++ q.text⟩
  else ⟨p.text ++ "/" ++ q.text⟩

/-- the path without its last component; none for the root and the empty path -/
def parent? (p : Path) : Option Path :=
  let (head, body) := PathText.splitHead p.text.toList
  match PathText.dropIdleEnd (Chars.splitAt PathText.isSlash body) with
  | [] => if head = ['.'] then some ⟨""⟩ else none
  | ps => some ⟨String.ofList (head ++ PathText.join (PathText.dropIdleEnd ps.dropLast))⟩

theorem length_parent? {p q : Path} (h : p.parent? = some q) :
    q.text.toList.length < p.text.toList.length := by
  unfold parent? at h
  have hsplit : (PathText.splitHead p.text.toList).1 ++ (PathText.splitHead p.text.toList).2 =
      p.text.toList := PathText.splitHead_append _
  generalize PathText.splitHead p.text.toList = s at h hsplit
  obtain ⟨head, body⟩ := s
  simp only at h hsplit
  rw [← hsplit]
  split at h
  · split at h
    next hh => simp [← Option.some.inj h, hh]
    · contradiction
  next hne =>
    have hshort := PathText.length_join_parent hne
    rw [PathText.join_splitAt] at hshort
    simpa [← Option.some.inj h] using hshort

/-- a path with a character that is part of a name has a parent -/
theorem exists_parent {p : Path} {c : Char} (hslash : c ≠ '/') (hdot : c ≠ '.') (h : c ∈ p.text.toList.drop 1) :
    ∃ q, p.parent? = some q := by
  have hbody : c ∈ (PathText.splitHead p.text.toList).2 := by
    unfold PathText.splitHead
    split
    · exact h
    · exact List.mem_of_mem_drop h
  obtain ⟨x, hx, hmem⟩ := PathText.exists_mem_splitAt hslash hbody
  have hname : PathText.isIdle x = false := by
    rw [PathText.isIdle, Bool.or_eq_false_iff, beq_eq_false_iff_ne, beq_eq_false_iff_ne]
    refine ⟨List.ne_nil_of_mem hmem, ?_⟩
    rintro rfl
    exact hdot (List.mem_singleton.mp hmem)
  have hne := PathText.dropIdleEnd_ne_nil hx hname
  unfold parent?
  dsimp only
  split
  next hnil => exact absurd hnil hne
  next => exact ⟨_, rfl⟩

/-- what is left of a list of components behind those of another -/
def dropFront? : List Component → List Component → Option (List Component)
  | [], cs => some cs
  | _ :: _, [] => none
  | d :: ds, c :: cs => if d = c then dropFront? ds cs else none

theorem dropFront?_eq_some_iff {ds cs rest : List Component} :
    dropFront? ds cs = some rest ↔ cs = ds ++ rest := by
  induction ds generalizing cs with
  | nil => simp [dropFront?]
  | cons d ds ih =>
    cases cs with
    | nil => simp [dropFront?]
    | cons c cs =>
      by_cases h : d = c
      · simp [dropFront?, h, ih]
      · simp [dropFront?, h, Ne.symm h]

def below? (p dir : Path) : Option (List Component) := dropFront? dir.components p.components

def extend (p : Path) (cs : List Component) : Path := cs.foldl (fun q c => q.join ⟨c.text⟩) p

/-! ## absolute spellings -/

/-- a path without a leading `.` component -/
def withoutHere (p : Path) : List Component :=
  match p.components with
  | .current :: cs => cs
  | cs => cs

/-- two separators at the front, and no third, stay as they are -/
def hasDoubleRoot (p : Path) : Bool :=
  match p.text.toList with
  | '/' :: '/' :: '/' :: _ => false
  | '/' :: '/' :: _ => true
  | _ => false

/-- an absolute spelling as seen from the directory `cwd`; none for the empty path -/
def absolute? (cwd p : Path) : Option Path :=
  if p.isEmpty then none
  else
    let full :=
      if p.isAbsolute then
        if p.hasDoubleRoot then extend ⟨"//"⟩ (p.components.drop 1) else extend ⟨""⟩ p.components
      else extend cwd p.withoutHere
    some (if p.text.toList.getLast? = some '/' then full.join ⟨""⟩ else full)

end Path

/-! ## sets of paths -/

/-- paths in component order; of equal paths the spelling put in last is kept -/
abbrev PathSet := SortedMap (List Component) Path

namespace PathSet

def ofList (ps : List Path) : PathSet := SortedMap.ofList (ps.map fun p => (p.components, p))
def paths (s : PathSet) : List Path := s.values

end PathSet

end IncrementalLint
