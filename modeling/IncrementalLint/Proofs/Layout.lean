import IncrementalLint.Listing
import IncrementalLint.Proofs.Cache.Checks

/-!
# Listings as compilers lay them out

A layout is a sequence of make rules with all that a compiler may choose in writing them: what stands
between two words, where a rule goes on in another line, how lines end, and which blank lines stand
among them. Reading the text of a layout gives back its files.

* `Listing.Layout`             rules with a choice for everything between their words;
* `Listing.Layout.text`        what is written;
* `Listing.words_feed`         a listing is read line by line, however the lines end;
* `Listing.lineFiles_append`   behind a blank, all words of a line but a lone backslash are files;
* `Listing.Layout.words_text`  the words that are read are the files of the rules, in their order;
* `Listing.Layout.parse_text`  the paths of the listing: each file once, as it was spelled last.
-/

namespace IncrementalLint

namespace Listing

/-! ## layouts -/

/-- the characters of a text are looked at, and not all that there are -/
instance decidableForallMem (p : Char → Prop) [DecidablePred p] (cs : List Char) : Decidable (∀ c ∈ cs, p c) :=
  List.decidableBAll p cs

/-- blanks that do not end a line; there may be none -/
structure Blanks where
  chars : List Char
  blank : ∀ c ∈ chars, Chars.isBlank c = true := by decide
  noFeed : '\n' ∉ chars := by decide

/-- blanks that keep two words apart -/
structure Gap extends Blanks where
  nonempty : chars ≠ [] := by decide

/-- a word without a blank in it; the target of a rule is one, with the colon at its end -/
structure Word where
  chars : List Char
  nonempty : chars ≠ [] := by decide
  solid : ∀ c ∈ chars, Chars.isBlank c = false := by decide

/-- a word that does not only say that the rule goes on -/
structure FileWord extends Word where
  isFile : chars ≠ ['\\'] := by decide

inductive LineEnd where
  | feed
  | returnFeed

/-- what stands in front of the line feed of a line end -/
def LineEnd.front : LineEnd → List Char
  | feed => []
  | returnFeed => ['\r']

def LineEnd.text (e : LineEnd) : List Char := e.front ++ ['\n']

/-- a line in which there is nothing to see -/
structure BlankLine where
  blanks : Blanks
  lineEnd : LineEnd

def BlankLine.text (b : BlankLine) : List Char := b.blanks.chars ++ b.lineEnd.text

/-- what follows the target of a rule, piece by piece; every piece starts with a blank, and so does the
line in which a rule goes on -/
inductive Piece where
  | file (gap : Gap) (name : FileWord)
  /-- the rule goes on in another line, perhaps behind blank lines -/
  | wrap (gap : Gap) (behind : Blanks) (lineEnd : LineEnd) (blankLines : List BlankLine)

namespace Piece

def text : Piece → List Char
  | file gap name => gap.chars ++ name.chars
  | wrap gap behind lineEnd blankLines =>
    gap.chars ++ '\\' :: (behind.chars ++ lineEnd.text ++ blankLines.flatMap BlankLine.text)

def file? : Piece → Option (List Char)
  | file _ name => some name.chars
  | wrap _ _ _ _ => none

end Piece

structure Rule where
  target : Word
  pieces : List Piece
  /-- what stands behind the last piece -/
  trailing : Blanks

def Rule.text (r : Rule) : List Char := r.target.chars ++ r.pieces.flatMap Piece.text ++ r.trailing.chars

def Rule.files (r : Rule) : List (List Char) := r.pieces.filterMap Piece.file?

inductive Item where
  | blank (b : Blanks)
  | rule (r : Rule)

namespace Item

def text : Item → List Char
  | blank b => b.chars
  | rule r => r.text

def rule? : Item → Option Rule
  | blank _ => none
  | rule r => some r

def files (i : Item) : List (List Char) := i.rule?.toList.flatMap Rule.files

end Item

structure Layout where
  lines : List (Item × LineEnd)
  /-- what stands behind the last line end -/
  last : Item

namespace Layout

def items (l : Layout) : List Item := l.lines.map (·.1) ++ [l.last]

def rules (l : Layout) : List Rule := l.items.filterMap Item.rule?

/-- the files of the rules, in their order -/
def files (l : Layout) : List (List Char) := l.rules.flatMap Rule.files

def text (l : Layout) : List Char := l.lines.flatMap (fun i => i.1.text ++ i.2.text) ++ l.last.text

end Layout

/-! ## lines -/

theorem lineFiles_nil : lineFiles [] = [] := rfl

/-- behind a blank, all words of a line but a lone backslash are files -/
theorem lineFiles_append {c : Char} (h : Chars.isBlank c = true) (a b : List Char) :
    lineFiles (a ++ c :: b) = lineFiles a ++ (Chars.words b).filter fun w => !isContinuation w := by
  cases a with
  | nil =>
    have hstart : startsWithBlank (c :: b) = true := h
    rw [List.nil_append, lineFiles, hstart, Chars.words_cons h]
    rfl
  | cons d a =>
    have hwords : Chars.words (d :: a ++ c :: b) = Chars.words (d :: a) ++ Chars.words b :=
      Chars.words_append h (d :: a) b
    rw [lineFiles, lineFiles, hwords]
    cases hd : Chars.isBlank d with
    | true =>
      have hstart (cs : List Char) : startsWithBlank (d :: cs) = true := hd
      rw [List.cons_append, hstart, hstart, if_pos rfl, if_pos rfl, List.filter_append]
    | false =>
      -- the word at the start of the line is dropped, and it stands in front of the blank
      have hstart (cs : List Char) : startsWithBlank (d :: cs) = false := hd
      have hfirst : Chars.words (d :: a) ≠ [] := by
        rw [Chars.words, Chars.splitAt, hd]
        cases hs : Chars.splitAt Chars.isBlank a with
        | nil => exact absurd hs (Chars.splitAt_ne_nil _ _)
        | cons w ws => simp
      rw [List.cons_append, hstart, hstart, List.drop_append_of_le_length (List.length_pos_iff.mpr hfirst)]
      simp only [Bool.false_eq_true, if_false, List.filter_append]

/-- blanks at the end of a line do not matter -/
theorem lineFiles_blanks {g : List Char} (h : ∀ c ∈ g, Chars.isBlank c = true) (a : List Char) :
    lineFiles (a ++ g) = lineFiles a := by
  cases g with
  | nil => rw [List.append_nil]
  | cons c g =>
    rw [lineFiles_append (h c List.mem_cons_self), Chars.words_of_blank fun d hd => h d (List.mem_cons_of_mem _ hd),
      List.filter_nil, List.append_nil]

/-- so a line is read alike, whether or not a carriage return ends it -/
theorem lineFiles_dropReturn (line : List Char) : lineFiles (Chars.dropReturn line) = lineFiles line := by
  unfold Chars.dropReturn
  split
  next hlast =>
    obtain ⟨a, rfl⟩ := List.getLast?_eq_some_iff.mp hlast
    have hreturn : ∀ c ∈ ['\r'], Chars.isBlank c = true := by decide
    rw [List.dropLast_concat, lineFiles_blanks hreturn]
  next => rfl

def isFeed (c : Char) : Bool := c == '\n'

theorem words_from (acc cs : List Char) : (Chars.linesFrom acc cs).flatMap lineFiles =
    ((Chars.splitAt isFeed cs).modifyHead (acc.reverse ++ ·)).flatMap lineFiles := by
  induction cs generalizing acc with
  | nil =>
    cases acc with
    | nil => rfl
    | cons c acc => simp [Chars.linesFrom, Chars.splitAt]
  | cons c cs ih =>
    rw [Chars.linesFrom, Chars.splitAt]
    by_cases hc : c = '\n'
    · have hstart : (Chars.splitAt isFeed cs).modifyHead (([] : List Char).reverse ++ ·) =
          Chars.splitAt isFeed cs := by
        cases Chars.splitAt isFeed cs <;> rfl
      have hfeed : isFeed c = true := beq_iff_eq.mpr hc
      rw [if_pos hc, if_pos hfeed, List.flatMap_cons, lineFiles_dropReturn, ih, hstart]
      simp
    · have hfeed : ¬isFeed c = true := mt beq_iff_eq.mp hc
      rw [if_neg hc, if_neg hfeed, ih]
      cases hs : Chars.splitAt isFeed cs with
      | nil => exact absurd hs (Chars.splitAt_ne_nil _ _)
      | cons w ws => simp

theorem words_eq (cs : List Char) : words cs = (Chars.splitAt isFeed cs).flatMap lineFiles := by
  rw [words, Chars.lines, words_from]
  cases Chars.splitAt isFeed cs <;> rfl

/-- a listing is read line by line -/
theorem words_feed (a b : List Char) : words (a ++ '\n' :: b) = words a ++ words b := by
  rw [words_eq, Chars.splitAt_append rfl, List.flatMap_append, ← words_eq, ← words_eq]

theorem words_line {line : List Char} (h : '\n' ∉ line) : words line = lineFiles line := by
  have hnone : ∀ c ∈ line, isFeed c = false := by
    intro c hc
    rw [isFeed, beq_eq_false_iff_ne]
    rintro rfl
    exact h hc
  rw [words_eq, Chars.splitAt_of_none hnone, List.flatMap_singleton]

/-- however a line ends -/
theorem words_lineEnd (e : LineEnd) {line : List Char} (h : '\n' ∉ line) (rest : List Char) :
    words (line ++ e.text ++ rest) = lineFiles line ++ words rest := by
  have hfront : (∀ c ∈ e.front, Chars.isBlank c = true) ∧ '\n' ∉ e.front := by
    cases e <;> decide
  have hline : '\n' ∉ line ++ e.front := by
    rw [List.mem_append, not_or]
    exact ⟨h, hfront.2⟩
  have htext : line ++ e.text ++ rest = (line ++ e.front) ++ '\n' :: rest := by
    simp [LineEnd.text]
  rw [htext, words_feed, words_line hline, lineFiles_blanks hfront.1]

/-! ## rules -/

theorem Gap.lineFiles_append (g : Gap) (a b : List Char) :
    lineFiles (a ++ (g.chars ++ b)) = lineFiles a ++ (Chars.words b).filter fun w => !isContinuation w := by
  obtain ⟨⟨chars, hblank, _⟩, hne⟩ := g
  cases chars with
  | nil => exact absurd rfl hne
  | cons c g =>
    have hskip : ∀ g : List Char, (∀ d ∈ g, Chars.isBlank d = true) → Chars.words (g ++ b) = Chars.words b := by
      intro g hg
      induction g with
      | nil => rfl
      | cons d g ih =>
        rw [List.cons_append, Chars.words_cons (hg d List.mem_cons_self)]
        exact ih fun x hx => hg x (List.mem_cons_of_mem _ hx)
    show lineFiles (a ++ c :: (g ++ b)) = _
    rw [Listing.lineFiles_append (hblank c List.mem_cons_self),
      hskip g fun d hd => hblank d (List.mem_cons_of_mem _ hd)]

theorem Word.noFeed (w : Word) : '\n' ∉ w.chars := fun h => absurd (w.solid _ h) (by decide)

theorem Word.words (w : Word) : Chars.words w.chars = [w.chars] := Chars.words_of_solid w.nonempty w.solid

theorem words_blankLines (bs : List BlankLine) (rest : List Char) :
    words (bs.flatMap BlankLine.text ++ rest) = words rest := by
  induction bs with
  | nil => rfl
  | cons b bs ih =>
    have hline : lineFiles b.blanks.chars = [] := lineFiles_blanks b.blanks.blank []
    rw [List.flatMap_cons, BlankLine.text, List.append_assoc, words_lineEnd _ b.blanks.noFeed, hline,
      List.nil_append, ih]

/-- the pieces of a rule behind what is known of its line -/
theorem words_pieces (ps : List Piece) (trailing : Blanks) {a : List Char} (ha : '\n' ∉ a)
    (e : LineEnd) (rest : List Char) :
    words (a ++ ps.flatMap Piece.text ++ trailing.chars ++ e.text ++ rest) =
      lineFiles a ++ ps.filterMap Piece.file? ++ words rest := by
  induction ps generalizing a with
  | nil =>
    have hline : '\n' ∉ a ++ trailing.chars := by
      rw [List.mem_append, not_or]
      exact ⟨ha, trailing.noFeed⟩
    rw [List.flatMap_nil, List.append_nil, words_lineEnd e hline, lineFiles_blanks trailing.blank,
      List.filterMap_nil, List.append_nil]
  | cons p ps ih =>
    cases p with
    | file gap name =>
      have hline : '\n' ∉ a ++ (gap.chars ++ name.chars) := by
        simp only [List.mem_append, not_or]
        exact ⟨ha, gap.noFeed, name.noFeed⟩
      have hfile : lineFiles (a ++ (gap.chars ++ name.chars)) = lineFiles a ++ [name.chars] := by
        rw [gap.lineFiles_append, name.words]
        simp [isContinuation, name.isFile]
      have hgoal := ih hline
      rw [hfile] at hgoal
      simpa [Piece.text, Piece.file?, List.append_assoc] using hgoal
    | wrap gap behind lineEnd blankLines =>
      have hline : '\n' ∉ a ++ (gap.chars ++ '\\' :: behind.chars) := by
        simp only [List.mem_append, List.mem_cons, not_or]
        exact ⟨ha, gap.noFeed, by decide, behind.noFeed⟩
      have hfile : lineFiles (a ++ (gap.chars ++ '\\' :: behind.chars)) = lineFiles a := by
        have hsplit : a ++ (gap.chars ++ '\\' :: behind.chars) = a ++ (gap.chars ++ ['\\']) ++ behind.chars := by
          simp
        have hmark : Chars.words ['\\'] = [['\\']] := by decide
        rw [hsplit, lineFiles_blanks behind.blank, gap.lineFiles_append, hmark]
        simp [isContinuation]
      -- the rule goes on at the start of a line, of which nothing is known yet
      have hrest := ih (a := []) (by simp)
      rw [lineFiles_nil, List.nil_append, List.nil_append] at hrest
      have htext : a ++ (Piece.wrap gap behind lineEnd blankLines :: ps).flatMap Piece.text ++
          trailing.chars ++ e.text ++ rest =
          a ++ (gap.chars ++ '\\' :: behind.chars) ++ lineEnd.text ++ (blankLines.flatMap BlankLine.text ++
            (ps.flatMap Piece.text ++ trailing.chars ++ e.text ++ rest)) := by
        simp [Piece.text]
      rw [htext, words_lineEnd lineEnd hline, hfile, words_blankLines, hrest, List.append_assoc]
      rfl

theorem lineFiles_target (w : Word) : lineFiles w.chars = [] := by
  have hstart : startsWithBlank w.chars = false := by
    cases hw : w.chars with
    | nil => rfl
    | cons c cs => exact w.solid c (by simp [hw])
  rw [lineFiles, hstart, w.words]
  rfl

theorem words_item (i : Item) (e : LineEnd) (rest : List Char) :
    words (i.text ++ e.text ++ rest) = i.files ++ words rest := by
  cases i with
  | blank b =>
    have hline : lineFiles b.chars = [] := lineFiles_blanks b.blank []
    rw [Item.text, words_lineEnd e b.noFeed, hline]
    rfl
  | rule r =>
    rw [Item.text, Rule.text, words_pieces r.pieces r.trailing r.target.noFeed, lineFiles_target]
    simp [Item.files, Item.rule?, Rule.files]

namespace Layout

theorem files_eq (l : Layout) : l.files = l.items.flatMap Item.files := by
  have hitems (is : List Item) : (is.filterMap Item.rule?).flatMap Rule.files = is.flatMap Item.files := by
    induction is with
    | nil => rfl
    | cons i is ih =>
      rw [List.flatMap_cons, ← ih]
      cases i with
      | blank b => rfl
      | rule r => simp [Item.rule?, Item.files]
  exact hitems l.items

/-- what is read of the text of a layout are the files of its rules -/
theorem words_text (l : Layout) : words l.text = l.files := by
  -- a line feed at the end of a text adds a line without words
  have hend (cs : List Char) : words (cs ++ '\n' :: []) = words cs := by
    rw [words_feed]
    exact List.append_nil _
  have hlast : words l.last.text = l.last.files := by
    have hitem := words_item l.last .feed []
    rw [List.append_nil] at hitem
    rw [← hend]
    exact hitem.trans (List.append_nil _)
  have hlines (is : List (Item × LineEnd)) :
      words (is.flatMap (fun i => i.1.text ++ i.2.text) ++ l.last.text) =
        (is.map (·.1) ++ [l.last]).flatMap Item.files := by
    induction is with
    | nil => simpa using hlast
    | cons i is ih => rw [List.flatMap_cons, List.append_assoc, words_item, ih]; rfl
  rw [files_eq]
  exact hlines l.lines

end Layout

end Listing

/-! ## the set of the files -/

/-- a path of a list behind which no other one has the same components -/
def Path.LastSpelled (ps : List Path) (p : Path) : Prop :=
  ∃ front back, ps = front ++ p :: back ∧ ∀ q ∈ back, q.components ≠ p.components

theorem PathSet.mem_paths_ofList {ps : List Path} {p : Path} : p ∈ (ofList ps).paths ↔ p.LastSpelled ps := by
  have hentry (e : List Component × Path) : e ∈ (ofList ps).entries ↔
      ∃ front back, ps.map (fun p => (p.components, p)) = front ++ e :: back ∧ e.1 ∉ back.map (·.1) := by
    have hmem := SortedMap.mem_toList_iff (ofList ps) e.1 e.2
    exact hmem.trans SortedMap.get?_ofList_iff_last
  constructor
  · intro h
    obtain ⟨e, he, rfl⟩ := List.mem_map.mp h
    obtain ⟨front, back, hsplit, hback⟩ := (hentry e).mp he
    obtain ⟨front', rest, rfl, _, hrest⟩ := List.map_eq_append_iff.mp hsplit
    obtain ⟨p, back', rfl, rfl, rfl⟩ := List.map_eq_cons_iff.mp hrest
    refine ⟨front', back', rfl, fun q hq hcomponents => hback ?_⟩
    rw [List.map_map]
    exact List.mem_map.mpr ⟨q, hq, hcomponents⟩
  · rintro ⟨front, back, rfl, hback⟩
    refine List.mem_map.mpr ⟨(p.components, p), (hentry _).mpr ⟨_, _, by rw [List.map_append]; rfl, ?_⟩, rfl⟩
    rw [List.map_map]
    rintro hmem
    obtain ⟨q, hq, hcomponents⟩ := List.mem_map.mp hmem
    exact hback q hq hcomponents

/-- every path of a list has the components of one that comes last -/
theorem PathSet.exists_mem_paths_ofList {ps : List Path} {p : Path} (h : p ∈ ps) :
    ∃ q ∈ (ofList ps).paths, q.components = p.components := by
  have hentry : (p.components, p) ∈ ps.map fun p => (p.components, p) := List.mem_map_of_mem h
  obtain ⟨q, hq⟩ := SortedMap.exists_get?_ofList hentry
  have hmem := (SortedMap.mem_toList_iff (ofList ps) _ _).mpr hq
  obtain ⟨r, _, hr⟩ := List.mem_map.mp (SortedMap.mem_of_get?_ofList hq)
  obtain ⟨hcomponents, rfl⟩ := Prod.mk.inj hr
  exact ⟨r, List.mem_map.mpr ⟨_, hmem, rfl⟩, hcomponents⟩

namespace Listing

/-- the path that a word spells -/
def pathOf (word : List Char) : Path := ⟨String.ofList word⟩

/-- reading a layout gives back its files, and no target that is not one of them: each path once, in
the spelling that came last, and all of them in the order of their components -/
theorem Layout.parse_text (l : Layout) :
    (∀ p, p ∈ (parse (String.ofList l.text)).paths ↔ p.LastSpelled (l.files.map pathOf)) ∧
      (∀ word ∈ l.files, ∃ p ∈ (parse (String.ofList l.text)).paths,
        p.components = (pathOf word).components) ∧
      (∀ r ∈ l.rules, pathOf r.target.chars ∈ (parse (String.ofList l.text)).paths →
        r.target.chars ∈ l.files) ∧
      (parse (String.ofList l.text)).paths.Pairwise fun p q => compare p.components q.components = .lt := by
  have hparse : parse (String.ofList l.text) = PathSet.ofList (l.files.map pathOf) := by
    rw [parse, String.toList_ofList, l.words_text]
    rfl
  rw [hparse]
  refine ⟨fun p => PathSet.mem_paths_ofList, fun word hword => ?_, fun r _ htarget => ?_, PathSet.increasing _⟩
  · exact PathSet.exists_mem_paths_ofList (List.mem_map_of_mem hword)
  · obtain ⟨front, back, hsplit, _⟩ := PathSet.mem_paths_ofList.mp htarget
    have hmem : pathOf r.target.chars ∈ l.files.map pathOf := by simp [hsplit]
    obtain ⟨word, hword, hpath⟩ := List.mem_map.mp hmem
    rwa [← String.ofList_injective (congrArg Path.text hpath)]

/-- a rule over two lines behind a blank one, in which a file comes again in another spelling -/
example : ∃ l : Layout, l.text = "\r\na.o: src/a.cc \\\n\tsrc/b.hh ./src//b.hh\n".toList ∧
    l.files = ["src/a.cc".toList, "src/b.hh".toList, "./src//b.hh".toList] := by
  let blank : Gap := { chars := [' '] }
  let tab : Gap := { chars := ['\t'] }
  let rule : Rule := {
    target := { chars := "a.o:".toList }
    pieces := [.file blank { chars := "src/a.cc".toList }, .wrap blank { chars := [] } .feed [],
      .file tab { chars := "src/b.hh".toList }, .file blank { chars := "./src//b.hh".toList }]
    trailing := { chars := [] } }
  exact ⟨⟨[(.blank { chars := [] }, .returnFeed), (.rule rule, .feed)], .blank { chars := [] }⟩, by decide, by decide⟩

end Listing

end IncrementalLint
