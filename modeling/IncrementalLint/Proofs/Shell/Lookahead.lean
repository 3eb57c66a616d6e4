import IncrementalLint.Proofs.Shell.Tokens

/-!
# How far the shell looks ahead

The shell reads a text from its front. Of a text that ends in a blank, it takes tokens, words and
commands in the same way whatever stands behind the blank, as long as it does not take the blank: none of
its readers looks further.

* `Local`             a reader that does not look behind what it leaves;
* `Local.bind`        two such readers one after the other are one;
* `local_readWord`    words are read by such a reader, if the commands that they hold are;
* `local_scan`        and so are tokens.
-/

namespace IncrementalLint.Shell

/-! ## readers that do not look ahead -/

/-- a source with more text behind it -/
def Source.behind (s : Source) (x : List Char) : Source := { s with rest := s.rest ++ x }

def EndsBlank (cs : List Char) : Prop := cs.getLast? = some ' '

/-- from this source, a reader takes a front; if that leaves some of a text with a blank at its end, it
takes the same where more stands behind the blank -/
def LocalAt {α : Type} (r : Read α) (s : Source) : Prop :=
  ∀ a t, r s = .ok (a, t) → t.rest <:+ s.rest ∧ t.size = s.size ∧
    (EndsBlank s.rest → t.rest ≠ [] → ∀ x, r (s.behind x) = .ok (a, t.behind x))

def Local {α : Type} (r : Read α) : Prop := ∀ s, LocalAt r s

theorem EndsBlank.ne_nil {cs : List Char} (h : EndsBlank cs) : cs ≠ [] := by
  rintro rfl
  contradiction

theorem EndsBlank.suffix {cs ds : List Char} (h : EndsBlank cs) (hs : ds <:+ cs) (hne : ds ≠ []) :
    EndsBlank ds := by
  obtain ⟨front, rfl⟩ := hs
  rwa [EndsBlank, List.getLast?_append_of_ne_nil front hne] at h

section
variable {α β : Type} {r : Read α} {f : α → Read β} {s : Source}

theorem exists_of_bind_ok {b : β} {u : Source} (h : (r >>= f) s = .ok (b, u)) :
    ∃ a t, r s = .ok (a, t) ∧ f a t = .ok (b, u) := by
  have h' : (r s >>= fun x => f x.1 x.2) = .ok (b, u) := h
  cases hr : r s with
  | error e =>
    rw [hr] at h'
    contradiction
  | ok x =>
    rw [hr] at h'
    exact ⟨x.1, x.2, rfl, h'⟩

theorem local_pure (a : α) : Local (pure a) := by
  intro s b t h
  obtain ⟨rfl, rfl⟩ := Prod.mk.inj (Except.ok.inj h)
  exact ⟨List.suffix_refl _, rfl, fun _ _ _ => rfl⟩

/-- two readers one after the other -/
theorem Local.bind (hr : Local r) (hf : ∀ a, Local (f a)) : Local (r >>= f) := by
  intro s b u h
  obtain ⟨a, t, hra, hfa⟩ := exists_of_bind_ok h
  obtain ⟨hsuffix, hsize, hbehind⟩ := hr s a t hra
  obtain ⟨hsuffix', hsize', hbehind'⟩ := hf a t b u hfa
  refine ⟨hsuffix'.trans hsuffix, hsize'.trans hsize, fun hs hu x => ?_⟩
  have ht : t.rest ≠ [] := fun hnil => hu (List.suffix_nil.mp (hnil ▸ hsuffix'))
  rw [bind_of_ok (hbehind hs ht x)]
  exact hbehind' (hs.suffix hsuffix ht) hu x

/-- one reader or another -/
theorem local_ite {p : Prop} [Decidable p] {r r' : Read α} (hr : Local r) (hr' : Local r') :
    Local (if p then r else r') := by
  split
  · exact hr
  · exact hr'

theorem local_fault (message : String) : Local (fault (α := α) message) := by
  intro s a t h
  cases h

/-- what follows a fault does not matter -/
theorem local_fault_bind (message : String) (f : α → Read β) : Local (fault message >>= f) := by
  intro s a t h
  cases h

theorem local_unexpected (t : Token) (wanted : Option Token) : Local (unexpected (α := α) t wanted) :=
  local_fault _

/-- a reader that goes by what the source is, which is nothing that stands behind it -/
theorem Local.get_bind {f : Source → Read α} (h : ∀ s, LocalAt (f s) s)
    (hf : ∀ s x, EndsBlank s.rest → f (s.behind x) = f s) : Local (get >>= f) := by
  intro s a t hs
  obtain ⟨hsuffix, hsize, hbehind⟩ := h s a t hs
  refine ⟨hsuffix, hsize, fun hblank ht x => ?_⟩
  show f (s.behind x) (s.behind x) = _
  rw [hf s x hblank]
  exact hbehind hblank ht x

/-- a step that changes what is noted of a source, and nothing of its text -/
structure Notes (g : Source → Source) : Prop where
  rest : ∀ s, (g s).rest = s.rest
  size : ∀ s, (g s).size = s.size
  behind : ∀ s x, g (s.behind x) = (g s).behind x

theorem Notes.local_modify {g : Source → Source} (hg : Notes g) : Local (modify g) := by
  intro s a t h
  obtain ⟨rfl, rfl⟩ := Prod.mk.inj (Except.ok.inj h)
  refine ⟨hg.rest s ▸ List.suffix_refl _, hg.size s, fun _ _ x => ?_⟩
  show Except.ok ((), g (s.behind x)) = _
  rw [hg.behind]

/-- the same where something noted before is looked at afterwards -/
theorem Notes.local_set_bind {g : Source → Source} {p : Source → α} {f : α → Read β} (hg : Notes g)
    (hp : ∀ s x, p (s.behind x) = p s) (hf : ∀ a, Local (f a)) :
    Local (get >>= fun s => set (g s) >>= fun _ => f (p s)) := by
  intro s b t h
  obtain ⟨hsuffix, hsize, hbehind⟩ := hf (p s) (g s) b t h
  rw [hg.rest] at hsuffix hbehind
  refine ⟨hsuffix, hsize.trans (hg.size s), fun hblank ht x => ?_⟩
  show f (p (s.behind x)) (g (s.behind x)) = _
  rw [hp, hg.behind]
  exact hbehind hblank ht x

end

/-! ## characters -/

section
variable {s : Source}

theorem local_nextChar : Local nextChar := by
  intro s a t h
  cases hrest : s.rest with
  | nil =>
    have hnone : nextChar s = .ok (none, s) := by
      unfold nextChar
      rw [bind_of_ok rfl, hrest]
      rfl
    rw [hnone] at h
    obtain ⟨rfl, rfl⟩ := Prod.mk.inj (Except.ok.inj h)
    exact ⟨hrest ▸ List.suffix_refl _, rfl, fun _ ht => absurd hrest ht⟩
  | cons c rest =>
    rw [nextChar_cons hrest] at h
    obtain ⟨rfl, rfl⟩ := Prod.mk.inj (Except.ok.inj h)
    refine ⟨List.suffix_cons c rest, rfl, fun _ _ x => ?_⟩
    have hbehind : (s.behind x).rest = c :: (rest ++ x) := by
      rw [Source.behind, hrest, List.cons_append]
    rw [nextChar_cons hbehind]
    rfl

theorem local_peekChar : Local peekChar := by
  refine .get_bind (fun s => local_pure _ s) fun s x hs => ?_
  obtain ⟨c, rest, hrest⟩ := List.exists_cons_of_ne_nil hs.ne_nil
  simp only [Source.behind, hrest]
  rfl

theorem local_fuelLeft : Local fuelLeft := .get_bind (fun s => local_pure _ s) fun _ _ _ => rfl

theorem local_giveBack (t : Token) : Local (giveBack t) :=
  Notes.local_modify ⟨fun _ => rfl, fun _ => rfl, fun _ _ => rfl⟩

/-- a backslash at the end would not be followed by a blank -/
theorem not_join_behind {cs : List Char} (h : EndsBlank cs) (hjoin : ¬['\\', '\n'] <+: cs) (x : List Char) :
    ¬['\\', '\n'] <+: cs ++ x := by
  rintro ⟨rest, hrest⟩
  match cs, h with
  | [c], h =>
    obtain rfl : c = ' ' := Option.some.inj h
    cases hrest
  | c :: d :: cs, _ =>
    simp only [List.cons_append, List.nil_append, List.cons.injEq] at hrest
    obtain ⟨rfl, rfl, _⟩ := hrest
    exact hjoin ⟨cs, rfl⟩

theorem skipJoins_behind {cs : List Char} (h : EndsBlank cs) (x : List Char) (fuel line : Nat) :
    skipJoins fuel (cs ++ x) line = ((skipJoins fuel cs line).1 ++ x, (skipJoins fuel cs line).2) := by
  induction fuel generalizing cs line with
  | zero => rfl
  | succ fuel ih =>
    by_cases hjoin : ['\\', '\n'] <+: cs
    · obtain ⟨rest, rfl⟩ := hjoin
      have hrest : rest ≠ [] := by
        rintro rfl
        cases Option.some.inj h
      exact ih (h.suffix ⟨['\\', '\n'], rfl⟩ hrest) (line + 1)
    · rw [skipJoins_other hjoin, skipJoins_other (not_join_behind h hjoin x)]

theorem local_joinLines : Local joinLines := by
  intro s a t h
  rw [joinLines_eq] at h
  obtain ⟨rfl, rfl⟩ := Prod.mk.inj (Except.ok.inj h)
  refine ⟨skipJoins_suffix _ _ _, rfl, fun hs _ x => ?_⟩
  have hfuel : skipJoins (s.rest ++ x).length s.rest s.line = skipJoins s.rest.length s.rest s.line :=
    skipJoins_enough (by simp) (Nat.le_refl _) _
  have hskip : skipJoins (s.behind x).rest.length (s.behind x).rest (s.behind x).line =
      ((skipJoins s.rest.length s.rest s.line).1 ++ x, (skipJoins s.rest.length s.rest s.line).2) := by
    rw [← hfuel]
    exact skipJoins_behind hs x _ _
  rw [joinLines_eq, hskip]
  rfl

/-- readers that look at the next character first -/
theorem Local.head {α : Type} {f : Source → Read α} {g : Char → Read α} {e : Read α}
    (hf : ∀ s, f s = match s.rest with | c :: _ => g c | [] => e) (hg : ∀ c, Local (g c)) (he : Local e) :
    Local (get >>= f) := by
  refine .get_bind (fun s => ?_) fun s x hs => ?_
  · rw [hf]
    split
    · exact hg _ s
    · exact he s
  · obtain ⟨c, rest, hrest⟩ := List.exists_cons_of_ne_nil hs.ne_nil
    simp only [hf, Source.behind, hrest, List.cons_append]

theorem local_accept (c : Char) : Local (accept c) := by
  have htake : Local (do
      let _ ← nextChar
      return true) := local_nextChar.bind fun _ => local_pure _
  exact local_joinLines.bind fun _ =>
    .head (fun s => rfl) (fun _ => local_ite htake (local_pure _)) (local_pure _)

theorem local_takeClass (p : Char → Bool) (fuel : Nat) : Local (takeClass p fuel) := by
  induction fuel with
  | zero => exact local_pure _
  | succ fuel ih =>
    have hmore (c : Char) : Local (do
        let _ ← nextChar
        return c :: (← takeClass p fuel)) := local_nextChar.bind fun _ => ih.bind fun _ => local_pure _
    exact local_joinLines.bind fun _ =>
      .head (fun s => rfl) (fun c => local_ite (hmore c) (local_pure _)) (local_pure _)

end

/-! ## words -/

/-- another text is read as it is -/
theorem local_within {α : Type} (text : List Char) (line : Nat) (r : Read α) :
    Local (within text line r) := by
  intro s a t h
  let inner : Source := { s with rest := text, size := text.length + 1, line, given := none, pending := [] }
  have hwithin (s : Source) : within text line r s =
      (r { s with rest := text, size := text.length + 1, line, given := none, pending := [] }).map
        fun x => (x.1, { s with documents := x.2.documents, nextDocument := x.2.nextDocument }) := by
    unfold within
    rw [bind_of_ok rfl]
    generalize r { s with rest := text, size := text.length + 1, line, given := none, pending := [] } = result
    obtain e | ⟨b, u⟩ := result
    · rfl
    · rfl
  have hinner (x : List Char) :
      { s.behind x with rest := text, size := text.length + 1, line, given := none, pending := [] } = inner := rfl
  cases hr : r inner with
  | error e =>
    rw [hwithin, hr] at h
    contradiction
  | ok b =>
    rw [hwithin, hr] at h
    obtain ⟨rfl, rfl⟩ := Prod.mk.inj (Except.ok.inj h)
    refine ⟨List.suffix_refl _, rfl, fun _ _ x => ?_⟩
    rw [hwithin, hinner, hr]
    rfl

theorem local_backquoted (inQuotes : Bool) (fuel : Nat) (acc : List Char) :
    Local (backquoted inQuotes fuel acc) := by
  induction fuel generalizing acc with
  | zero => exact local_fault _
  | succ fuel ih =>
    refine local_nextChar.bind fun c => ?_
    split
    · exact local_fault _
    · exact local_pure _
    · refine local_nextChar.bind fun d => ?_
      split
      · exact local_fault _
      · exact ih acc
      · exact local_ite (ih _) (ih _)
    · exact ih _

theorem local_singleQuoted (fuel : Nat) (d : Draft) : Local (singleQuoted fuel d) := by
  induction fuel generalizing d with
  | zero => exact local_fault _
  | succ fuel ih =>
    refine local_nextChar.bind fun c => ?_
    split
    · exact local_fault _
    · exact local_pure _
    · exact ih _

section
variable {n : Nested} {t : TextReaders} {quoted : Bool} {readWord : Bool → Read Word}

theorem local_paramOperator (hword : ∀ b, Local (readWord b)) : Local (paramOperator quoted readWord) := by
  refine (local_accept ':').bind fun colon => local_peekChar.bind fun c => ?_
  split
  · exact local_nextChar.bind fun _ => local_ite ((hword quoted).bind fun _ => local_pure _) (local_pure _)
  · have hsimple (k : ParamKind) : Local (do
        let _ ← nextChar
        return ParamOp.modified k colon (← readWord quoted)) :=
      local_nextChar.bind fun _ => (hword quoted).bind fun _ => local_pure _
    refine local_ite (hsimple _) (local_ite (hsimple _) (local_ite (hsimple _) (local_ite (hsimple _) ?_)))
    refine local_ite ?_ ((hword quoted).bind fun _ => local_pure _)
    exact local_nextChar.bind fun _ => (local_accept _).bind fun _ => (hword false).bind fun _ => local_pure _
  · exact (hword quoted).bind fun _ => local_pure _

theorem local_bracedParam (hword : ∀ b, Local (readWord b)) : Local (bracedParam quoted readWord) := by
  have hbad : Local (do
      let _ ← readWord quoted
      return ("", ParamOp.bad)) := (hword quoted).bind fun _ => local_pure _
  have hname (p : Char → Bool) : Local (do
      let name ← takeClass p (← fuelLeft)
      return (String.ofList name, ← paramOperator quoted readWord)) :=
    local_fuelLeft.bind fun k => (local_takeClass p k).bind fun _ =>
      (local_paramOperator hword).bind fun _ => local_pure _
  have hoperator (name : String) : Local (do
      let _ ← nextChar
      return (name, ← paramOperator quoted readWord)) :=
    local_nextChar.bind fun _ => (local_paramOperator hword).bind fun _ => local_pure _
  refine local_joinLines.bind fun _ => .get_bind (fun s => ?_) fun s x hs => ?_
  · dsimp only
    split
    · exact hbad s
    · split
      · exact hname _ s
      split
      · exact hname _ s
      split
      · split
        · split
          · exact (local_nextChar.bind fun _ => local_fuelLeft.bind fun k => (local_takeClass _ k).bind fun _ =>
              (local_accept _).bind fun b => local_ite (local_pure _) hbad : Local _) s
          · split
            · exact (local_nextChar.bind fun _ => local_nextChar.bind fun _ => local_nextChar.bind fun _ =>
                local_pure _ : Local _) s
            · exact hoperator "#" s
        · exact hbad s
      split
      · exact hoperator _ s
      · exact hbad s
  · -- at most three characters are looked at, and a blank settles what they are
    have hrest : (s.behind x).rest = s.rest ++ x := rfl
    rw [hrest]
    generalize s.rest = cs at hs
    rcases cs with _ | ⟨c, _ | ⟨d, _ | ⟨e, more⟩⟩⟩
    · exact absurd rfl hs.ne_nil
    · obtain rfl : c = ' ' := Option.some.inj hs
      rfl
    · obtain rfl : d = ' ' := Option.some.inj hs
      rfl
    · rfl

end

/-- readers of text in which expansions have been met that do not look ahead -/
structure TextReaders.Local (t : TextReaders) : Prop where
  base : ∀ d, Shell.Local (t.base d)
  quoted : ∀ e d, Shell.Local (t.quoted e d)

/-- readers of what a word can hold that do not look ahead -/
structure Nested.Local (n : Nested) : Prop where
  list : ∀ b, Shell.Local (n.list b)
  command : ∀ b, Shell.Local (n.command b)
  substitution : ∀ b, Shell.Local (n.substitution b)

section
variable {n : Nested} {t : TextReaders}

theorem local_dollar (hn : n.Local) (ht : t.Local) (quoted : Bool) (d : Draft) :
    Local (dollar n t quoted d) := by
  have hword (b : Bool) : Local (do
      let w ← if b then t.quoted .brace {} else t.base {}
      return w.word) := by
    cases b with
    | true => exact (ht.quoted .brace {}).bind fun _ => local_pure _
    | false => exact (ht.base {}).bind fun _ => local_pure _
  -- here-documents that are awaited are kept out of the command, and none of it depends on them
  have hcommand : Local (do
      let s ← get
      set { s with pending := [] }
      let c ← n.substitution true
      modify fun t => { t with pending := s.pending ++ t.pending }
      return d.addPart (.command c quoted)) := by
    have hout : Notes fun s => { s with pending := [] } := ⟨fun _ => rfl, fun _ => rfl, fun _ _ => rfl⟩
    have hback (ps : List Pending) : Notes fun s => { s with pending := ps ++ s.pending } :=
      ⟨fun _ => rfl, fun _ => rfl, fun _ _ => rfl⟩
    exact @Notes.local_set_bind (List Pending) Draft (fun s => { s with pending := [] }) (·.pending)
      (fun ps => do
        let c ← n.substitution true
        modify fun t => { t with pending := ps ++ t.pending }
        return d.addPart (.command c quoted))
      hout (fun _ _ => rfl) fun ps =>
        (hn.substitution true).bind fun _ => (hback ps).local_modify.bind fun _ => local_pure _
  have hname (c : Char) : Local (do
      if isNameStart c then do
        let name ← takeClass isNameChar (← fuelLeft)
        return d.addPart (.param (String.ofList name) .plain quoted)
      else if isSpecialParam c then do
        let _ ← nextChar
        return d.addPart (.param (String.ofList [c]) .plain quoted)
      else return d.addChar '$' quoted) := by
    refine local_ite (local_fuelLeft.bind fun k => (local_takeClass _ k).bind fun _ => local_pure _) ?_
    exact local_ite (local_nextChar.bind fun _ => local_pure _) (local_pure _)
  refine local_joinLines.bind fun _ => .get_bind (fun s => ?_) fun s x hs => ?_
  · dsimp only
    split
    · exact (local_nextChar.bind fun _ => (local_accept _).bind fun b =>
        local_ite ((ht.quoted .arith {}).bind fun _ => local_pure _) hcommand : Local _) s
    · exact (local_nextChar.bind fun _ => (local_bracedParam hword).bind fun _ => local_pure _ : Local _) s
    · exact hname _ s
    · exact local_pure _ s
  · obtain ⟨c, rest, hrest⟩ := List.exists_cons_of_ne_nil hs.ne_nil
    simp only [Source.behind, hrest, List.cons_append]
    by_cases hopen : c = '('
    · subst hopen
      rfl
    by_cases hbrace : c = '\x7b'
    · subst hbrace
      rfl
    · simp

theorem local_backquote (quoted : Bool) (d : Draft) : Local (backquote n quoted d) :=
  local_fuelLeft.bind fun k => (local_backquoted quoted k []).bind fun text =>
    (local_within text 1 _).bind fun _ => local_pure _

theorem local_quotedText (hn : n.Local) (ht : t.Local) (e : QuoteEnd) (fuel depth : Nat) (d : Draft) :
    Local (quotedText n t e fuel depth d) := by
  induction fuel generalizing depth d with
  | zero => exact local_pure _
  | succ fuel ih =>
    refine local_nextChar.bind fun c => ?_
    split
    · split
      · exact local_pure _
      · exact local_fault _
      · exact local_fault _
      · exact local_fault _
    · refine local_nextChar.bind fun c => ?_
      split
      · exact local_pure _
      · exact ih depth d
      · exact local_ite (ih depth _) (ih depth _)
    · exact (local_dollar hn ht true d).bind fun e => ih depth e
    · exact (local_backquote true d).bind fun e => ih depth e
    · split
      · exact local_pure _
      · exact ih depth _
      · exact ih depth d
    · exact local_ite (local_pure _) (ih depth _)
    · exact ih (depth + 1) _
    · exact local_ite ((local_accept _).bind fun b => local_ite (local_pure _) (ih depth _)) (ih (depth - 1) _)
    · exact ih depth _

theorem local_baseText (hn : n.Local) (ht : t.Local) (inBraces : Bool) (fuel : Nat) (d : Draft) :
    Local (baseText n t inBraces fuel d) := by
  induction fuel generalizing d with
  | zero => exact local_pure _
  | succ fuel ih =>
    refine local_peekChar.bind fun c => ?_
    split
    · exact local_ite (local_fault _) (local_pure _)
    · refine local_ite (local_pure _) (local_nextChar.bind fun _ => ?_)
      split
      · refine local_nextChar.bind fun c => ?_
        split
        · exact local_pure _
        · exact ih d
        · exact ih _
      · exact local_fuelLeft.bind fun k =>
          ((local_singleQuoted k _).bind fun _ => local_pure _).bind fun e => ih e
      · exact local_fuelLeft.bind fun k =>
          ((local_quotedText hn ht .quote k 0 _).bind fun _ => local_pure _).bind fun e => ih e
      · exact (local_dollar hn ht false d).bind fun e => ih e
      · exact (local_backquote false d).bind fun e => ih e
      · exact local_ite (local_pure _) (ih _)
      · exact ih _

theorem local_textReaders (hn : n.Local) (depth : Nat) : (textReaders n depth).Local := by
  induction depth with
  | zero => exact ⟨fun _ => local_fault _, fun _ _ => local_fault _⟩
  | succ depth ih =>
    exact ⟨fun d => local_fuelLeft.bind fun k => local_baseText hn ih true k d,
      fun e d => local_fuelLeft.bind fun k => local_quotedText hn ih e k 0 d⟩

theorem local_readWord (hn : n.Local) : Local (readWord n) :=
  local_fuelLeft.bind fun k => local_baseText hn (local_textReaders hn maxNesting) false k {}

end

/-! ## here-documents -/

theorem local_takeLine : Local takeLine := by
  have htake (s : Source) : takeLine s = match s.rest.dropWhile (· != '\n') with
      | _ :: rest => .ok ((s.rest.takeWhile (· != '\n'), true), { s with rest, line := s.line + 1 })
      | [] => .ok ((s.rest.takeWhile (· != '\n'), false), { s with rest := [] }) := by
    unfold takeLine
    rw [bind_of_ok rfl]
    cases s.rest.dropWhile (· != '\n') <;> rfl
  intro s a t h
  rw [htake] at h
  cases hdrop : s.rest.dropWhile (· != '\n') with
  | nil =>
    rw [hdrop] at h
    obtain ⟨rfl, rfl⟩ := Prod.mk.inj (Except.ok.inj h)
    exact ⟨List.nil_suffix, rfl, fun _ ht => absurd rfl ht⟩
  | cons c rest =>
    rw [hdrop] at h
    obtain ⟨rfl, rfl⟩ := Prod.mk.inj (Except.ok.inj h)
    refine ⟨(List.suffix_cons c rest).trans (hdrop ▸ List.dropWhile_suffix _), rfl, fun _ _ x => ?_⟩
    have hsplit : s.rest.takeWhile (· != '\n') ++ c :: rest = s.rest := by
      rw [← hdrop, List.takeWhile_append_dropWhile]
    have hdropx : (s.behind x).rest.dropWhile (· != '\n') = c :: (rest ++ x) := by
      show (s.rest ++ x).dropWhile (· != '\n') = _
      rw [List.dropWhile_append, hdrop]
      rfl
    have htakex : (s.behind x).rest.takeWhile (· != '\n') = s.rest.takeWhile (· != '\n') := by
      have hlength : (s.rest.takeWhile (· != '\n')).length ≠ s.rest.length := by
        have hsum := congrArg List.length hsplit
        simp at hsum
        omega
      show (s.rest ++ x).takeWhile (· != '\n') = _
      rw [List.takeWhile_append, if_neg hlength]
    rw [htake, hdropx, htakex]
    rfl

theorem local_documentLines (mark : List Char) (stripTabs : Bool) (fuel : Nat) (acc : List Char) :
    Local (documentLines mark stripTabs fuel acc) := by
  induction fuel generalizing acc with
  | zero => exact local_pure _
  | succ fuel ih =>
    have hline (line : List Char) (ended : Bool) : Local (
        if line == mark then return acc
        else
          let acc := acc ++ line ++ (if ended then ['\n'] else [])
          if ended then documentLines mark stripTabs fuel acc else return acc) := by
      exact local_ite (local_pure _) (local_ite (ih _) (local_pure _))
    exact .head (fun s => by cases s.rest <;> rfl)
      (fun _ => local_takeLine.bind fun _ => hline _ _) (local_pure _)

section
variable {n : Nested}

theorem local_readDocuments (ps : List Pending) : Local (readDocuments n ps) := by
  induction ps with
  | nil => exact local_pure _
  | cons p ps ih =>
    have hdone (w : Word) : Notes fun s => { s with documents := (p.id, w) :: s.documents } :=
      ⟨fun _ => rfl, fun _ => rfl, fun _ _ => rfl⟩
    refine .get_bind (fun s => ?_) fun _ _ _ => rfl
    refine (?_ : Local _) s
    refine local_fuelLeft.bind fun k => (local_documentLines _ _ k []).bind fun text => ?_
    dsimp only
    split
    case' isTrue => refine (local_within _ _ _).bind fun w => ?_
    case' isFalse => refine (local_pure _).bind fun w => ?_
    all_goals exact (hdone w).local_modify.bind fun _ => ih

theorem local_flushDocuments : Local (flushDocuments n) :=
  @Notes.local_set_bind (List Pending) Unit (fun s => { s with pending := [] }) (·.pending) (readDocuments n)
    ⟨fun _ => rfl, fun _ => rfl, fun _ _ => rfl⟩ (fun _ _ => rfl) local_readDocuments

end

/-! ## tokens -/

theorem local_redirection (first : Char) (fd : Option Nat) : Local (redirection first fd) := by
  have hnext (c : Char) {r r' : Read Token} (hr : Local r) (hr' : Local r') :
      Local (do if ← accept c then r else r') := (local_accept c).bind fun _ => local_ite hr hr'
  have hstrip (fd : Nat) : Local (do
      let strip ← accept '-'
      return Token.redir fd .document strip) := (local_accept _).bind fun _ => local_pure _
  refine local_ite ?_ ?_
  · exact hnext _ (local_pure _) (hnext _ (local_pure _) (hnext _ (local_pure _) (local_pure _)))
  · exact hnext _ (hstrip _) (hnext _ (local_pure _) (hnext _ (local_pure _) (local_pure _)))

/-- a comment that ends before the text does -/
theorem local_comment : Local (modify fun s : Source => { s with rest := s.rest.dropWhile (· != '\n') }) := by
  intro s a t h
  obtain ⟨rfl, rfl⟩ := Prod.mk.inj (Except.ok.inj h)
  refine ⟨List.dropWhile_suffix _, rfl, fun _ ht x => ?_⟩
  have hdrop : (s.rest ++ x).dropWhile (· != '\n') = s.rest.dropWhile (· != '\n') ++ x := by
    rw [List.dropWhile_append, if_neg (by simpa using ht)]
  show Except.ok ((), { s with rest := (s.rest ++ x).dropWhile (· != '\n') }) = _
  rw [hdrop]
  rfl

theorem local_skipBlanks (fuel : Nat) : Local (skipBlanks fuel) := by
  induction fuel with
  | zero => exact local_pure _
  | succ fuel ih =>
    refine local_joinLines.bind fun _ => .head (fun s => rfl) (fun c => ?_) (local_pure _)
    exact local_ite (local_nextChar.bind fun _ => ih) (local_ite local_comment (local_pure _))

section
variable {n : Nested}

theorem local_scan (hn : n.Local) : Local (scan n) := by
  have hpair (c : Char) (two one : Token) : Local (do if ← accept c then return two else return one) :=
    (local_accept c).bind fun _ => local_ite (local_pure _) (local_pure _)
  refine local_fuelLeft.bind fun k => (local_skipBlanks k).bind fun _ => local_peekChar.bind fun c => ?_
  split
  · exact local_pure _
  refine local_ite ?_ ?_
  · refine (local_readWord hn).bind fun d => local_peekChar.bind fun next => ?_
    dsimp only
    split
    · exact local_nextChar.bind fun _ => local_redirection _ _
    · exact local_nextChar.bind fun _ => local_redirection _ _
    · exact local_pure _
  · refine local_nextChar.bind fun _ => ?_
    split
    · exact local_pure _
    · exact hpair _ _ _
    · exact hpair _ _ _
    · exact hpair _ _ _
    · exact local_pure _
    · exact local_pure _
    · exact local_redirection _ _

theorem local_rawToken (hn : n.Local) : Local (rawToken n) := by
  have hgiven {s : Source} {t : Token} (hs : s.given = some t) :
      rawToken n s = .ok (t, { s with given := none }) := by
    unfold rawToken
    rw [bind_of_ok rfl, hs]
    rfl
  have hnone {s : Source} (hs : s.given = none) : rawToken n s = scan n s := by
    unfold rawToken
    rw [bind_of_ok rfl, hs]
  intro s a t h
  cases hs : s.given with
  | some u =>
    rw [hgiven hs] at h
    obtain ⟨rfl, rfl⟩ := Prod.mk.inj (Except.ok.inj h)
    exact ⟨List.suffix_refl _, rfl, fun _ _ x => hgiven hs⟩
  | none =>
    rw [hnone hs] at h
    obtain ⟨hsuffix, hsize, hbehind⟩ := local_scan hn s a t h
    refine ⟨hsuffix, hsize, fun hblank ht x => ?_⟩
    rw [@hnone (s.behind x) hs]
    exact hbehind hblank ht x

theorem local_skipNewlines (hn : n.Local) (fuel : Nat) (t : Token) : Local (skipNewlines n fuel t) := by
  induction fuel generalizing t with
  | zero => exact local_pure _
  | succ fuel ih =>
    unfold skipNewlines
    split
    · exact local_flushDocuments.bind fun _ => (local_rawToken hn).bind fun t => ih t
    · exact local_pure _

theorem local_token (hn : n.Local) (newlines keywords : Bool) : Local (token n newlines keywords) := by
  refine (local_rawToken hn).bind fun t => ?_
  dsimp only
  refine local_ite (local_fuelLeft.bind fun k => (local_skipNewlines hn k t).bind fun t => ?_)
    ((local_pure t).bind fun t => ?_)
  all_goals
    split
    · split
      · exact local_pure _
      · exact local_pure _
    · exact local_pure _

end

end IncrementalLint.Shell
