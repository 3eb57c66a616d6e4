import IncrementalLint.Proofs.Shell.Lookahead

/-!
# Commands and what stands behind them

A word can hold commands, and commands hold words. None of them is read with a look at what stands
behind it, and so what was read of a text in front of a blank stays the same with more behind the blank.

* `nested_local`      commands are read without looking ahead, however deep they nest;
* `Reads.behind`      what was read of a text is read of every text that it is the front of.
-/

namespace IncrementalLint.Shell

/-! ## commands -/

theorem notes_awaitDocument (p : Nat → Pending) : Notes fun s =>
    { s with pending := s.pending ++ [p s.nextDocument], nextDocument := s.nextDocument + 1 } :=
  ⟨fun _ => rfl, fun _ => rfl, fun _ _ => rfl⟩

section
variable {n : Nested} {α : Type}

/-- a token that is not wanted is given back -/
theorem local_giveBack_bind (t : Token) {r : Read α} (hr : Local r) : Local (do giveBack t; r) :=
  (local_giveBack t).bind fun _ => hr

theorem local_redirTarget (hn : n.Local) (fd : Nat) (kind : RedirKind) (stripTabs : Bool) :
    Local (redirTarget n fd kind stripTabs) := by
  refine (local_token hn false false).bind fun t => ?_
  split
  next w =>
    split
    · exact @Notes.local_set_bind Nat Redir _ (·.nextDocument) (fun k => return .mk fd .document [] k)
        (notes_awaitDocument fun k => ⟨k, (markText w).1, !(markText w).2, stripTabs⟩) (fun _ _ => rfl)
        fun _ => local_pure _
    · exact local_pure _
  · exact local_unexpected _ _

theorem local_trailingRedirs (hn : n.Local) (fuel : Nat) : Local (trailingRedirs n fuel) := by
  induction fuel with
  | zero => exact local_pure _
  | succ fuel ih =>
    refine (local_token hn false true).bind fun t => ?_
    split
    · exact (local_redirTarget hn _ _ _).bind fun _ => ih.bind fun _ => local_pure _
    · exact local_giveBack_bind _ (local_pure _)

theorem local_simpleCommand (hn : n.Local) (line fuel : Nat) (d : SimpleDraft) :
    Local (simpleCommand n line fuel d) := by
  induction fuel generalizing d with
  | zero => exact local_pure _
  | succ fuel ih =>
    refine (local_token hn false false).bind fun t => ?_
    split
    · split
      · exact ih _
      · exact ih _
    · exact (local_redirTarget hn _ _ _).bind fun _ => ih _
    · split
      · refine (local_token hn false false).bind fun t => ?_
        split
        · split
          · exact local_ite ((hn.command true).bind fun _ => local_pure _) (local_fault _)
          · exact local_fault _
        · exact local_unexpected _ _
      · exact local_giveBack_bind _ (local_pure _)
    · exact local_giveBack_bind _ (local_pure _)

theorem local_expectKeyword (hn : n.Local) (k : Keyword) : Local (expectKeyword n k) := by
  refine (local_token hn false true).bind fun t => ?_
  split
  · exact local_ite (local_pure _) (local_unexpected _ _)
  · exact local_unexpected _ _

theorem local_conditionTail (hn : n.Local) (fuel : Nat) : Local (conditionTail n fuel) := by
  induction fuel with
  | zero => exact local_pure _
  | succ fuel ih =>
    refine (local_token hn false true).bind fun t => ?_
    split
    · exact (hn.list false).bind fun _ => (local_expectKeyword hn .then_).bind fun _ =>
        (hn.list false).bind fun _ => ih.bind fun _ => local_pure _
    · exact hn.list false
    · exact local_giveBack_bind _ (local_pure _)

theorem local_wordsToEnd (hn : n.Local) (fuel : Nat) : Local (wordsToEnd n fuel) := by
  induction fuel with
  | zero => exact local_pure _
  | succ fuel ih =>
    refine (local_token hn false false).bind fun t => ?_
    split
    · exact ih.bind fun _ => local_pure _
    · exact local_flushDocuments.bind fun _ => local_pure _
    · exact local_pure _
    · exact local_unexpected _ _

theorem local_armPatterns (hn : n.Local) (fuel : Nat) (first : Token) : Local (armPatterns n fuel first) := by
  induction fuel generalizing first with
  | zero => exact local_pure _
  | succ fuel ih =>
    refine (local_token hn false false).bind fun t => ?_
    split
    · exact (local_token hn false false).bind fun t => (ih t).bind fun _ => local_pure _
    · exact local_pure _
    · exact local_unexpected _ _

theorem local_arms (hn : n.Local) (fuel : Nat) : Local (arms n fuel) := by
  induction fuel with
  | zero => exact local_pure _
  | succ fuel ih =>
    refine (local_token hn true true).bind fun t => ?_
    split
    · exact local_pure _
    dsimp only
    split
    case' h_1 => refine (local_token hn false false).bind fun first => ?_
    case' h_2 => refine (local_pure _).bind fun first => ?_
    all_goals
      refine (local_armPatterns hn fuel first).bind fun ps => (hn.list true).bind fun body =>
        (local_token hn true true).bind fun t => ?_
      split
      · exact local_pure _
      · exact ih.bind fun _ => local_pure _
      · exact local_unexpected _ _

theorem local_withRedirs (hn : n.Local) (line : Nat) (c : Command) : Local (withRedirs n line c) := by
  refine local_fuelLeft.bind fun k => (local_trailingRedirs hn k).bind fun rs => ?_
  split
  · exact local_pure _
  · exact local_ite (local_pure _) (local_pure _)

/-- two lists, each with a keyword behind it -/
theorem local_twoLists (hn : n.Local) (line : Nat) (k k' : Keyword) (f : Command → Command → Command) :
    Local (do
      let c ← n.list false
      expectKeyword n k
      let d ← n.list false
      expectKeyword n k'
      withRedirs n line (f c d)) :=
  (hn.list false).bind fun c => (local_expectKeyword hn k).bind fun _ =>
    (hn.list false).bind fun d => (local_expectKeyword hn k').bind fun _ => local_withRedirs hn line (f c d)

theorem local_command (hn : n.Local) (newlines : Bool) : Local (command n newlines) := by
  refine (local_token hn newlines true).bind fun t => .get_bind (fun s => ?_) fun _ _ _ => rfl
  generalize s.line = line
  refine (?_ : Local _) s
  dsimp only
  -- one case for each token that a command begins with
  split
  · exact (hn.list false).bind fun _ => (local_expectKeyword hn .then_).bind fun _ =>
      (hn.list false).bind fun _ => local_fuelLeft.bind fun k => (local_conditionTail hn k).bind fun _ =>
        (local_expectKeyword hn .fi).bind fun _ => local_withRedirs hn _ _
  · exact local_twoLists hn line .do_ .done (.loop false)
  · exact local_twoLists hn line .do_ .done (.loop true)
  -- a loop over words, given or not
  · refine (local_token hn false false).bind fun t => ?_
    split
    · split
      · refine local_ite ((local_pure _).bind fun var => ?_) (local_fault_bind _ _)
        refine (local_token hn true true).bind fun t => ?_
        split
        case' h_1 => refine local_fuelLeft.bind fun k => (local_wordsToEnd hn k).bind fun words => ?_
        case' h_2 => refine (local_pure _).bind fun words => ?_
        case' h_3 => refine local_giveBack_bind _ ((local_pure _).bind fun words => ?_)
        all_goals
          refine (local_token hn true true).bind fun t => ?_
          split
          · exact (hn.list false).bind fun _ => (local_expectKeyword hn .done).bind fun _ =>
              local_withRedirs hn _ _
          · exact local_unexpected _ _
      · exact local_fault_bind _ _
    · exact local_fault_bind _ _
  · refine (local_token hn false false).bind fun t => ?_
    split
    · refine (local_pure _).bind fun w => (local_token hn true true).bind fun t => ?_
      split
      · exact local_fuelLeft.bind fun k => (local_arms hn k).bind fun _ => local_withRedirs hn _ _
      · exact local_unexpected _ _
    · exact local_fault_bind _ _
  · refine (hn.list false).bind fun _ => (local_token hn false true).bind fun t => ?_
    split
    · exact local_withRedirs hn _ _
    · exact local_unexpected _ _
  · exact (hn.list false).bind fun _ => (local_expectKeyword hn .end_).bind fun _ => local_withRedirs hn _ _
  · exact local_giveBack_bind _ (local_fuelLeft.bind fun k => local_simpleCommand hn line k {})
  · exact local_giveBack_bind _ (local_fuelLeft.bind fun k => local_simpleCommand hn line k {})
  · exact local_unexpected _ _

theorem local_pipeTail (hn : n.Local) (fuel : Nat) : Local (pipeTail n fuel) := by
  induction fuel with
  | zero => exact local_pure _
  | succ fuel ih =>
    refine (local_token hn false false).bind fun t => ?_
    split
    · exact (hn.command true).bind fun _ => ih.bind fun _ => local_pure _
    · exact local_giveBack_bind _ (local_pure _)

theorem local_pipeline (hn : n.Local) (newlines : Bool) : Local (pipeline n newlines) := by
  refine (local_token hn newlines true).bind fun t => ?_
  dsimp only
  split
  case' h_1 => refine (local_pure _).bind fun negated => ?_
  case' h_2 => refine local_giveBack_bind _ ((local_pure _).bind fun negated => ?_)
  all_goals
    exact (hn.command false).bind fun _ => local_fuelLeft.bind fun k =>
      (local_pipeTail hn k).bind fun _ => local_pure _

theorem local_conditions (hn : n.Local) (fuel : Nat) (c : Command) : Local (conditions n fuel c) := by
  induction fuel generalizing c with
  | zero => exact local_pure _
  | succ fuel ih =>
    refine (local_token hn false false).bind fun t => ?_
    split
    · exact (local_pipeline hn true).bind fun d => ih _
    · exact (local_pipeline hn true).bind fun d => ih _
    · exact local_giveBack_bind _ (local_pure _)

theorem local_andOr (hn : n.Local) : Local (andOr n) :=
  (local_pipeline hn false).bind fun c => local_fuelLeft.bind fun k => local_conditions hn k c

theorem local_listLoop (hn : n.Local) (fuel : Nat) (more : Bool) (acc : Option Command) :
    Local (listLoop n fuel more acc) := by
  induction fuel generalizing more acc with
  | zero => exact local_pure _
  | succ fuel ih =>
    refine (local_token hn true true).bind fun t => ?_
    split
    · exact local_flushDocuments.bind fun _ => local_giveBack_bind _ (local_pure _)
    refine local_ite (local_giveBack_bind _ (local_pure _)) (local_giveBack_bind _ ?_)
    refine (local_andOr hn).bind fun c => (local_token hn false false).bind fun t => ?_
    split
    · exact ih _ _
    · exact local_flushDocuments.bind fun _ => local_giveBack_bind _ (local_pure _)
    · exact local_giveBack_bind _ (ih _ _)
    · exact ih _ _
    · exact local_giveBack_bind _ (local_pure _)

theorem local_substitution (hn : n.Local) (closed : Bool) : Local (substitution n closed) := by
  refine local_fuelLeft.bind fun k => (local_listLoop hn k true none).bind fun c =>
    (local_token hn false true).bind fun t => ?_
  split
  · exact local_pure _
  · exact local_pure _
  · exact local_unexpected _ _

end

/-- commands are read without looking behind them, however deep they nest -/
theorem nested_local (depth : Nat) : (nested depth).Local := by
  induction depth with
  | zero => exact ⟨fun _ => local_fault _, fun _ => local_fault _, fun _ => local_fault _⟩
  | succ depth ih =>
    have hlist (b : Bool) : Local (do listLoop (nested depth) (← fuelLeft) b none) :=
      local_fuelLeft.bind fun k => local_listLoop ih k b none
    exact ⟨hlist, local_command ih, local_substitution ih⟩

/-! ## texts -/

section
variable {n : Nested} {s t : Source} {ts : List Token}

theorem local_lexeme (hn : n.Local) : Local (lexeme n) := by
  refine (local_scan hn).bind fun t => ?_
  split
  · exact local_flushDocuments.bind fun _ => local_pure _
  next fd strip =>
    refine (local_scan hn).bind fun t => ?_
    split
    next w =>
      have hwait : Local (awaitDocument w strip) :=
        (notes_awaitDocument fun k => ⟨k, (markText w).1, !(markText w).2, strip⟩).local_modify
      exact hwait.bind fun _ => local_pure _
    · exact local_unexpected _ _
  · exact local_pure _

theorem Reads.suffix (hn : n.Local) (h : Reads n s ts t) : t.rest <:+ s.rest ∧ t.size = s.size := by
  induction h with
  | done => exact ⟨List.suffix_refl _, rfl⟩
  | next hl _ ih =>
    obtain ⟨hsuffix, hsize, _⟩ := local_lexeme hn _ _ _ hl
    exact ⟨ih.1.trans hsuffix, ih.2.trans hsize⟩

/-- what was read of a text is read of every text that it is the front of -/
theorem Reads.behind (hn : n.Local) (h : Reads n s ts t) (hs : EndsBlank s.rest) (ht : t.rest ≠ [])
    (x : List Char) : Reads n (s.behind x) ts (t.behind x) := by
  induction h with
  | done => exact .done
  | next hl hrest ih =>
    obtain ⟨hsuffix, _, hbehind⟩ := local_lexeme hn _ _ _ hl
    have hne : Source.rest _ ≠ [] := fun hnil => ht (List.suffix_nil.mp (hnil ▸ (hrest.suffix hn).1))
    exact .next (hbehind hs hne x) (ih (hs.suffix hsuffix hne) ht)

end

end IncrementalLint.Shell
