import IncrementalLint.Proofs.Provenance
import IncrementalLint.Proofs.Verdict

/-!
# Passes with more than one line of output

Where more than one line of output counts as a failure, that is how answers are judged. Outcomes that
are reused were judged before, maybe by a run that had no such rule.

* `Sharing`                  runs that share a cache file, each under a rule of its own;
* `LetThrough`               a success goes back to a run without the rule, or to the start;
* `Sharing.let_through`      the invariant: every longer success on file does;
* `Sharing.oneLine_or_reused` a run with the rule passes one line of output, or what it reuses.
-/

namespace IncrementalLint

open Workspace

/-! ## the rule -/

/-- what is left of a text between its blank ends is one line at most -/
def OneLine (text : String) : Prop := (Text.lines (Text.trim text)).length ≤ 1

theorem oneLine_of_normalize {o : Outcome} (h : o.normalize.passed = true) : OneLine o.output := by
  have hpass := Outcome.passed_normalize h
  unfold Outcome.normalize at h
  split at h
  next => contradiction
  next hrule =>
    rw [Bool.and_eq_true, not_and, decide_eq_true_eq] at hrule
    have hshort := hrule (eq_of_beq hpass)
    rw [Outcome.multiline, decide_eq_true_eq] at hshort
    exact Nat.not_lt.mp hshort

/-! ## runs that share a cache file -/

/-- the runs that led to a workspace, newest first, from some text of the cache file on: nothing but
their saves and clean-ups changes this text -/
inductive Sharing (cache : Path) (start : Option String) : Workspace → List PastRun → Prop
  | start {w : Workspace} (h : textAt w cache = start) : Sharing cache start w []
  | change {w w' : Workspace} {runs : List PastRun} (past : Sharing cache start w runs)
      (h : textAt w' cache = textAt w cache) : Sharing cache start w' runs
  | clean {w : Workspace} {runs : List PastRun} {r : Runner} (past : Sharing cache start w runs)
      (hr : r.cachePath = cache) (ht : w.Tree) : Sharing cache start (r.clean w).1 runs
  | run {w : Workspace} {runs : List PastRun} {r : Runner} {h : Host} (past : Sharing cache start w runs)
      (hr : r.cachePath = cache) (hprepare : textAt (r.prepare h w).1 cache = textAt w cache)
      (hanalyze : ∀ w₁ p s, r.prepare h w = (w₁, .ok (p, s)) →
        textAt (r.analyze h p w₁).workspace cache = textAt w₁ cache ∧
          (r.analyze h p w₁).workspace.Tree) :
      Sharing cache start (r.run h w).workspace (⟨r, h, w⟩ :: runs)

/-- what held at first, or of a run that saved, each run that saved since has kept -/
def Since (first : Prop) (source keeps : PastRun → Prop) : List PastRun → Prop
  | [] => first
  | x :: runs => (x.Saved ∧ source x) ∨ ((x.Saved → keeps x) ∧ Since first source keeps runs)

/-- a run without the rule had this answer for a unit, and counted it as a success -/
def PastRun.LetPass (x : PastRun) (id : String) (o : Outcome) (rules tool : String) : Prop :=
  x.runner.settings.analysis.multilineOutputFails = false ∧
    ∃ w p s, x.planned = (w, .ok (p, s)) ∧ p.ruleSetId = rules ∧ p.toolVersionId = tool ∧ id ∈ p.ids ∧
      (x.runner.answers x.host p w).get? id = some o ∧ o.result = 0

/-- a success was an answer to a run without the rule, or it was on file at the start; each run that
saved since has reused it -/
def LetThrough (start : Option String) (id : String) (o : Outcome) (rules tool : String) :
    List PastRun → Prop :=
  Since ((Store.ofText start).get? id = some o ∧ (Store.ofText start).ruleSetId = rules ∧
      (Store.ofText start).toolVersionId = tool)
    (fun x => x.LetPass id o rules tool) (fun x => x.Reused id o rules tool)

section
variable {cache : Path} {start : Option String} {w w' : Workspace} {runs : List PastRun} {r : Runner}
  {h : Host} {p : Plan} {s : Store} {id : String} {o : Outcome}

/-! ## what each step keeps -/

/-- where every longer success in a text was let through -/
def Permitted (start : Option String) (runs : List PastRun) (text : Option String) : Prop :=
  ∀ id o, (Store.ofText text).get? id = some o → o.passed = true → ¬OneLine o.output →
    LetThrough start id o (Store.ofText text).ruleSetId (Store.ofText text).toolVersionId runs

theorem permitted_none : Permitted start runs none :=
  fun _ _ h => absurd h (by simp [Store.ofText, Store.get?])

theorem Permitted.of_cached (ha : Permitted start runs (textAt w r.cachePath)) (hp : r.Planned w p s)
    (hc : p.cached.get? id = some o) (hlong : ¬OneLine o.output) :
    LetThrough start id o p.ruleSetId p.toolVersionId runs := by
  obtain ⟨hs, hpass, hrules, htool⟩ := onFile_of_cached hp hc
  have hlet := ha id o hs hpass hlong
  rwa [hrules, htool] at hlet

/-- a longer success is an answer that the rule did not judge, or it is reused -/
theorem of_longer_success (hp : r.prepare h w = (w', .ok (p, s))) (hid : id ∈ p.ids)
    (ho : r.outcomeOf h p w' id = o) (hpass : o.passed = true) (hlong : ¬OneLine o.output) :
    PastRun.LetPass ⟨r, h, w⟩ id o p.ruleSetId p.toolVersionId ∨ p.cached.get? id = some o := by
  rw [Runner.outcomeOf] at ho
  rw [← ho] at hpass
  rcases outcomeFor_passed hpass with hfresh | ⟨_, hcached⟩
  · rw [ho, Runner.get?_analyze, Option.map_eq_some_iff] at hfresh
    rw [ho] at hpass
    obtain ⟨raw, hraw, hjudge⟩ := hfresh
    cases hrule : r.settings.analysis.multilineOutputFails with
    | true =>
      have hnormal : raw.normalize = o := by
        rwa [Dispatch.judge, show (r.dispatch h p).multilineOutputFails = true from hrule, if_pos rfl]
          at hjudge
      rw [← hnormal] at hpass hlong
      rw [Outcome.output_normalize] at hlong
      exact absurd (oneLine_of_normalize hpass) hlong
    | false =>
      have hsame : raw = o := by
        rwa [Dispatch.judge, show (r.dispatch h p).multilineOutputFails = false from hrule,
          if_neg Bool.false_ne_true] at hjudge
      rw [hsame] at hraw
      exact Or.inl ⟨hrule, w', p, s, hp, rfl, rfl, hid, hraw, eq_of_beq hpass⟩
  · rw [ho] at hcached
    exact Or.inr hcached

theorem Permitted.run (hprepare : textAt (r.prepare h w).1 r.cachePath = textAt w r.cachePath)
    (hanalyze : ∀ w₁ p s, r.prepare h w = (w₁, .ok (p, s)) →
      textAt (r.analyze h p w₁).workspace r.cachePath = textAt w₁ r.cachePath ∧
        (r.analyze h p w₁).workspace.Tree)
    (ha : Permitted start runs (textAt w r.cachePath)) :
    Permitted start (⟨r, h, w⟩ :: runs) (textAt (r.run h w).workspace r.cachePath) := by
  cases hS : (r.run h w).summary with
  | ok S =>
    intro id o hs hpass hlong
    obtain ⟨w₁, p, s, hp, hid, ho, hrules, htool⟩ := stored_of_saved hS hs
    rw [hrules, htool]
    rcases of_longer_success hp hid ho hpass hlong with hlet | hcached
    · exact Or.inl ⟨⟨S, hS⟩, hlet⟩
    · rw [← text_of_prepare hprepare hp] at ha
      exact Or.inr ⟨fun _ => ⟨w₁, p, s, hp, rfl, rfl, hid, hcached⟩,
        ha.of_cached (Runner.prepare_ok hp) hcached hlong⟩
  | error e =>
    rw [text_of_unsaved hprepare hanalyze hS]
    refine fun id o hs hpass hlong => Or.inr ⟨fun hsaved => ?_, ha id o hs hpass hlong⟩
    exact absurd hsaved (notSaved_of_error hS)

/-- every longer success on file was let through -/
theorem Sharing.let_through (hh : Sharing cache start w runs) : Permitted start runs (textAt w cache) := by
  induction hh with
  | start hw =>
    rw [hw]
    exact fun _ _ hs _ _ => ⟨hs, rfl, rfl⟩
  | change _ hw ih =>
    rw [hw]
    exact ih
  | clean _ hr ht ih =>
    subst hr
    rcases clean_text ht with hw | hw
    · rw [hw]
      exact permitted_none
    · rw [hw]
      exact ih
  | run _ hr hprepare hanalyze ih =>
    subst hr
    exact ih.run hprepare hanalyze

/-! ## runs with the rule -/

/-- a run with the rule records one line of output at most for each unit that it passes, unless it
reuses what was let through -/
theorem Sharing.oneLine_or_reused (hh : Sharing cache start w runs) (hr : r.cachePath = cache)
    (hrule : r.settings.analysis.multilineOutputFails = true)
    (hprepare : textAt (r.prepare h w).1 cache = textAt w cache)
    (hp : r.prepare h w = (w', .ok (p, s))) {S : Runner.Summary} (hS : (r.run h w).summary = .ok S)
    (hid : id ∈ p.ids) (hpass : id ∉ S.report.failedUnits) :
    ∃ o, (r.stored h p s w').get? id = some o ∧ (OneLine o.output ∨
      (p.cached.get? id = some o ∧ LetThrough start id o p.ruleSetId p.toolVersionId runs)) := by
  subst hr
  have hplan := Runner.prepare_ok hp
  refine ⟨r.outcomeOf h p w' id, by rw [Runner.get?_stored hplan, if_pos hid], ?_⟩
  by_cases hshort : OneLine (r.outcomeOf h p w' id).output
  · exact Or.inl hshort
  · have hpassed := (Runner.passed_iff_notMem hp hS hid).mpr hpass
    rcases of_longer_success hp hid rfl hpassed hshort with hlet | hcached
    · exact absurd (hlet.1.symm.trans hrule) (by simp)
    · have ha := hh.let_through
      rw [← text_of_prepare hprepare hp] at ha
      exact Or.inr ⟨hcached, ha.of_cached hplan hcached hshort⟩

end

/-! ## two lines that pass -/

def oneLonger : Outcome := ⟨0, "a\nb"⟩

/-- a run without the rule, whose job prints two lines -/
def oneLenient : PastRun := ⟨oneRunnerWith false, oneHostWith oneLonger, oneWorkspace⟩

theorem one_sharing : Sharing (top "c") none oneLenient.after [oneLenient] := by
  obtain ⟨_, hc, _⟩ := one_nodes
  have hnone : textAt oneWorkspace (top "c") = none := by
    rw [textAt, readText_top_none (by decide) hc]
    rfl
  have hprepare : (oneLenient.runner.prepare oneLenient.host oneWorkspace).1 = oneWorkspace := by
    rw [show oneLenient.runner.prepare oneLenient.host = oneRunner.prepare oneHost from
      funext (one_prepare_with false oneLonger), one_prepare_workspace]
  have hanalyze (p : Plan) (w : Workspace) :
      (oneLenient.runner.analyze oneLenient.host p w).workspace = w := one_analyze_workspace_with false oneLonger p w
  refine .run (.start hnone) rfl ?_ fun w₁ p s hp => ?_
  · rw [show oneLenient.before = oneWorkspace from rfl, hprepare]
  · have hw : w₁ = oneWorkspace := by
      rw [← hprepare]
      exact (congrArg Prod.fst hp).symm
    rw [hanalyze, hw]
    exact ⟨rfl, one_tree⟩

/-- the next run, which has the rule, reuses the two lines -/
theorem one_longer_reused :
    ∃ (p : Plan) (s : Store) (S : Runner.Summary),
      oneRunner.prepare oneHost oneLenient.after = (oneLenient.after, .ok (p, s)) ∧
      (oneRunner.run oneHost oneLenient.after).summary = .ok S ∧ "a.cc" ∈ p.ids ∧
      "a.cc" ∉ S.report.failedUnits ∧
      (oneRunner.stored oneHost p s oneLenient.after).get? "a.cc" = some oneLonger := by
  obtain ⟨s₀, w, hw, ⟨t, hroot⟩, hcache, hget, hrules, htool, hdb, hcode, hlisting⟩ :=
    one_saved_with false oneLonger
  obtain rfl : oneLenient.after = w := hw
  obtain ⟨p, s, hp, hcached⟩ :=
    one_next hdb hcode (by decide) hlisting (by decide) hcache hget rfl hrules htool
  have hplan := Runner.prepare_ok hp
  obtain ⟨u, hu, hid, _⟩ := hplan.get?_cached.mp hcached
  have hmem : "a.cc" ∈ p.ids := hid ▸ List.mem_map_of_mem hu
  obtain ⟨⟨S, hS⟩, _⟩ := one_run hp (Store.save_top hroot (by decide) (write_top (by decide) hcache))
  have houtcome : oneRunner.outcomeOf oneHost p oneLenient.after "a.cc" = oneLonger :=
    hplan.outcomeOf_cached one_onlyAsked hcached
  refine ⟨p, s, S, hp, hS, hmem, ?_, ?_⟩
  · rw [← Runner.passed_iff_notMem hp hS hmem, houtcome]
    rfl
  · rw [Runner.get?_stored hplan, if_pos hmem, houtcome]

theorem one_oneLine_or_reused :
    ∃ (p : Plan) (s : Store), (oneRunner.stored oneHost p s oneLenient.after).get? "a.cc" = some oneLonger ∧
      LetThrough none "a.cc" oneLonger p.ruleSetId p.toolVersionId [oneLenient] := by
  obtain ⟨p, s, S, hp, hS, hid, hpass, hstored⟩ := one_longer_reused
  obtain ⟨o, ho, hcase⟩ := one_sharing.oneLine_or_reused rfl rfl (by rw [one_prepare_workspace]) hp hS hid hpass
  obtain rfl := Option.some.inj (hstored.symm.trans ho)
  have hlong : ¬OneLine oneLonger.output := by
    unfold OneLine
    decide
  exact ⟨p, s, hstored, (hcase.resolve_left hlong).2⟩

/-- a run with the rule can pass more than one line of output -/
theorem one_longer_passed :
    ¬∀ (cache : Path) (start : Option String) (w w' : Workspace) (runs : List PastRun) (r : Runner)
      (h : Host) (p : Plan) (s : Store) (S : Runner.Summary) (id : String) (o : Outcome),
      Sharing cache start w runs → r.cachePath = cache →
      r.settings.analysis.multilineOutputFails = true → textAt (r.prepare h w).1 cache = textAt w cache →
      r.prepare h w = (w', .ok (p, s)) → (r.run h w).summary = .ok S → id ∈ p.ids →
      id ∉ S.report.failedUnits → (r.stored h p s w').get? id = some o → OneLine o.output := by
  intro hall
  obtain ⟨p, s, S, hp, hS, hid, hpass, hstored⟩ := one_longer_reused
  have hshort := hall _ _ _ _ _ _ _ p s S _ _ one_sharing rfl rfl (by rw [one_prepare_workspace]) hp hS hid
    hpass hstored
  revert hshort
  unfold OneLine
  decide

end IncrementalLint
