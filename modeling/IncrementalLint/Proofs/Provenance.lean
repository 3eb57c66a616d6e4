import IncrementalLint.Proofs.Run

/-!
# Where a reused outcome comes from

Runs and clean-ups that share one cache file, with anything else in between that leaves the text of
that file alone. Every outcome that such a run reuses was the answer to a job of an earlier run, and
each run that saved since has reused it, too.

* `History`                     what happened to a workspace, as far as its cache file goes;
* `History.accounts`            the invariant: the past accounts for the successes on file;
* `History.reused_comes_from`   whence the outcomes come that a run reuses.
-/

namespace IncrementalLint

open Workspace

/-! ## runs of the past -/

/-- a run, and the workspace that it started from -/
structure PastRun where
  runner : Runner
  host : Host
  before : Workspace

namespace PastRun

def planned (x : PastRun) : Workspace × Except RunError (Plan × Store) :=
  x.runner.prepare x.host x.before

def after (x : PastRun) : Workspace := (x.runner.run x.host x.before).workspace

/-- whether it saved what came of it -/
def Saved (x : PastRun) : Prop := ∃ S, (x.runner.run x.host x.before).summary = .ok S

/-- it had a unit analyzed, and this is how the answer was counted: a success -/
def Produced (x : PastRun) (id : String) (o : Outcome) (rules tool : String) : Prop :=
  ∃ w p s b raw, x.planned = (w, .ok (p, s)) ∧ p.ruleSetId = rules ∧ p.toolVersionId = tool ∧
    (∃ u ∈ p.staleUnits, u.id = id) ∧ (x.runner.dispatch x.host p).batch? p.staleUnits = some b ∧
    (x.host.executor b w).2.get? id = some raw ∧ (x.runner.dispatch x.host p).judge raw = o ∧
    o.result = 0

/-- it reused the outcome of a unit -/
def Reused (x : PastRun) (id : String) (o : Outcome) (rules tool : String) : Prop :=
  ∃ w p s, x.planned = (w, .ok (p, s)) ∧ p.ruleSetId = rules ∧ p.toolVersionId = tool ∧
    id ∈ p.ids ∧ p.cached.get? id = some o

/-- it had a unit among its own, with this outcome in the end -/
def Recorded (x : PastRun) (id : String) (o : Outcome) : Prop :=
  ∃ w p s, x.planned = (w, .ok (p, s)) ∧ id ∈ p.ids ∧ x.runner.outcomeOf x.host p w id = o

end PastRun

def textAt (w : Workspace) (path : Path) : Option String := (w.readText path).toOption

/-! ## histories -/

/-- the runs that led to a workspace, newest first: nothing but their saves and clean-ups changes
the text of the cache file, and executors answer nothing but what they are asked -/
inductive History (cache : Path) : Workspace → List PastRun → Prop
  | start {w : Workspace} (h : textAt w cache = none) : History cache w []
  | change {w w' : Workspace} {runs : List PastRun} (past : History cache w runs)
      (h : textAt w' cache = textAt w cache) : History cache w' runs
  | clean {w : Workspace} {runs : List PastRun} {r : Runner} (past : History cache w runs)
      (hr : r.cachePath = cache) (ht : w.Tree) : History cache (r.clean w).1 runs
  | run {w : Workspace} {runs : List PastRun} {r : Runner} {h : Host} (past : History cache w runs)
      (hr : r.cachePath = cache) (hexec : h.executor.OnlyAsked)
      (hprepare : textAt (r.prepare h w).1 cache = textAt w cache)
      (hanalyze : ∀ w₁ p s, r.prepare h w = (w₁, .ok (p, s)) →
        textAt (r.analyze h p w₁).workspace cache = textAt w₁ cache ∧
          (r.analyze h p w₁).workspace.Tree) :
      History cache (r.run h w).workspace (⟨r, h, w⟩ :: runs)

/-- an outcome comes from a run, and each run that saved since has reused it -/
def ComesFrom (runs : List PastRun) (id : String) (o : Outcome) (rules tool : String) : Prop :=
  ∃ newer m older, runs = newer ++ m :: older ∧ m.Saved ∧ m.Produced id o rules tool ∧
    ∀ x ∈ newer, x.Saved → x.Reused id o rules tool

section
variable {cache : Path} {w w' : Workspace} {runs : List PastRun} {r : Runner} {h : Host} {p : Plan}
  {s : Store} {id rules tool : String} {o : Outcome}

theorem ComesFrom.of_unsaved {x : PastRun} (hx : ¬x.Saved) (hc : ComesFrom runs id o rules tool) :
    ComesFrom (x :: runs) id o rules tool := by
  obtain ⟨newer, m, older, rfl, hm, hp, hn⟩ := hc
  refine ⟨x :: newer, m, older, rfl, hm, hp, fun y hy hs => ?_⟩
  rcases List.mem_cons.mp hy with rfl | hy
  · exact absurd hs hx
  · exact hn y hy hs

theorem ComesFrom.of_reused {x : PastRun} (hx : x.Reused id o rules tool)
    (hc : ComesFrom runs id o rules tool) : ComesFrom (x :: runs) id o rules tool := by
  obtain ⟨newer, m, older, rfl, hm, hp, hn⟩ := hc
  refine ⟨x :: newer, m, older, rfl, hm, hp, fun y hy hs => ?_⟩
  rcases List.mem_cons.mp hy with rfl | hy
  · exact hx
  · exact hn y hy hs

/-- where the past accounts for the successes in a text -/
def Accounts (runs : List PastRun) (text : Option String) : Prop :=
  ∀ id o, (Store.ofText text).get? id = some o → o.passed = true →
    ComesFrom runs id o (Store.ofText text).ruleSetId (Store.ofText text).toolVersionId

theorem accounts_none (runs : List PastRun) : Accounts runs none :=
  fun _ _ h => absurd h (by simp [Store.ofText, Store.get?])

/-- what a plan reuses is a success on file, under the tags of the plan -/
theorem onFile_of_cached (hp : r.Planned w p s) (hc : p.cached.get? id = some o) :
    (Store.ofText (textAt w r.cachePath)).get? id = some o ∧ o.passed = true ∧
      (Store.ofText (textAt w r.cachePath)).ruleSetId = p.ruleSetId ∧
      (Store.ofText (textAt w r.cachePath)).toolVersionId = p.toolVersionId := by
  obtain ⟨reference, hload⟩ := Store.loadOrEmpty_text w r.cachePath
  have hstored := hp.stored_of_cached hc
  rw [hload] at hstored
  exact hstored

/-- what a plan reuses is accounted for by the text that it was made from -/
theorem Accounts.of_cached (ha : Accounts runs (textAt w r.cachePath)) (hp : r.Planned w p s)
    (hc : p.cached.get? id = some o) : ComesFrom runs id o p.ruleSetId p.toolVersionId := by
  obtain ⟨hs, hpass, hrules, htool⟩ := onFile_of_cached hp hc
  have hfrom := ha id o hs hpass
  rwa [hrules, htool] at hfrom

/-! ## what each step keeps -/

theorem clean_text (ht : w.Tree) :
    textAt (r.clean w).1 r.cachePath = none ∨ textAt (r.clean w).1 r.cachePath = textAt w r.cachePath := by
  obtain ⟨t, hroot⟩ := ht.root
  unfold Runner.clean
  split
  next w₁ b hb =>
    rcases Store.remove_ok hroot hb with hnone | rfl
    · exact Or.inl hnone
    · exact Or.inr rfl
  next w₁ e he =>
    rw [Store.remove_error he]
    exact Or.inr rfl

/-- a run that saved has recorded the outcomes that are then on file -/
theorem stored_of_saved {S : Runner.Summary} (hS : (r.run h w).summary = .ok S)
    (hs : (Store.ofText (textAt (r.run h w).workspace r.cachePath)).get? id = some o) :
    ∃ w₁ p s, r.prepare h w = (w₁, .ok (p, s)) ∧ id ∈ p.ids ∧ r.outcomeOf h p w₁ id = o ∧
      (Store.ofText (textAt (r.run h w).workspace r.cachePath)).ruleSetId = p.ruleSetId ∧
      (Store.ofText (textAt (r.run h w).workspace r.cachePath)).toolVersionId = p.toolVersionId := by
  obtain ⟨w₁, p, s, hp, hsave, _⟩ := Runner.run_ok hS
  have hplan := Runner.prepare_ok hp
  obtain ⟨reference, hload⟩ :=
    Store.loadOrEmpty_text (r.run h w).workspace r.cachePath
  rcases Store.loadOrEmpty_save hsave with ⟨t, ht⟩ | he
  · obtain ⟨hentries, hrules, htool, _⟩ := Store.mk.inj (hload.symm.trans ht)
    have hget : (r.stored h p s w₁).get? id = some o := by
      rw [Store.get?, ← hentries]
      exact hs
    rw [Runner.get?_stored hplan] at hget
    split at hget
    next hid =>
      exact ⟨w₁, p, s, hp, hid, Option.some.inj hget, hrules.trans (Runner.stored_tags hplan).1,
        htool.trans (Runner.stored_tags hplan).2⟩
    next => contradiction
  · obtain ⟨hentries, _⟩ := Store.mk.inj (hload.symm.trans he)
    rw [Store.get?, textAt, hentries] at hs
    contradiction

theorem notSaved_of_error {e : RunError} (hS : (r.run h w).summary = .error e) :
    ¬PastRun.Saved ⟨r, h, w⟩ :=
  fun ⟨_, hok⟩ => absurd (hS.symm.trans hok) (by simp)

theorem text_of_prepare (hprepare : textAt (r.prepare h w).1 cache = textAt w cache)
    (hp : r.prepare h w = (w', .ok (p, s))) : textAt w' cache = textAt w cache := by
  rw [hp] at hprepare
  exact hprepare

/-- a run that does not save leaves the text, if only because a failed save has none to leave -/
theorem text_of_unsaved {e : RunError}
    (hprepare : textAt (r.prepare h w).1 r.cachePath = textAt w r.cachePath)
    (hanalyze : ∀ w₁ p s, r.prepare h w = (w₁, .ok (p, s)) →
      textAt (r.analyze h p w₁).workspace r.cachePath = textAt w₁ r.cachePath ∧
        (r.analyze h p w₁).workspace.Tree)
    (hS : (r.run h w).summary = .error e) :
    textAt (r.run h w).workspace r.cachePath = textAt w r.cachePath := by
  rw [Runner.run_eq] at hS ⊢
  split at hS
  next w₁ e₁ hp =>
    rw [hp] at hprepare
    exact hprepare
  next w₁ p s hp =>
    obtain ⟨hkept, htree⟩ := hanalyze w₁ p s hp
    rw [Runner.carryOut_eq] at hS ⊢
    split at hS
    next w₂ e₂ hsave =>
      obtain ⟨hnone, hnone'⟩ := Store.save_error htree hsave
      exact hnone.trans (hnone'.symm.trans (hkept.trans (text_of_prepare hprepare hp)))
    next => contradiction

/-- the success of a unit in the end is a fresh one, or a reused one -/
theorem of_outcome (hexec : h.executor.OnlyAsked) {x : PastRun} (hx : x = ⟨r, h, w⟩)
    (hp : r.prepare h w = (w', .ok (p, s))) (ho : r.outcomeOf h p w' id = o) (hpass : o.passed = true) :
    x.Produced id o p.ruleSetId p.toolVersionId ∨ p.cached.get? id = some o := by
  subst hx
  rw [Runner.outcomeOf] at ho
  rw [← ho] at hpass
  rcases outcomeFor_passed hpass with hfresh | ⟨_, hcached⟩
  · rw [ho] at hfresh hpass
    obtain ⟨b, raw, hb, hraw, hjudge⟩ := Dispatch.get?_run.mp hfresh
    exact Or.inl ⟨w', p, s, b, raw, hp, rfl, rfl, Dispatch.stale_of_fresh hexec hfresh, hb, hraw, hjudge,
      eq_of_beq hpass⟩
  · rw [ho] at hcached
    exact Or.inr hcached

/-- the past accounts for the successes on file after a run, too -/
theorem Accounts.run (hexec : h.executor.OnlyAsked)
    (hprepare : textAt (r.prepare h w).1 r.cachePath = textAt w r.cachePath)
    (hanalyze : ∀ w₁ p s, r.prepare h w = (w₁, .ok (p, s)) →
      textAt (r.analyze h p w₁).workspace r.cachePath = textAt w₁ r.cachePath ∧
        (r.analyze h p w₁).workspace.Tree)
    (ha : Accounts runs (textAt w r.cachePath)) :
    Accounts (⟨r, h, w⟩ :: runs) (textAt (r.run h w).workspace r.cachePath) := by
  cases hS : (r.run h w).summary with
  | ok S =>
    intro id o hs hpass
    obtain ⟨w₁, p, s, hp, hid, ho, hrules, htool⟩ := stored_of_saved hS hs
    rw [hrules, htool]
    rcases of_outcome hexec (x := ⟨r, h, w⟩) rfl hp ho hpass with hproduced | hcached
    · exact ⟨[], _, runs, rfl, ⟨S, hS⟩, hproduced, fun _ hx => absurd hx (by simp)⟩
    · rw [← text_of_prepare hprepare hp] at ha
      exact (ha.of_cached (Runner.prepare_ok hp) hcached).of_reused
        ⟨w₁, p, s, hp, rfl, rfl, hid, hcached⟩
  | error e =>
    rw [text_of_unsaved hprepare hanalyze hS]
    exact fun id o hs hpass => (ha id o hs hpass).of_unsaved (notSaved_of_error hS)

/-- the past accounts for every success on file -/
theorem History.accounts (hh : History cache w runs) : Accounts runs (textAt w cache) := by
  induction hh with
  | start hw =>
    rw [hw]
    exact accounts_none _
  | change _ hw ih =>
    rw [hw]
    exact ih
  | clean _ hr ht ih =>
    subst hr
    rcases clean_text ht with hw | hw
    · rw [hw]
      exact accounts_none _
    · rw [hw]
      exact ih
  | run _ hr hexec hprepare hanalyze ih =>
    subst hr
    exact ih.run hexec hprepare hanalyze

/-! ## whence reused outcomes come -/

theorem History.onlyAsked (hh : History cache w runs) : ∀ x ∈ runs, x.host.executor.OnlyAsked := by
  induction hh with
  | start _ => simp
  | change _ _ ih => exact ih
  | clean _ _ _ ih => exact ih
  | run _ _ hexec _ _ ih =>
    intro x hx
    rcases List.mem_cons.mp hx with rfl | hx
    · exact hexec
    · exact ih x hx

theorem PastRun.Produced.recorded {x : PastRun} (hx : x.Produced id o rules tool) : x.Recorded id o := by
  obtain ⟨w, p, s, b, raw, hp, _, _, ⟨u, hu, rfl⟩, hb, hraw, hjudge, _⟩ := hx
  refine ⟨w, p, s, hp, List.mem_map_of_mem (List.mem_filter.mp hu).1, ?_⟩
  exact outcomeFor_fresh (Dispatch.get?_run.mpr ⟨b, raw, hb, hraw, hjudge⟩) _

theorem PastRun.Reused.recorded {x : PastRun} (hexec : x.host.executor.OnlyAsked)
    (hx : x.Reused id o rules tool) : x.Recorded id o := by
  obtain ⟨w, p, s, hp, _, _, hid, hc⟩ := hx
  exact ⟨w, p, s, hp, hid, (Runner.prepare_ok hp).outcomeOf_cached hexec hc⟩

/-- an outcome that comes from the past was recorded by the last run that saved -/
theorem ComesFrom.recorded (hexec : ∀ x ∈ runs, x.host.executor.OnlyAsked)
    (hc : ComesFrom runs id o rules tool) {newer older : List PastRun} {x : PastRun}
    (hruns : runs = newer ++ x :: older) (hx : x.Saved) (hlast : ∀ y ∈ newer, ¬y.Saved) :
    x.Recorded id o := by
  obtain ⟨newer', m, older', hruns', hm, hp, hn⟩ := hc
  have hmem : x ∈ runs := hruns ▸ List.mem_append_right _ List.mem_cons_self
  rcases List.append_eq_append_iff.mp (hruns.symm.trans hruns') with ⟨mid, hnew, hold⟩ | ⟨mid, hnew, hold⟩
  · cases mid with
    | nil =>
      obtain rfl := (List.cons.inj hold).1
      exact hp.recorded
    | cons y mid =>
      obtain rfl := (List.cons.inj hold).1
      exact (hn x (by simp [hnew]) hx).recorded (hexec x hmem)
  · cases mid with
    | nil =>
      obtain rfl := (List.cons.inj hold).1
      exact hp.recorded
    | cons y mid =>
      obtain rfl := (List.cons.inj hold).1
      exact absurd hm (hlast m (by simp [hnew]))

/-- whatever a run reuses was the successful answer to a job of an earlier run with the same tags;
each run that saved since has enumerated the unit under these tags and reused the outcome, so that
the last of them, in particular, recorded it -/
theorem History.reused_comes_from (hh : History cache w runs) (hr : r.cachePath = cache)
    (hprepare : textAt (r.prepare h w).1 cache = textAt w cache)
    (hp : r.prepare h w = (w', .ok (p, s))) (hc : p.cached.get? id = some o) :
    ComesFrom runs id o p.ruleSetId p.toolVersionId ∧
      ∀ newer x older, runs = newer ++ x :: older → x.Saved → (∀ y ∈ newer, ¬y.Saved) →
        x.Recorded id o ∧ o.passed = true := by
  subst hr
  have ha := hh.accounts
  rw [hp] at hprepare
  rw [← show textAt w' r.cachePath = textAt w r.cachePath from hprepare] at ha
  have hplan := Runner.prepare_ok hp
  have hfrom := ha.of_cached hplan hc
  refine ⟨hfrom, fun newer x older hruns hx hlast => ?_⟩
  exact ⟨hfrom.recorded hh.onlyAsked hruns hx hlast, (hplan.stored_of_cached hc).2.1⟩

end

/-! ## an outcome that comes from the first run -/

theorem one_reused_comes_from :
    ∃ p : Plan, p.cached.get? "a.cc" = some ⟨0, "ok"⟩ ∧
      ComesFrom [⟨oneRunner, oneHost, oneWorkspace⟩] "a.cc" ⟨0, "ok"⟩ p.ruleSetId p.toolVersionId := by
  obtain ⟨_, hc, _, _, _⟩ := one_nodes
  obtain ⟨s, w, hw, _, hcache, hs, hrules, htool, hdb, hcode, hlisting⟩ := one_saved
  have hnone : textAt oneWorkspace (top "c") = none := by
    rw [textAt, readText_top_none (by decide) hc]
    rfl
  have hh : History (top "c") (oneRunner.run oneHost oneWorkspace).workspace
      [⟨oneRunner, oneHost, oneWorkspace⟩] := by
    refine .run (.start hnone) rfl one_onlyAsked (by rw [one_prepare_workspace]) fun w₁ p s hp => ?_
    have hw : w₁ = oneWorkspace := by
      rw [← one_prepare_workspace oneWorkspace, hp]
    rw [one_analyze_workspace, hw]
    exact ⟨rfl, one_tree⟩
  rw [hw] at hh
  obtain ⟨p, s', hp, hcached⟩ := one_next hdb hcode (by decide) hlisting (by decide) hcache hs rfl hrules htool
  refine ⟨p, hcached, (hh.reused_comes_from rfl ?_ hp hcached).1⟩
  rw [hp]

end IncrementalLint
