import IncrementalLint.Proofs.Verdict

/-!
# What a run does before it succeeds

In front of the analysis a run asks for two commands, the second only if the first went well. What
these do to the files is all that changes for a plan, or for a run that ends without having analyzed
anything. Behind the analysis, only saving can go wrong.

* `Host.performAll`            commands one after the other, until one fails;
* `Runner.errands`             the commands of a run;
* `Runner.prepare_workspace`   nothing else changes the files in front of the analysis;
* `Runner.Course`              the three ways in which a run can end;
* `Runner.run_course`          there are no others;
* `Runner.effects_of_failure`  runs that fail change nothing of their own, or only fail to save.
-/

namespace IncrementalLint

/-! ## commands -/

/-- a command under a name, and where it starts -/
structure Errand where
  name : String
  command : String
  dir : Path
  deriving DecidableEq, Inhabited

/-- the workspace after commands, one after the other until one fails -/
def Host.performAll (h : Host) : List Errand → Workspace → Workspace
  | [], w => w
  | c :: cs, w =>
    let (w, o) := h.execute c.name c.command c.dir w
    if o.passed then h.performAll cs w else w

theorem Host.performAll_cons (h : Host) (c : Errand) (cs : List Errand) (w : Workspace) :
    h.performAll (c :: cs) w =
      if (h.execute c.name c.command c.dir w).2.passed then
        h.performAll cs (h.execute c.name c.command c.dir w).1
      else (h.execute c.name c.command c.dir w).1 := rfl

/-- the last command counts whether it fails or not -/
theorem Host.performAll_singleton (h : Host) (c : Errand) (w : Workspace) :
    h.performAll [c] w = (h.execute c.name c.command c.dir w).1 := by
  rw [performAll_cons]
  exact ite_self _

/-- commands that leave the files alone -/
theorem Host.performAll_idle {h : Host} (hidle : ∀ name command dir w, (h.execute name command dir w).1 = w)
    (cs : List Errand) (w : Workspace) : h.performAll cs w = w := by
  induction cs with
  | nil => rfl
  | cons c cs ih => rw [performAll_cons, hidle, ih, ite_self]

namespace Runner

def versionErrand (r : Runner) : Errand where
  name := "Looking up analyzer version..."
  command := r.settings.analysis.versionCommand
  dir := r.projectDir

/-- makes the compilation database anew, if the settings say how -/
def generatorErrand? (r : Runner) : Option Errand :=
  r.settings.compileDb.generate.map fun command =>
    ⟨"Building compilation database...", command, r.workDir⟩

def errands (r : Runner) : List Errand := r.generatorErrand?.toList ++ [r.versionErrand]

section
variable {r : Runner} {h : Host} {w w₁ w₂ : Workspace} {p : Plan} {s : Store} {e : RunError}
  {c : CacheError}

/-! ## in front of the analysis -/

theorem toolVersion_workspace (r : Runner) (h : Host) (w : Workspace) :
    (r.toolVersion h w).1 = h.performAll [r.versionErrand] w := by
  rw [Host.performAll_singleton]
  rfl

theorem plan_workspace (r : Runner) (h : Host) (w : Workspace) :
    (r.plan h w).1 = h.performAll [r.versionErrand] w := by
  rw [← toolVersion_workspace, plan]
  split
  next hv => rw [hv]
  next hv => rw [hv]

theorem front_workspace (r : Runner) (h : Host) (w : Workspace) :
    (r.front h w).1 = h.performAll r.errands w := by
  unfold front generate errands generatorErrand?
  cases r.settings.compileDb.generate with
  | none => exact toolVersion_workspace r h w
  | some command =>
    show _ = h.performAll [⟨"Building compilation database...", command, r.workDir⟩, r.versionErrand] w
    rw [Host.performAll_cons]
    dsimp only
    by_cases hpass : (h.execute "Building compilation database..." command r.workDir w).2.passed = true
    · rw [if_pos hpass, if_pos hpass]
      exact toolVersion_workspace r h _
    · rw [if_neg hpass, if_neg hpass]

theorem prepare_workspace (r : Runner) (h : Host) (w : Workspace) :
    (r.prepare h w).1 = h.performAll r.errands w := by
  rw [← front_workspace, prepare_front]
  split
  next hf => rw [hf]
  next hf => rw [hf]

theorem generate_error (hg : r.generate h w = (w₁, .error e)) :
    ∃ command output, e = .generation command output := by
  unfold generate at hg
  split at hg
  · exact absurd hg (by simp)
  next command _ =>
    obtain ⟨_, he⟩ := Prod.mk.inj hg
    split at he
    · contradiction
    · exact ⟨_, _, (Except.error.inj he).symm⟩

theorem toolVersion_error (hv : r.toolVersion h w = (w₁, .error e)) :
    ∃ command output, e = .toolVersion command output := by
  obtain ⟨_, he⟩ := Prod.mk.inj hv
  split at he
  · contradiction
  · exact ⟨_, _, (Except.error.inj he).symm⟩

theorem planFor_error {version : String} (hp : r.planFor version w = .error e) :
    ∃ cause, e = .compileDb cause := by
  unfold planFor at hp
  split at hp
  next e' hus =>
    obtain rfl := Except.error.inj hp
    unfold enumerate at hus
    dsimp only at hus
    split at hus
    · contradiction
    · exact ⟨_, (Except.error.inj hus).symm⟩
  next => exact absurd hp (by simp)

/-- all that can go wrong there; a store that is damaged is none of it -/
theorem prepare_error (hp : r.prepare h w = (w₁, .error e)) :
    (∃ command output, e = .generation command output) ∨
      (∃ command output, e = .toolVersion command output) ∨ ∃ cause, e = .compileDb cause := by
  unfold prepare at hp
  split at hp
  next hg =>
    obtain ⟨_, he⟩ := Prod.mk.inj hp
    obtain rfl := Except.error.inj he
    exact Or.inl (generate_error hg)
  next =>
    split at hp
    next hv =>
      obtain ⟨_, he⟩ := Prod.mk.inj hp
      obtain rfl := Except.error.inj he
      exact Or.inr (Or.inl (toolVersion_error hv))
    next =>
      obtain ⟨_, he⟩ := Prod.mk.inj hp
      exact Or.inr (Or.inr (planFor_error he))

/-! ## how a run ends -/

/-- a run stops before anything is analyzed, or cannot save what came of it, or succeeds -/
inductive Course (r : Runner) (h : Host) (w : Workspace) : Result → Prop
  | stopped {w₁ : Workspace} {e : RunError} (hp : r.prepare h w = (w₁, .error e)) :
      Course r h w ⟨[], w₁, .error e⟩
  | unsaved {w₁ w₂ : Workspace} {p : Plan} {s : Store} {c : CacheError}
      (hp : r.prepare h w = (w₁, .ok (p, s)))
      (hs : (r.stored h p s w₁).save (r.analyze h p w₁).workspace r.cachePath = (w₂, .error c)) :
      Course r h w ⟨(r.analyze h p w₁).batches, w₂, .error (.cache c)⟩
  | saved {w₁ w₂ : Workspace} {p : Plan} {s : Store} {S : Summary}
      (hp : r.prepare h w = (w₁, .ok (p, s)))
      (hs : (r.stored h p s w₁).save (r.analyze h p w₁).workspace r.cachePath = (w₂, .ok ())) :
      Course r h w ⟨(r.analyze h p w₁).batches, w₂, .ok S⟩

theorem run_course (r : Runner) (h : Host) (w : Workspace) : r.Course h w (r.run h w) := by
  rw [run_eq]
  split
  next w₁ e hp => exact .stopped hp
  next w₁ p s hp =>
    rw [carryOut_eq]
    split
    next w₂ c hs => exact .unsaved hp hs
    next w₂ hs => exact .saved hp hs

/-! ## runs that fail -/

/-- a run did not get to the analysis: it submitted nothing, and left what its commands left -/
structure Stopped (r : Runner) (h : Host) (w : Workspace) : Prop where
  batches : (r.run h w).batches = []
  workspace : (r.run h w).workspace = h.performAll r.errands w
  /-- so it does not matter what the executor does -/
  executor : ∀ exec, r.run { h with executor := exec } w = r.run h w

/-- a run only failed to save its outcomes, when all was analyzed that its plan asks for -/
structure Unsaved (r : Runner) (h : Host) (w : Workspace) (p : Plan) (s : Store) (c : CacheError) : Prop where
  prepared : r.prepare h w = (h.performAll r.errands w, .ok (p, s))
  batches : (r.run h w).batches = ((r.dispatch h p).batch? p.staleUnits).toList
  called : r.Called h p (h.performAll r.errands w) (r.run h w).batches
  saving : (r.stored h p s (h.performAll r.errands w)).save
      (r.analyze h p (h.performAll r.errands w)).workspace r.cachePath =
    ((r.run h w).workspace, .error c)

theorem run_stopped (he : (r.run h w).summary = .error e) (hcache : ∀ c, e ≠ .cache c) : r.Stopped h w := by
  have hcourse := run_course r h w
  generalize hresult : r.run h w = result at he hcourse
  cases hcourse with
  | stopped hp =>
    have hwork := prepare_workspace r h w
    rw [hp] at hwork
    refine ⟨congrArg Result.batches hresult, (congrArg Result.workspace hresult).trans hwork, fun exec => ?_⟩
    -- all that comes in front of the analysis is the same with another executor
    have hsame : r.prepare { h with executor := exec } w = r.prepare h w := rfl
    rw [hresult, run_eq, hsame, hp]
  | unsaved hp hs => exact absurd (Except.error.inj he).symm (hcache _)
  | saved hp hs => contradiction

theorem run_unsaved (he : (r.run h w).summary = .error (.cache c)) : ∃ p s, r.Unsaved h w p s c := by
  have hcourse := run_course r h w
  generalize hresult : r.run h w = result at he hcourse
  cases hcourse with
  | stopped hp =>
    obtain rfl := Except.error.inj he
    -- what goes wrong in front of the analysis is never the store
    rcases prepare_error hp with ⟨_, _, hne⟩ | ⟨_, _, hne⟩ | ⟨_, hne⟩
    · contradiction
    · contradiction
    · contradiction
  | @unsaved w₁ w₂ p s c' hp hs =>
    obtain rfl := RunError.cache.inj (Except.error.inj he)
    have hwork : w₁ = h.performAll r.errands w := by
      rw [← prepare_workspace, hp]
    subst hwork
    have hbatches : (r.run h w).batches = _ := congrArg Result.batches hresult
    refine ⟨p, s, hp, ?_, ?_, ?_⟩
    · rw [hbatches, analyze, Dispatch.batches_run]
    · rw [hbatches]
      exact called_analyze (prepare_ok hp)
    · rw [hresult]
      exact hs
  | saved hp hs => contradiction

/-- a plan calls no executor and changes no files, its command apart; nor does a run that fails, unless
saving is what fails, which comes last -/
theorem effects_of_failure (r : Runner) (h : Host) (w : Workspace) :
    ((r.plan h w).1 = h.performAll [r.versionErrand] w ∧
        ∀ exec, r.plan { h with executor := exec } w = r.plan h w) ∧
      (∀ e, (r.run h w).summary = .error e → (∀ c, e ≠ .cache c) → r.Stopped h w) ∧
      ∀ c, (r.run h w).summary = .error (.cache c) → ∃ p s, r.Unsaved h w p s c := by
  refine ⟨⟨plan_workspace r h w, fun exec => rfl⟩, fun e he hcache => ?_, fun c he => ?_⟩
  · exact run_stopped he hcache
  · exact run_unsaved he

end

end Runner

/-! ## a version that is blank, and a store that is a directory -/

open Workspace

/-- commands that take their time and print a blank -/
def blankHost : Host := { oneHost with execute := fun _ _ _ w => (w.tick, ⟨0, " "⟩) }

/-- there is a directory where the store should be -/
def blockedWorkspace : Workspace := oneWorkspace.put ["c"] (.directory 0)

theorem blank_run : (oneRunner.run blankHost oneWorkspace).summary = .error (.toolVersion "" "") := by
  have htrim : Text.trim " " = "" := by decide
  have hversion : oneRunner.toolVersion blankHost oneWorkspace =
      (oneWorkspace.tick, .error (.toolVersion "" "")) := by
    rw [Runner.toolVersion]
    simp only [blankHost, htrim]
    rfl
  rw [Runner.run, show oneRunner.generate blankHost oneWorkspace = (oneWorkspace, .ok ()) from rfl]
  dsimp only
  rw [hversion]

theorem blocked_nodes :
    blockedWorkspace.node? [] = some (.directory 0) ∧ blockedWorkspace.node? ["c"] = some (.directory 0) ∧
      blockedWorkspace.node? ["db"] = some (.file (Utf8.encode (Json.pretty oneDb)) 0 false) := by
  obtain ⟨hroot, _, hdb, _⟩ := one_nodes
  refine ⟨?_, ?_, ?_⟩
  · simpa [blockedWorkspace, node?_put] using hroot
  · rw [blockedWorkspace, node?_put, if_pos rfl]
  · simpa [blockedWorkspace, node?_put] using hdb

theorem blocked_find : blockedWorkspace.find oneRunner.cachePath = .ok (["c"], .directory 0) :=
  find_top_directory (by decide) blocked_nodes.2.1

theorem blocked_save (s : Store) :
    s.save blockedWorkspace oneRunner.cachePath = (blockedWorkspace, .error (.io (top "c") .isDirectory)) := by
  rw [Store.save, createParent_top (by decide) blocked_nodes.1]
  dsimp only
  rw [writeText, write, find_eq_ok_iff.mp blocked_find]
  rfl

/-- the run of the unit whose outcome cannot be saved, and its batch -/
theorem blocked_run :
    (oneRunner.run oneHost blockedWorkspace).summary = .error (.cache (.io (top "c") .isDirectory)) ∧
      ∃ b, (oneRunner.run oneHost blockedWorkspace).batches = [b] ∧ b.jobs.keys = ["a.cc"] := by
  obtain ⟨p, s, hp, hplan, hus, _⟩ := one_prepare blocked_nodes.2.2
  have hempty : Store.loadOrEmpty blockedWorkspace oneRunner.cachePath = {} :=
    Store.loadOrEmpty_of_find blocked_find
  have hstale := one_staleUnits hplan hus (one_uncached_of_empty hplan hempty "a.cc")
  rw [Runner.run_of_prepare hp, Runner.carryOut_eq, one_analyze_workspace, blocked_save]
  refine ⟨rfl, ?_⟩
  unfold Runner.analyze
  rw [hstale]
  exact ⟨_, rfl, rfl⟩

/-- a version is asked for in vain, and then nothing else happens; a unit is analyzed in vain -/
theorem one_failures :
    (oneRunner.Stopped blankHost oneWorkspace ∧
        (oneRunner.run blankHost oneWorkspace).workspace = oneWorkspace.tick) ∧
      ∃ p s b, oneRunner.Unsaved oneHost blockedWorkspace p s (.io (top "c") .isDirectory) ∧
        (oneRunner.run oneHost blockedWorkspace).batches = [b] ∧ b.jobs.keys = ["a.cc"] ∧
        (oneRunner.run oneHost blockedWorkspace).workspace = blockedWorkspace := by
  obtain ⟨_, hstops, _⟩ := Runner.effects_of_failure oneRunner blankHost oneWorkspace
  obtain ⟨_, _, hsaves⟩ := Runner.effects_of_failure oneRunner oneHost blockedWorkspace
  have hstopped := hstops _ blank_run (by simp)
  obtain ⟨hsummary, b, hb, hjobs⟩ := blocked_run
  obtain ⟨p, s, hunsaved⟩ := hsaves _ hsummary
  refine ⟨⟨hstopped, hstopped.workspace.trans rfl⟩, p, s, b, hunsaved, hb, hjobs, ?_⟩
  have hsaving := hunsaved.saving
  rw [Host.performAll_idle (fun _ _ _ _ => rfl), one_analyze_workspace, blocked_save] at hsaving
  exact (Prod.mk.inj hsaving).1.symm

end IncrementalLint
