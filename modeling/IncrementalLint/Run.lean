import IncrementalLint.Dispatch
import IncrementalLint.Plan
import IncrementalLint.Report

/-!
# Runs

A run makes the compilation database anew if the project says how, asks the analyzer for its
version, plans, has the stale units analyzed, and saves what came of it. Nothing is submitted and
nothing is saved before all that can fail in front of the analysis has succeeded.

* `Runner.plan`     what a run would do, with the database as it is;
* `Runner.run`      a run: the batches it submitted, the workspace after, and its summary;
* `Runner.clean`    removes the saved outcomes.
-/

namespace IncrementalLint

/-- what a run needs from where it takes place -/
structure Host where
  /-- runs one command under a name in a directory, and waits for it -/
  execute : String → String → Path → Workspace → Workspace × Outcome
  /-- runs batches -/
  executor : Executor
  /-- how many jobs run at once if nothing else is said -/
  cores : Nat

/-! ## what can go wrong -/

inductive RunError where
  | cache (cause : CacheError)
  | projectDir (path : Path) (cause : FileError)
  | compileDb (cause : CompileDbError)
  | generation (command output : String)
  | toolVersion (command output : String)
  deriving DecidableEq, Inhabited

def RunError.message : RunError → String
  | .cache cause => cause.message
  | .projectDir path cause =>
    "cannot resolve project directory " ++ path.text ++ ": " ++ cause.message
  | .compileDb cause => cause.message
  | .generation command output =>
    "couldn't create compilation database with `" ++ command ++ "`:\n" ++ output
  | .toolVersion command output =>
    "couldn't figure out analyzer version with `" ++ command ++ "`:\n" ++ output

/-! ## runners -/

/-- settings and the absolute directory that they are about -/
structure Runner where
  settings : Settings
  projectDir : Path
  deriving DecidableEq, Inhabited

namespace Runner

/-- settings for a directory as seen from the current one -/
def create (w : Workspace) (s : Settings) (dir : Path) : Except RunError Runner :=
  match Path.absolute? w.cwdPath dir with
  | some d => .ok ⟨s, d⟩
  | none => .error (.projectDir dir .emptyPath)

def resolve (r : Runner) (path : String) : Path := Settings.resolve r.projectDir path

def cachePath (r : Runner) : Path := r.resolve r.settings.cache.path

/-- below which the dependencies of units are listed -/
def listingDir (r : Runner) : Path := r.resolve r.settings.cache.dependencyDir

/-- where the analysis of a unit starts -/
def workDir (r : Runner) : Path := r.resolve r.settings.analysis.workDir

/-! ## in front of the analysis -/

/-- makes the compilation database anew, if the settings say how -/
def generate (r : Runner) (h : Host) (w : Workspace) : Workspace × Except RunError Unit :=
  match r.settings.compileDb.generate with
  | none => (w, .ok ())
  | some command =>
    let (w, o) := h.execute "Building compilation database..." command r.workDir w
    (w, if o.passed then .ok () else .error (.generation command o.output))

/-- what the analyzer calls its version; an empty answer is none -/
def toolVersion (r : Runner) (h : Host) (w : Workspace) : Workspace × Except RunError String :=
  let command := r.settings.analysis.versionCommand
  let (w, o) := h.execute "Looking up analyzer version..." command r.projectDir w
  let version := Text.trim o.output
  (w, if o.passed && !version.isEmpty then .ok version else .error (.toolVersion command version))

def enumerate (r : Runner) (w : Workspace) : Except RunError (List SourceUnit) :=
  let s := r.settings
  match SourceUnit.enumerate w (r.resolve s.compileDb.path) (r.resolve s.project.sourceRoot) s.units with
  | .ok us => .ok us
  | .error e => .error (.compileDb e)

def classify (r : Runner) (w : Workspace) (us : List SourceUnit) (s : Store) : Classification :=
  Classification.ofUnits w r.listingDir s us

/-- the plan for a version of the analyzer, with the store it was made by -/
def planFor (r : Runner) (version : String) (w : Workspace) : Except RunError (Plan × Store) :=
  match r.enumerate w with
  | .error e => .error e
  | .ok us =>
    let rules := r.settings.analysis.ruleSetId
    let (store, invalidated) := (Store.loadOrEmpty w r.cachePath).validateTags rules version
    let c := r.classify w us store
    .ok ({
      units := us
      cached := c.cached
      stale := c.stale
      invalidated
      ruleSetId := rules
      toolVersionId := version }, store)

def plan (r : Runner) (h : Host) (w : Workspace) : Workspace × Except RunError Plan :=
  match r.toolVersion h w with
  | (w, .error e) => (w, .error e)
  | (w, .ok version) => (w, (r.planFor version w).map (·.1))

/-! ## the analysis -/

def dispatch (r : Runner) (h : Host) (p : Plan) : Dispatch where
  workDir := r.workDir
  listingDir := r.listingDir
  analysisCommand := r.settings.analysis.command
  ruleSetId := p.ruleSetId
  parallelism := r.settings.jobs.effectiveParallelism h.cores
  timeout := r.settings.jobs.timeoutSecs * 1000
  multilineOutputFails := r.settings.analysis.multilineOutputFails

/-- what came of a run -/
structure Summary where
  report : Report
  cached : Nat
  dispatched : Nat
  invalidated : Bool
  ruleSetId : String
  toolVersionId : String
  deriving DecidableEq, Inhabited

/-- what a run did: the batches it submitted, the workspace after, and what came of it -/
structure Result where
  batches : List Batch
  workspace : Workspace
  summary : Except RunError Summary

/-- a run from its plan on -/
def carryOut (r : Runner) (h : Host) (p : Plan) (s : Store) (w : Workspace) : Result :=
  let d := (r.dispatch h p).run h.executor p.staleUnits w
  let (report, s) := aggregate p.ids d.outcomes p.cached s
  match s.save d.workspace r.cachePath with
  | (w, .error e) => ⟨d.batches, w, .error (.cache e)⟩
  | (w, .ok ()) => ⟨d.batches, w, .ok {
      report
      cached := p.cached.size
      dispatched := p.staleUnits.length
      invalidated := p.invalidated
      ruleSetId := p.ruleSetId
      toolVersionId := p.toolVersionId }⟩

def run (r : Runner) (h : Host) (w : Workspace) : Result :=
  match r.generate h w with
  | (w, .error e) => ⟨[], w, .error e⟩
  | (w, .ok ()) =>
    match r.toolVersion h w with
    | (w, .error e) => ⟨[], w, .error e⟩
    | (w, .ok version) =>
      match r.planFor version w with
      | .error e => ⟨[], w, .error e⟩
      | .ok (p, s) => r.carryOut h p s w

/-- removes the saved outcomes; the flag tells whether there were any -/
def clean (r : Runner) (w : Workspace) : Workspace × Except RunError Bool :=
  match Store.remove w r.cachePath with
  | (w, .ok removed) => (w, .ok removed)
  | (w, .error e) => (w, .error (.cache e))

end Runner

end IncrementalLint
