import IncrementalLint.Path

/-!
# Settings

What a project says about itself: where its units come from, how each is analyzed, where results
are kept, and how many jobs may run for how long.

* `UnitFilter.accepts`    which files are units;
* `Analysis.ruleSetId`    the identifier of the active rules;
* `Settings.resolve`      a configured path as seen from the project directory.
-/

namespace IncrementalLint

/-- which files of a compilation database are analyzed -/
structure UnitFilter where
  extensions : List String := [".cc"]
  excludeSuffixes : List String := [".cxxtest.cc"]
  excludePrefixes : List String := []
  deriving DecidableEq, Inhabited

/-- a file is a unit if it ends in an extension and no exclusion holds -/
def UnitFilter.accepts (f : UnitFilter) (id : String) : Bool :=
  f.extensions.any (Text.endsWith id) &&
    !(f.excludeSuffixes.any (Text.endsWith id)) && !(f.excludePrefixes.any (Text.startsWith id))

structure Project where
  name : String
  sourceRoot : String := "."
  deriving DecidableEq, Inhabited

structure CompileDb where
  path : String
  /-- the command that makes the database anew before a run -/
  generate : Option String := none
  deriving DecidableEq, Inhabited

structure Analysis where
  workDir : String := "."
  /-- the command for one unit, with placeholders for its file and for the rules -/
  command : String
  versionCommand : String
  rules : List String := []
  /-- more than one line of output counts as a failure -/
  multilineOutputFails : Bool := true
  deriving DecidableEq, Inhabited

def Analysis.ruleSetId (a : Analysis) : String := Text.joinWith "," a.rules

structure CacheFiles where
  path : String := "recheck_cache.json"
  dependencyDir : String := "dependencies"
  deriving DecidableEq, Inhabited

structure JobLimits where
  /-- as many jobs at once as there are cores, if not set -/
  parallelism : Option Nat := none
  timeoutSecs : Nat := 600
  deriving DecidableEq, Inhabited

def JobLimits.effectiveParallelism (j : JobLimits) (cores : Nat) : Nat := j.parallelism.getD cores

structure Settings where
  project : Project
  compileDb : CompileDb
  analysis : Analysis
  units : UnitFilter := {}
  cache : CacheFiles := {}
  jobs : JobLimits := {}
  deriving DecidableEq, Inhabited

namespace Settings

/-- stands for the file of a unit in an analysis command -/
def filePlaceholder : String := "\x7bfile\x7d"

/-- stands for the identifier of the rules in an analysis command -/
def rulesPlaceholder : String := "\x7brules\x7d"

/-- the name of the file that holds the settings of a project -/
def fileName : String := "recheck.toml"

/-- a configured path as seen from the project directory -/
def resolve (projectDir : Path) (path : String) : Path := projectDir.join ⟨path⟩

end Settings

end IncrementalLint
