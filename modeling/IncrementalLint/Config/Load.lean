import IncrementalLint.Config.Settings
import IncrementalLint.Files.Change
import IncrementalLint.Toml.Reader
import IncrementalLint.Toml.Decode

/-!
# Loading settings

Settings are read from TOML and then checked; the first fault in the order of `Settings.fault?` is
the one reported.

* `Settings.parse`     settings from text;
* `Settings.loadFile`  settings from a file;
* `Settings.load`      settings of a project directory.
-/

namespace IncrementalLint

/-! ## what can be wrong -/

inductive ConfigError where
  | unreadable (path : Path) (cause : FileError)
  | malformed
  /-- a setting that has no default is empty -/
  | unset (setting : String)
  | noFilePlaceholder
  | noExtensions
  | noParallelism
  | noTimeout
  deriving DecidableEq, Inhabited

namespace ConfigError

/-- a setting and what is wrong with it -/
def about (setting problem : String) : String :=
  "runner configuration `" ++ setting ++ "` " ++ problem

def message : ConfigError → String
  | unreadable path cause => "cannot read runner configuration " ++ path.text ++ ": " ++ cause.message
  | malformed => "runner configuration is malformed: not the expected tables and values"
  | unset setting => "runner configuration needs `" ++ setting ++ "` to be set"
  | noFilePlaceholder =>
    about "analysis.command"
      ("has no " ++ Settings.filePlaceholder ++ " placeholder for the unit being analyzed")
  | noExtensions =>
    about "units.extensions" "lists no source extensions, so no unit would be analyzed"
  | noParallelism => about "jobs.parallelism" "must allow at least one concurrent job"
  | noTimeout => about "jobs.timeout_secs" "must be at least one second"

end ConfigError

/-! ## from tables -/

open Toml in
def Project.ofToml? (t : Toml) : Option Project := do
  let fs ← Fields.ofToml? ["name", "source_root"] t
  return {
    name := ← fs.required? "name" asString?
    sourceRoot := ← fs.withDefault? "source_root" "." asString? }

open Toml in
def CompileDb.ofToml? (t : Toml) : Option CompileDb := do
  let fs ← Fields.ofToml? ["path", "generate"] t
  return {
    path := ← fs.required? "path" asString?
    generate := ← fs.withDefault? "generate" none (fun v => (asString? v).map some) }

open Toml in
def Analysis.ofToml? (t : Toml) : Option Analysis := do
  let fs ← Fields.ofToml?
    ["work_dir", "command", "version_command", "rules", "multiline_output_fails"] t
  return {
    workDir := ← fs.withDefault? "work_dir" "." asString?
    command := ← fs.required? "command" asString?
    versionCommand := ← fs.required? "version_command" asString?
    rules := ← fs.withDefault? "rules" [] (asList? asString?)
    multilineOutputFails := ← fs.withDefault? "multiline_output_fails" true asBool? }

open Toml in
def UnitFilter.ofToml? (t : Toml) : Option UnitFilter := do
  let fs ← Fields.ofToml? ["extensions", "exclude_suffixes", "exclude_prefixes"] t
  let default : UnitFilter := {}
  return {
    extensions := ← fs.withDefault? "extensions" default.extensions (asList? asString?)
    excludeSuffixes := ←
      fs.withDefault? "exclude_suffixes" default.excludeSuffixes (asList? asString?)
    excludePrefixes := ←
      fs.withDefault? "exclude_prefixes" default.excludePrefixes (asList? asString?) }

open Toml in
def CacheFiles.ofToml? (t : Toml) : Option CacheFiles := do
  let fs ← Fields.ofToml? ["path", "dependency_dir"] t
  let default : CacheFiles := {}
  return {
    path := ← fs.withDefault? "path" default.path asString?
    dependencyDir := ← fs.withDefault? "dependency_dir" default.dependencyDir asString? }

open Toml in
def JobLimits.ofToml? (t : Toml) : Option JobLimits := do
  let fs ← Fields.ofToml? ["parallelism", "timeout_secs"] t
  let default : JobLimits := {}
  return {
    parallelism := ← fs.withDefault? "parallelism" none (fun v => (asCount? v).map some)
    timeoutSecs := ← fs.withDefault? "timeout_secs" default.timeoutSecs asCount? }

namespace Settings

open Toml in
def ofToml? (t : Toml) : Option Settings := do
  let fs ← Fields.ofToml? ["project", "compile_db", "analysis", "units", "cache", "jobs"] t
  return {
    project := ← fs.required? "project" Project.ofToml?
    compileDb := ← fs.required? "compile_db" CompileDb.ofToml?
    analysis := ← fs.required? "analysis" Analysis.ofToml?
    units := ← fs.withDefault? "units" {} UnitFilter.ofToml?
    cache := ← fs.withDefault? "cache" {} CacheFiles.ofToml?
    jobs := ← fs.withDefault? "jobs" {} JobLimits.ofToml? }

/-! ## checks -/

/-- the first fault of settings that were read -/
def fault? (s : Settings) : Option ConfigError :=
  if s.project.name.isEmpty then some (.unset "project.name")
  else if s.compileDb.path.isEmpty then some (.unset "compile_db.path")
  else if s.analysis.command.isEmpty then some (.unset "analysis.command")
  else if s.analysis.versionCommand.isEmpty then some (.unset "analysis.version_command")
  else if !Text.contains filePlaceholder s.analysis.command then some .noFilePlaceholder
  else if s.units.extensions.isEmpty then some .noExtensions
  else if s.jobs.parallelism = some 0 then some .noParallelism
  else if s.jobs.timeoutSecs = 0 then some .noTimeout
  else none

def parse (text : String) : Except ConfigError Settings :=
  match (Toml.read? text).bind ofToml? with
  | none => .error .malformed
  | some s =>
    match s.fault? with
    | some e => .error e
    | none => .ok s

theorem fault?_of_parse {text : String} {s : Settings} (h : parse text = .ok s) :
    s.fault? = none := by
  unfold parse at h
  split at h
  · contradiction
  · split at h
    · contradiction
    · next hs =>
      simp only [Except.ok.injEq] at h
      exact h ▸ hs

def loadFile (w : Workspace) (path : Path) : Except ConfigError Settings :=
  match w.readText path with
  | .error e => .error (.unreadable path e)
  | .ok text => parse text

def load (w : Workspace) (projectDir : Path) : Except ConfigError Settings :=
  loadFile w (projectDir.join ⟨fileName⟩)

end Settings

end IncrementalLint
