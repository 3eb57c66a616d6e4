import IncrementalLint.CommandLine.Perform
import IncrementalLint.Proofs.Run
import IncrementalLint.Proofs.Template

/-!
# What is submitted

Settings that were accepted allow at least one job and one second, and so does every command line that
names a number for either. Whatever of both a run goes by, it submits no batch that cannot be worked on.

* `count?_bounds`                what a number on a command line is;
* `Given.Counted`                the invariant of reading a command line, kept by each of its steps;
* `Request.read_counted`         the options of a run that a command line asks for;
* `Runner.batch_of_mem`          the one batch that a run may submit;
* `Runner.batches_sound`         its jobs, its limits, and the line that analyzes a unit.
-/

namespace IncrementalLint

/-! ## numbers on a command line -/

theorem count?_bounds {most n : Nat} {s : String} (h : count? most s = some n) : 1 ≤ n ∧ n ≤ most := by
  unfold count? at h
  extract_lets digits at h
  split at h
  · contradiction
  · split at h
    next hn =>
      obtain rfl := Option.some.inj h
      exact hn
    next => contradiction

/-- from a result of two steps, that of the first -/
theorem bind_ok {ε α β : Type} {x : Except ε α} {f : α → Except ε β} {b : β}
    (h : x >>= f = .ok b) : ∃ a, x = .ok a ∧ f a = .ok b := by
  cases x with
  | error e => contradiction
  | ok a => exact ⟨a, rfl, h⟩

namespace Given

/-- a number that is given is at least one -/
structure Counted (g : Given) : Prop where
  jobs : ∀ n, g.jobs = some n → 1 ≤ n
  timeout : ∀ n, g.timeout = some n → 1 ≤ n

theorem counted_empty : Counted {} := ⟨fun _ h => by contradiction, fun _ h => by contradiction⟩

section
variable {α : Type} {l : Side} {g g' : Given} {s : Setting}

theorem once_ok {old new x : Option α} (h : once old new = .ok x) : x = new := by
  unfold once at h
  split at h
  · exact (Except.ok.inj h).symm
  · contradiction

theorem Counted.addSwitch {x : Switch} (hg : g.Counted) (h : g.addSwitch x = .ok g') : g'.Counted := by
  cases x with
  | quiet =>
    obtain ⟨b, _, h⟩ := bind_ok h
    obtain rfl := Except.ok.inj h
    exact ⟨hg.jobs, hg.timeout⟩
  | verbose =>
    obtain ⟨b, _, h⟩ := bind_ok h
    obtain rfl := Except.ok.inj h
    exact ⟨hg.jobs, hg.timeout⟩
  | help => contradiction
  | version => contradiction

theorem Counted.addSetting {value : String} (hg : g.Counted) (h : g.addSetting s value = .ok g') :
    g'.Counted := by
  cases s with
  | jobs =>
    obtain ⟨x, hx, h⟩ := bind_ok h
    obtain rfl := Except.ok.inj h
    obtain rfl := once_ok hx
    exact ⟨fun n hn => (count?_bounds hn).1, hg.timeout⟩
  | timeout =>
    obtain ⟨x, hx, h⟩ := bind_ok h
    obtain rfl := Except.ok.inj h
    obtain rfl := once_ok hx
    exact ⟨hg.jobs, fun n hn => (count?_bounds hn).1⟩
  | project | form | output =>
    obtain ⟨x, _, h⟩ := bind_ok h
    obtain rfl := Except.ok.inj h
    exact ⟨hg.jobs, hg.timeout⟩

theorem Counted.addLetters {cs : List Char} {lacking : Option Setting} (hg : g.Counted)
    (h : g.addLetters l cs = .ok (g', lacking)) : g'.Counted := by
  induction cs generalizing g with
  | nil =>
    obtain ⟨rfl, _⟩ := Prod.mk.inj (Except.ok.inj h)
    exact hg
  | cons c cs ih =>
    unfold Given.addLetters at h
    split at h
    · contradiction
    · obtain ⟨g₁, hs, h⟩ := bind_ok h
      exact ih (hg.addSwitch hs) h
    · split at h
      · obtain ⟨rfl, _⟩ := Prod.mk.inj (Except.ok.inj h)
        exact hg
      · obtain ⟨g₁, hs, h⟩ := bind_ok h
        obtain ⟨rfl, _⟩ := Prod.mk.inj (Except.ok.inj h)
        exact hg.addSetting hs
      · obtain ⟨g₁, hs, h⟩ := bind_ok h
        obtain ⟨rfl, _⟩ := Prod.mk.inj (Except.ok.inj h)
        exact hg.addSetting hs

theorem Counted.addLong {name : String} {value : Option String} {lacking : Option Setting} (hg : g.Counted)
    (h : g.addLong l name value = .ok (g', lacking)) : g'.Counted := by
  unfold Given.addLong at h
  split at h
  · obtain ⟨g₁, hs, h⟩ := bind_ok h
    obtain ⟨rfl, _⟩ := Prod.mk.inj (Except.ok.inj h)
    exact hg.addSwitch hs
  · obtain ⟨g₁, hs, h⟩ := bind_ok h
    obtain ⟨rfl, _⟩ := Prod.mk.inj (Except.ok.inj h)
    exact hg.addSetting hs
  · obtain ⟨rfl, _⟩ := Prod.mk.inj (Except.ok.inj h)
    exact hg
  · contradiction

theorem Counted.readWords {words rest : List String} {lacking : Option Setting} (hg : g.Counted)
    (h : g.readWords l lacking words = .ok (g', rest)) : g'.Counted := by
  induction words generalizing g lacking with
  | nil =>
    unfold Given.readWords at h
    split at h
    · contradiction
    · obtain ⟨rfl, _⟩ := Prod.mk.inj (Except.ok.inj h)
      exact hg
  | cons w ws ih =>
    unfold Given.readWords at h
    split at h
    · obtain ⟨g₁, hs, h⟩ := bind_ok h
      exact ih (hg.addSetting hs) h
    · contradiction
    · split at h
      · obtain ⟨rfl, _⟩ := Prod.mk.inj (Except.ok.inj h)
        exact hg
      · contradiction
    · obtain ⟨⟨g₁, lacking₁⟩, hs, h⟩ := bind_ok h
      exact ih (hg.addLong hs) h
    · obtain ⟨⟨g₁, lacking₁⟩, hs, h⟩ := bind_ok h
      exact ih (hg.addLetters hs) h
    · obtain ⟨rfl, _⟩ := Prod.mk.inj (Except.ok.inj h)
      exact hg

end

end Given

/-- a run is asked for with the numbers given behind its name -/
theorem Request.read_counted {words : List String} {q : Request} {o : RunOptions}
    (h : read words = .ok q) (ho : q.command = .run o) :
    (∀ n, o.jobs = some n → 1 ≤ n) ∧ ∀ n, o.timeout = some n → 1 ≤ n := by
  obtain ⟨⟨front, rest⟩, _, h⟩ := bind_ok h
  dsimp only at h
  split at h
  · contradiction
  · split at h
    · contradiction
    next l _ =>
      obtain ⟨⟨g, rest'⟩, hg, h⟩ := bind_ok h
      have hcounted := Given.counted_empty.readWords hg
      dsimp only at h
      split at h
      next command hcommand =>
        obtain rfl := Except.ok.inj h
        obtain rfl : command = .run o := ho
        cases l with
        | behindRun =>
          obtain rfl := Command.run.inj (Option.some.inj hcommand)
          exact ⟨hcounted.jobs, hcounted.timeout⟩
        | _ => cases hcommand
      · contradiction

/-! ## settings that were accepted -/

theorem Settings.limits_of_parse {text : String} {s : Settings} (h : parse text = .ok s) :
    (∀ n, s.jobs.parallelism = some n → 1 ≤ n) ∧ 1 ≤ s.jobs.timeoutSecs ∧
      Text.contains filePlaceholder s.analysis.command = true := by
  have hfault := fault?_of_parse h
  unfold fault? at hfault
  split_ifs at hfault with _ _ _ _ hfile _ hjobs htime
  refine ⟨fun n hn => ?_, Nat.one_le_iff_ne_zero.mpr htime, by simpa using hfile⟩
  refine Nat.one_le_iff_ne_zero.mpr ?_
  rintro rfl
  exact hjobs hn

namespace RunOptions

variable {o : RunOptions} {s : Settings} {cores : Nat}

/-- a limit is what the command line says, or else what the settings say -/
theorem one_le_parallelism (hj : ∀ n, o.jobs = some n → 1 ≤ n)
    (hs : ∀ n, s.jobs.parallelism = some n → 1 ≤ n)
    (hcores : o.jobs = none → s.jobs.parallelism = none → 1 ≤ cores) :
    1 ≤ (o.override s).jobs.effectiveParallelism cores := by
  show 1 ≤ (o.jobs.or s.jobs.parallelism).getD cores
  cases hjobs : o.jobs with
  | some n => exact hj n hjobs
  | none =>
    cases hset : s.jobs.parallelism with
    | some n => exact hs n hset
    | none => exact hcores hjobs hset

theorem one_le_timeoutSecs (ht : ∀ n, o.timeout = some n → 1 ≤ n) (hs : 1 ≤ s.jobs.timeoutSecs) :
    1 ≤ (o.override s).jobs.timeoutSecs := by
  show 1 ≤ o.timeout.getD s.jobs.timeoutSecs
  cases htime : o.timeout with
  | some n => exact ht n htime
  | none => exact hs

end RunOptions

/-! ## batches -/

namespace Dispatch

section
variable {d : Dispatch} {stale : List SourceUnit} {b : Batch}

theorem limits_batch? (hb : d.batch? stale = some b) :
    b.parallelism = d.parallelism ∧ b.timeout = d.timeout := by
  unfold batch? at hb
  split at hb
  · contradiction
  · obtain rfl := Option.some.inj hb
    exact ⟨rfl, rfl⟩

/-- a job ends with the analysis of its unit -/
theorem jobCommand_ends (d : Dispatch) (u : SourceUnit) :
    ∃ front, d.jobCommand u = front ++ d.analysisStep u ++ " )" := ⟨_, rfl⟩

/-- a batch has a job -/
theorem one_le_size (hd : (stale.map (·.id)).Nodup) (hb : d.batch? stale = some b) : 1 ≤ b.jobs.size := by
  have hsize : b.jobs.size = stale.length := by
    rw [← SortedMap.length_keys, (keys_jobs hd hb).length_eq, List.length_map]
  have hstale : stale ≠ [] := by
    rintro rfl
    cases hb
  rw [hsize]
  exact List.length_pos_iff.mpr hstale

end

end Dispatch

namespace Runner

section
variable {r : Runner} {h : Host} {w : Workspace} {b : Batch}

/-- a run submits nothing but the stale units of its plan -/
theorem batch_of_mem (hb : b ∈ (r.run h w).batches) :
    ∃ p s w', r.prepare h w = (w', .ok (p, s)) ∧ (r.dispatch h p).batch? p.staleUnits = some b := by
  cases hp : r.prepare h w with
  | mk w' result =>
    cases result with
    | error e =>
      rw [run_eq, hp] at hb
      contradiction
    | ok planned =>
      obtain ⟨p, s⟩ := planned
      rw [batches_of_prepare hp, analyze, Dispatch.batches_run] at hb
      exact ⟨p, s, w', rfl, Option.mem_toList.mp hb⟩

theorem settings_of_create {s : Settings} {dir : Path} (hr : create w s dir = .ok r) : r.settings = s := by
  unfold create at hr
  split at hr
  · obtain rfl := Except.ok.inj hr
    rfl
  · contradiction

end

/-- For settings that were accepted and a command line that asks for a run, every batch has a job, one
job at a time and one second at least. Where the analysis command has no brace but those of its
placeholders and the rules have none, the line for a unit has the file and the rules filled in at once;
it names the file. -/
theorem batches_sound {text : String} {words : List String} {q : Request} {o : RunOptions} {s : Settings}
    {r : Runner} {w₀ : Workspace} {dir : Path} (hs : Settings.parse text = .ok s)
    (hq : Request.read words = .ok q) (ho : q.command = .run o)
    (hr : create w₀ (o.override s) dir = .ok r) (h : Host)
    (hcores : o.jobs = none → s.jobs.parallelism = none → 1 ≤ h.cores) (w : Workspace) :
    (∀ b ∈ (r.run h w).batches, 1 ≤ b.jobs.size ∧ 1 ≤ b.parallelism ∧ 1000 ≤ b.timeout) ∧
      (OnlyPlaceholders s.analysis.command.toList → '\x7b' ∉ s.analysis.ruleSetId.toList →
        ∃ t : Template, t.text = s.analysis.command ∧ .file ∈ t ∧
          ∀ p st w', r.prepare h w = (w', .ok (p, st)) →
            (∀ u, (r.dispatch h p).analysisStep u =
              t.fill (Shell.quote u.path.text) (Text.joinWith "," s.analysis.rules)) ∧
            ∀ b ∈ (r.run h w).batches, ∀ u ∈ p.staleUnits, ∃ front, b.jobs.get? u.id =
              some (front ++ t.fill (Shell.quote u.path.text) (Text.joinWith "," s.analysis.rules) ++ " )")) := by
  obtain ⟨hj, ht⟩ := Request.read_counted hq ho
  obtain ⟨hparallel, htime, hfile⟩ := Settings.limits_of_parse hs
  have hsettings : r.settings = o.override s := settings_of_create hr
  refine ⟨fun b hb => ?_, fun honly hrules => ?_⟩
  · obtain ⟨p, st, w', hp, hb⟩ := batch_of_mem hb
    refine ⟨Dispatch.one_le_size (prepare_ok hp).stale_nodup hb, ?_, ?_⟩
    · rw [(Dispatch.limits_batch? hb).1]
      show 1 ≤ r.settings.jobs.effectiveParallelism h.cores
      rw [hsettings]
      exact RunOptions.one_le_parallelism hj hparallel hcores
    · rw [(Dispatch.limits_batch? hb).2]
      show 1000 ≤ r.settings.jobs.timeoutSecs * 1000
      rw [hsettings]
      have hone := RunOptions.one_le_timeoutSecs ht htime
      omega
  · obtain ⟨t, hcommand⟩ := Template.exists_text_eq honly
    have hnamed : Piece.file ∈ t := by
      refine Template.file_mem ?_
      rw [← Template.toList_text, hcommand]
      exact hfile
    refine ⟨t, hcommand, hnamed, fun p st w' hp => ?_⟩
    have hid : p.ruleSetId = s.analysis.ruleSetId := by
      rw [(prepare_ok hp).rules, hsettings]
      rfl
    have htext : (r.dispatch h p).analysisCommand = t.text := by
      show r.settings.analysis.command = t.text
      rw [hsettings, hcommand]
      rfl
    have hstep : ∀ u, (r.dispatch h p).analysisStep u =
        t.fill (Shell.quote u.path.text) (Text.joinWith "," s.analysis.rules) := by
      intro u
      rw [Template.analysisStep_text htext (show '\x7b' ∉ p.ruleSetId.toList from hid ▸ hrules)]
      exact congrArg (t.fill _) hid
    refine ⟨hstep, fun b hb u hu => ?_⟩
    obtain ⟨front, hline⟩ := (r.dispatch h p).jobCommand_ends u
    rw [batches_of_prepare hp, analyze, Dispatch.batches_run, Option.mem_toList] at hb
    exact ⟨front, by rw [Dispatch.job_of_mem (prepare_ok hp).stale_nodup hb hu, hline, hstep u]⟩

end Runner

/-! ## a project with two rules -/

def ruledText : String :=
  "project = \x7bname = \"ruled\"\x7d\n" ++
  "compile_db = \x7bpath = \"db\"\x7d\n" ++
  "analysis = \x7bcommand = \"tidy \x7brules\x7d \x7bfile\x7d\", version_command = \"v\", " ++
    "rules = [\"a\", \"b\"]\x7d\n" ++
  "cache = \x7bpath = \"c\"\x7d\n"

def ruledSettings : Settings where
  project := { name := "ruled" }
  compileDb := { path := "db" }
  analysis := { command := "tidy \x7brules\x7d \x7bfile\x7d", versionCommand := "v", rules := ["a", "b"] }
  cache := { path := "c" }

/-- four jobs at once -/
def ruledOptions : RunOptions := { jobs := some 4 }

def ruledRunner : Runner := ⟨ruledOptions.override ruledSettings, ⟨"/"⟩⟩

theorem ruled_parse : Settings.parse ruledText = .ok ruledSettings := by
  have h : (Settings.parse ruledText).toOption = some ruledSettings := by decide +kernel
  cases hs : Settings.parse ruledText with
  | error e =>
    rw [hs] at h
    contradiction
  | ok s =>
    rw [hs] at h
    rw [Option.some.inj h]

theorem ruled_read : Request.read ["run", "-j4"] = .ok ⟨.run ruledOptions, false, false, none⟩ := rfl

theorem ruled_create :
    Runner.create oneWorkspace (ruledOptions.override ruledSettings) ⟨"/"⟩ = .ok ruledRunner :=
  rfl

/-- its one unit is submitted -/
theorem ruled_submits :
    ∃ p st, ruledRunner.prepare oneHost oneWorkspace = (oneWorkspace, .ok (p, st)) ∧
      p.staleUnits = [oneUnit] := by
  obtain ⟨_, hc, hdb, _⟩ := one_nodes
  have henumerate : ruledRunner.enumerate oneWorkspace = .ok [oneUnit] := one_enumerate hdb
  obtain ⟨p, st, hp, hus⟩ := Runner.exists_planFor henumerate "1"
  obtain ⟨hplan, _⟩ := Runner.planFor_ok hp
  have hversion : ruledRunner.toolVersion oneHost oneWorkspace = (oneWorkspace, .ok "1") :=
    one_toolVersion oneWorkspace
  have hempty : Store.loadOrEmpty oneWorkspace ruledRunner.cachePath = {} := by
    rw [Store.loadOrEmpty_eq, show ruledRunner.cachePath = Workspace.top "c" from rfl,
      Workspace.find_top_none (by decide) hc]
  have huncached : p.cached.get? oneUnit.id = none := by
    cases hget : p.cached.get? oneUnit.id with
    | none => rfl
    | some o =>
      have hstored := (hplan.stored_of_cached hget).1
      rw [hempty] at hstored
      contradiction
  refine ⟨p, st, ?_, ?_⟩
  · rw [Runner.prepare_eq rfl hversion, hp]
  · unfold Plan.staleUnits
    rw [hus, List.filter_eq_self]
    intro u hu
    obtain rfl := List.mem_singleton.mp hu
    exact (List.mem_filter.mp (hplan.mem_staleUnits.mpr ⟨hus ▸ hu, huncached⟩)).2

theorem ruled_batches_sound :
    ∃ b ∈ (ruledRunner.run oneHost oneWorkspace).batches,
      1 ≤ b.jobs.size ∧ 1 ≤ b.parallelism ∧ 1000 ≤ b.timeout ∧
        ∃ front, b.jobs.get? "a.cc" = some (front ++ "tidy a,b /a.cc" ++ " )") := by
  obtain ⟨hbatches, hline⟩ := Runner.batches_sound ruled_parse ruled_read rfl ruled_create oneHost
    (fun _ _ => le_refl 1) oneWorkspace
  obtain ⟨p, st, hp, hstale⟩ := ruled_submits
  obtain ⟨t, ht, _, hstep⟩ := hline (by decide +kernel) (by decide)
  obtain ⟨b, hb⟩ : ∃ b, b ∈ (ruledRunner.run oneHost oneWorkspace).batches := by
    rw [Runner.batches_of_prepare hp, Runner.analyze, Dispatch.batches_run, hstale]
    exact ⟨_, List.mem_singleton.mpr rfl⟩
  obtain ⟨hunit, hjobs⟩ := hstep p st _ hp
  obtain ⟨front, hfront⟩ := hjobs b hb oneUnit (hstale ▸ List.mem_singleton.mpr rfl)
  obtain ⟨hsize, hparallel, htime⟩ := hbatches b hb
  have hanalysis : (ruledRunner.dispatch oneHost p).analysisStep oneUnit = "tidy a,b /a.cc" := by
    unfold Dispatch.analysisStep Runner.dispatch
    rw [(Runner.prepare_ok hp).rules]
    decide +kernel
  rw [← hunit oneUnit, hanalysis] at hfront
  exact ⟨b, hb, hsize, hparallel, htime, front, hfront⟩

end IncrementalLint
