import IncrementalLint.Run
import IncrementalLint.Proofs.Cache.Decision
import IncrementalLint.Proofs.Cache.File
import IncrementalLint.Proofs.Plan
import IncrementalLint.Proofs.Report

/-!
# The stages of a run

A run plans, has the stale units analyzed, and saves the outcomes of all its units.

* `Runner.prepare`, `Runner.run_eq`   all that comes in front of the analysis, and what follows it;
* `Runner.front`                      all that comes in front of the plan;
* `Runner.planFor_ok`                 what a plan is made of;
* `Planned.stored_of_cached`          what is reused was stored as a success under the same tags;
* `Dispatch.get?_run`                 a fresh outcome is a judged answer to a submitted job;
* `Runner.run_ok`                     what a run that succeeds reports and stores;
* `Runner.summary_of_prepare`         and all that it says of itself.
-/

namespace IncrementalLint

open Workspace

/-! ## dispatching -/

/-- an executor that answers nothing but what it was asked -/
def Executor.OnlyAsked (exec : Executor) : Prop :=
  ∀ b w id o, (exec b w).2.get? id = some o → (b.jobs.get? id).isSome = true

namespace Dispatch

section
variable {d : Dispatch} {exec : Executor} {stale : List SourceUnit} {w : Workspace} {id : String}
  {o : Outcome}

/-- a fresh outcome is a judged answer -/
theorem get?_run :
    (d.run exec stale w).outcomes.get? id = some o ↔
      ∃ b raw, d.batch? stale = some b ∧ (exec b w).2.get? id = some raw ∧ d.judge raw = o := by
  unfold run
  cases hb : d.batch? stale with
  | none => simp
  | some b => simp [SortedMap.get?_map]

/-- at most one batch is submitted -/
theorem batches_run : (d.run exec stale w).batches = (d.batch? stale).toList := by
  unfold run
  cases d.batch? stale with
  | none => rfl
  | some b => rfl

theorem mem_of_job {b : Batch} (hb : d.batch? stale = some b) (h : (b.jobs.get? id).isSome = true) :
    ∃ u ∈ stale, u.id = id := by
  unfold batch? at hb
  split at hb
  · contradiction
  · obtain rfl := Option.some.inj hb
    obtain ⟨line, hl⟩ := Option.isSome_iff_exists.mp h
    obtain ⟨u, hu, he⟩ := List.mem_map.mp (SortedMap.mem_of_get?_ofList hl)
    exact ⟨u, hu, (Prod.mk.inj he).1⟩

theorem job_of_mem {b : Batch} (hd : (stale.map (·.id)).Nodup) (hb : d.batch? stale = some b)
    {u : SourceUnit} (hu : u ∈ stale) : b.jobs.get? u.id = some (d.jobCommand u) := by
  unfold batch? at hb
  split at hb
  · contradiction
  · obtain rfl := Option.some.inj hb
    refine (SortedMap.get?_ofList_iff ?_).mpr (List.mem_map_of_mem hu)
    rw [List.map_map]
    exact hd

/-- one job for each stale unit -/
theorem keys_jobs {b : Batch} (hd : (stale.map (·.id)).Nodup) (hb : d.batch? stale = some b) :
    b.jobs.keys.Perm (stale.map (·.id)) := by
  refine (List.perm_ext_iff_of_nodup (SortedMap.nodup_keys _) hd).mpr fun id => ?_
  rw [SortedMap.mem_keys_iff, List.mem_map]
  constructor
  · exact mem_of_job hb
  · rintro ⟨u, hu, rfl⟩
    rw [job_of_mem hd hb hu]
    rfl

/-- one job for each unit, whatever their order -/
theorem batch?_perm {us : List SourceUnit} (h : us.Perm stale) (hd : (stale.map (·.id)).Nodup) :
    d.batch? us = d.batch? stale := by
  have hjobs : SortedMap.ofList (us.map fun u => (u.id, d.jobCommand u)) =
      SortedMap.ofList (stale.map fun u => (u.id, d.jobCommand u)) := by
    refine SortedMap.ofList_perm (h.map _) ?_
    rw [List.map_map]
    exact hd
  rw [batch?, batch?, hjobs, h.isEmpty_eq]

/-- only stale units have fresh outcomes -/
theorem stale_of_fresh (hexec : exec.OnlyAsked) (h : (d.run exec stale w).outcomes.get? id = some o) :
    ∃ u ∈ stale, u.id = id := by
  obtain ⟨b, raw, hb, hr, _⟩ := get?_run.mp h
  exact mem_of_job hb (hexec b w id raw hr)

end

end Dispatch

namespace Runner

section
variable {r : Runner} {h : Host} {w w' : Workspace} {p : Plan} {s : Store}

/-! ## planning -/

def prepare (r : Runner) (h : Host) (w : Workspace) : Workspace × Except RunError (Plan × Store) :=
  match r.generate h w with
  | (w, .error e) => (w, .error e)
  | (w, .ok ()) =>
    match r.toolVersion h w with
    | (w, .error e) => (w, .error e)
    | (w, .ok version) => (w, r.planFor version w)

theorem run_eq (r : Runner) (h : Host) (w : Workspace) :
    r.run h w = match r.prepare h w with
      | (w, .error e) => ⟨[], w, .error e⟩
      | (w, .ok (p, s)) => r.carryOut h p s w := by
  unfold run prepare
  obtain ⟨w₁, e | ⟨⟩⟩ := r.generate h w
  · rfl
  dsimp only
  obtain ⟨w₂, e | version⟩ := r.toolVersion h w₁
  · rfl
  dsimp only
  obtain e | ⟨p, s⟩ := r.planFor version w₂
  · rfl
  · rfl

/-- what comes in front of a plan -/
def front (r : Runner) (h : Host) (w : Workspace) : Workspace × Except RunError String :=
  match r.generate h w with
  | (w, .error e) => (w, .error e)
  | (w, .ok ()) => r.toolVersion h w

theorem prepare_front (r : Runner) (h : Host) (w : Workspace) :
    r.prepare h w = match r.front h w with
      | (w, .error e) => (w, .error e)
      | (w, .ok version) => (w, r.planFor version w) := by
  unfold prepare front
  obtain ⟨w₁, e | ⟨⟩⟩ := r.generate h w
  · rfl
  · rfl

/-- a plan with the store that it was made by, checked against its tags -/
structure Planned (r : Runner) (w : Workspace) (p : Plan) (s : Store) : Prop
    extends p.MadeOf w r.listingDir s where
  store : s = ((Store.loadOrEmpty w r.cachePath).validateTags p.ruleSetId p.toolVersionId).1
  units : r.enumerate w = .ok p.units
  rules : p.ruleSetId = r.settings.analysis.ruleSetId

/-- no id comes twice -/
theorem enumerate_nodup {us : List SourceUnit} (h : r.enumerate w = .ok us) : (us.map (·.id)).Nodup := by
  unfold enumerate at h
  dsimp only at h
  split at h
  next us' hus =>
    obtain rfl := Except.ok.inj h
    exact SourceUnit.enumerate_nodup hus
  next => contradiction

theorem planFor_ok {version : String} (h : r.planFor version w = .ok (p, s)) :
    r.Planned w p s ∧ p.toolVersionId = version := by
  unfold planFor at h
  split at h
  · contradiction
  next us hus =>
    obtain ⟨rfl, rfl⟩ := Prod.mk.inj (Except.ok.inj h)
    exact ⟨⟨⟨enumerate_nodup hus, rfl, rfl⟩, rfl, hus, rfl⟩, rfl⟩

theorem exists_planFor {us : List SourceUnit} (hus : r.enumerate w = .ok us) (version : String) :
    ∃ p s, r.planFor version w = .ok (p, s) ∧ p.units = us := by
  unfold planFor
  rw [hus]
  exact ⟨_, _, rfl, rfl⟩

theorem prepare_eq {w₁ w₂ : Workspace} {version : String} (hg : r.generate h w = (w₁, .ok ()))
    (hv : r.toolVersion h w₁ = (w₂, .ok version)) : r.prepare h w = (w₂, r.planFor version w₂) := by
  rw [prepare, hg]
  dsimp only
  rw [hv]

theorem prepare_ok (hp : r.prepare h w = (w', .ok (p, s))) : r.Planned w' p s := by
  unfold prepare at hp
  split at hp
  · exact absurd hp (by simp)
  · split at hp
    · exact absurd hp (by simp)
    next w₁ version _ =>
      obtain ⟨rfl, hplan⟩ := Prod.mk.inj hp
      exact (planFor_ok hplan).1

theorem prepare_unique {w'' : Workspace} {p' : Plan} {s' : Store} (hp : r.prepare h w = (w', .ok (p, s)))
    (hp' : r.prepare h w = (w'', .ok (p', s'))) : w'' = w' ∧ p' = p ∧ s' = s := by
  obtain ⟨hw, hresult⟩ := Prod.mk.inj (hp'.symm.trans hp)
  exact ⟨hw, Prod.mk.inj (Except.ok.inj hresult)⟩

/-- what is reused was stored as a success under the same tags -/
theorem Planned.stored_of_cached (hp : r.Planned w p s) {id : String} {o : Outcome}
    (hc : p.cached.get? id = some o) :
    (Store.loadOrEmpty w r.cachePath).get? id = some o ∧ o.passed = true ∧
      (Store.loadOrEmpty w r.cachePath).ruleSetId = p.ruleSetId ∧
      (Store.loadOrEmpty w r.cachePath).toolVersionId = p.toolVersionId := by
  obtain ⟨u, _, rfl, hd⟩ := hp.get?_cached.mp hc
  obtain ⟨hs, hpass, _⟩ := decideUnit_cached_iff.mp hd
  rw [hp.store, Store.get?_validateTags] at hs
  exact ⟨hs.1, hpass, hs.2⟩

/-! ## from the plan on -/

def analyze (r : Runner) (h : Host) (p : Plan) (w : Workspace) : Dispatch.Result :=
  (r.dispatch h p).run h.executor p.staleUnits w

def stored (r : Runner) (h : Host) (p : Plan) (s : Store) (w : Workspace) : Store :=
  (aggregate p.ids (r.analyze h p w).outcomes p.cached s).2

/-- the outcome of a unit in the end -/
def outcomeOf (r : Runner) (h : Host) (p : Plan) (w : Workspace) (id : String) : Outcome :=
  outcomeFor (r.analyze h p w).outcomes p.cached id

theorem get?_stored (hp : r.Planned w p s) (id : String) :
    (r.stored h p s w).get? id = if id ∈ p.ids then some (r.outcomeOf h p w id) else none :=
  get?_aggregate _ _ s hp.nodup id

/-- where an executor answers nothing but what it is asked, what a plan reuses stays as it is -/
theorem Planned.outcomeOf_cached (hp : r.Planned w p s) (hexec : h.executor.OnlyAsked) {id : String}
    {o : Outcome} (hc : p.cached.get? id = some o) : r.outcomeOf h p w id = o := by
  refine outcomeFor_reused ?_ hc
  cases hf : (r.analyze h p w).outcomes.get? id with
  | none => rfl
  | some o' =>
    obtain ⟨u, hu, rfl⟩ := Dispatch.stale_of_fresh hexec hf
    exact absurd hu (hp.notMem_stale_of_cached hc)

theorem stored_tags (hp : r.Planned w p s) :
    (r.stored h p s w).ruleSetId = p.ruleSetId ∧ (r.stored h p s w).toolVersionId = p.toolVersionId := by
  have htags := aggregate_tags p.ids (r.analyze h p w).outcomes p.cached s
  rw [hp.store] at htags
  unfold stored
  rw [hp.store]
  exact htags

/-- what is stored is the outcomes of the units, under the tags of the plan -/
theorem stored_text_congr {h' : Host} {p' : Plan} {s' : Store} {v : Workspace} (hp : r.Planned w p s)
    (hp' : r.Planned v p' s') (hids : ∀ id, id ∈ p'.ids ↔ id ∈ p.ids)
    (houtcome : ∀ id ∈ p.ids, r.outcomeOf h' p' v id = r.outcomeOf h p w id)
    (htool : p'.toolVersionId = p.toolVersionId) :
    (r.stored h' p' s' v).text = (r.stored h p s w).text := by
  obtain ⟨hrules₁, htool₁⟩ := stored_tags (h := h) hp
  obtain ⟨hrules₂, htool₂⟩ := stored_tags (h := h') hp'
  refine Store.text_congr (SortedMap.ext_get? fun id => ?_) ?_ ?_
  · have hget : (r.stored h p s w).entries.get? id = _ := get?_stored hp id
    have hget' : (r.stored h' p' s' v).entries.get? id = _ := get?_stored hp' id
    rw [hget, hget']
    by_cases hid : id ∈ p.ids
    · rw [if_pos hid, if_pos ((hids id).mpr hid), houtcome id hid]
    · rw [if_neg hid, if_neg (mt (hids id).mp hid)]
  · rw [hrules₁, hrules₂, hp.rules, hp'.rules]
  · rw [htool₁, htool₂, htool]

theorem carryOut_eq (r : Runner) (h : Host) (p : Plan) (s : Store) (w : Workspace) :
    r.carryOut h p s w =
      match (r.stored h p s w).save (r.analyze h p w).workspace r.cachePath with
      | (w', .error e) => ⟨(r.analyze h p w).batches, w', .error (.cache e)⟩
      | (w', .ok ()) => ⟨(r.analyze h p w).batches, w', .ok {
          report := (aggregate p.ids (r.analyze h p w).outcomes p.cached s).1
          cached := p.cached.size
          dispatched := p.staleUnits.length
          invalidated := p.invalidated
          ruleSetId := p.ruleSetId
          toolVersionId := p.toolVersionId }⟩ := by
  unfold carryOut
  dsimp only
  unfold stored analyze
  obtain ⟨report, store⟩ :=
    aggregate p.ids ((r.dispatch h p).run h.executor p.staleUnits w).outcomes p.cached s
  obtain ⟨w', e | ⟨⟩⟩ := store.save ((r.dispatch h p).run h.executor p.staleUnits w).workspace r.cachePath
  · rfl
  · rfl

/-- a run whose outcomes are saved succeeds -/
theorem run_saved (hp : r.prepare h w = (w', .ok (p, s))) {w₂ : Workspace}
    (hs : (r.stored h p s w').save (r.analyze h p w').workspace r.cachePath = (w₂, .ok ())) :
    (∃ S, (r.run h w).summary = .ok S) ∧ (r.run h w).workspace = w₂ := by
  rw [run_eq, hp]
  dsimp only
  rw [carryOut_eq, hs]
  exact ⟨⟨_, rfl⟩, rfl⟩

theorem run_of_prepare (hp : r.prepare h w = (w', .ok (p, s))) : r.run h w = r.carryOut h p s w' := by
  rw [run_eq, hp]

theorem batches_of_prepare (hp : r.prepare h w = (w', .ok (p, s))) :
    (r.run h w).batches = (r.analyze h p w').batches := by
  rw [run_of_prepare hp, carryOut_eq]
  split <;> rfl

/-- what a run that succeeds says of itself -/
theorem summary_of_prepare {S : Summary} (hp : r.prepare h w = (w', .ok (p, s)))
    (hS : (r.run h w).summary = .ok S) :
    S = {
      report := Report.ofOutcomes (p.ids.map fun id => (id, r.outcomeOf h p w' id))
      cached := p.cached.size
      dispatched := p.staleUnits.length
      invalidated := p.invalidated
      ruleSetId := p.ruleSetId
      toolVersionId := p.toolVersionId } := by
  rw [run_of_prepare hp, carryOut_eq, aggregate_report _ _ s (prepare_ok hp).nodup] at hS
  split at hS
  · cases hS
  · exact (Except.ok.inj hS).symm

/-- a run that succeeds has saved its outcomes -/
theorem save_of_prepare {S : Summary} (hp : r.prepare h w = (w', .ok (p, s)))
    (hS : (r.run h w).summary = .ok S) :
    (r.stored h p s w').save (r.analyze h p w').workspace r.cachePath =
      ((r.run h w).workspace, .ok ()) := by
  rw [run_of_prepare hp, carryOut_eq] at hS ⊢
  split at hS
  · cases hS
  next w₂ hs =>
    rw [hs]

/-- a run that succeeds has saved the outcomes that it reports -/
theorem run_ok {S : Summary} (hr : (r.run h w).summary = .ok S) :
    ∃ w₁ p s, r.prepare h w = (w₁, .ok (p, s)) ∧
      (r.stored h p s w₁).save (r.analyze h p w₁).workspace r.cachePath =
        ((r.run h w).workspace, .ok ()) ∧
      S.report = Report.ofOutcomes (p.ids.map fun id => (id, r.outcomeOf h p w₁ id)) ∧
      S.ruleSetId = p.ruleSetId ∧ S.toolVersionId = p.toolVersionId := by
  cases hp : r.prepare h w with
  | mk w₁ result =>
    cases result with
    | error e =>
      rw [run_eq, hp] at hr
      contradiction
    | ok planned =>
      obtain ⟨p, s⟩ := planned
      have hS := summary_of_prepare hp hr
      exact ⟨w₁, p, s, rfl, save_of_prepare hp hr, by rw [hS], by rw [hS], by rw [hS]⟩

end

end Runner

/-! ## a project with one unit -/

def oneRunner : Runner where
  settings := {
    project := { name := "one" }
    compileDb := { path := "db" }
    analysis := { command := "", versionCommand := "" }
    cache := { path := "c", dependencyDir := "" } }
  projectDir := ⟨"/"⟩

def oneUnit : SourceUnit := ⟨"a.cc", ⟨"/a.cc"⟩, "cc", ⟨"/"⟩⟩

def oneDb : Json :=
  .array [.object [("directory", .string "/"), ("file", .string "a.cc"), ("command", .string "cc")]]

/-- commands that do nothing, and jobs that pass -/
def oneHost : Host where
  execute := fun _ _ _ w => (w, ⟨0, "1"⟩)
  executor := fun b w => (w, b.jobs.map fun _ _ => ⟨0, "ok"⟩)
  cores := 1

theorem one_onlyAsked : oneHost.executor.OnlyAsked := by
  intro b w id o h
  have hget : (b.jobs.map fun _ _ => (⟨0, "ok"⟩ : Outcome)).get? id = some o := h
  rw [SortedMap.get?_map, Option.map_eq_some_iff] at hget
  obtain ⟨_, hjob, _⟩ := hget
  rw [hjob]
  rfl

def oneWorkspace : Workspace :=
  ((((⟨.empty, 5, []⟩ : Workspace).put ["db"] (.file (Utf8.encode (Json.pretty oneDb)) 0 false)).put
    ["a.cc"] (.file (Utf8.encode "") 0 false)).put ["a.cc.d"] (.file (Utf8.encode "a.o: a.cc") 0 false))

section
variable {w : Workspace} {t : Time} {x : Bool}

theorem one_enumerate (h : w.node? ["db"] = some (.file (Utf8.encode (Json.pretty oneDb)) t x)) :
    oneRunner.enumerate w = .ok [oneUnit] := by
  have hread : w.readText (top "db") = .ok (Json.pretty oneDb) :=
    readText_eq_ok_iff.mpr ⟨_, _, find_top (by decide) h rfl rfl, Utf8.decode?_encode _⟩
  have hjson : Json.asList? CompileEntry.ofJson? oneDb = some [⟨⟨"/"⟩, ⟨"a.cc"⟩, some "cc", none⟩] := rfl
  have hselect : CompileEntry.select (oneRunner.resolve ".") {} [⟨⟨"/"⟩, ⟨"a.cc"⟩, some "cc", none⟩] =
      [oneUnit] := by decide
  have hall : SourceUnit.enumerate w (oneRunner.resolve "db") (oneRunner.resolve ".") {} =
      .ok [oneUnit] := by
    rw [SourceUnit.enumerate, show oneRunner.resolve "db" = top "db" from rfl, hread]
    simp only [Json.read?_pretty (v := oneDb) rfl, Option.bind_some, hjson, hselect]
  unfold Runner.enumerate
  dsimp only
  split
  next h => rw [Except.ok.inj (h.symm.trans hall)]
  next h => cases h.symm.trans hall

theorem one_toolVersion (w : Workspace) : oneRunner.toolVersion oneHost w = (w, .ok "1") := by
  have htrim : Text.trim "1" = "1" := by decide
  rw [Runner.toolVersion]
  simp only [oneHost, htrim]
  rfl

theorem one_prepare (h : w.node? ["db"] = some (.file (Utf8.encode (Json.pretty oneDb)) t x)) :
    ∃ p s, oneRunner.prepare oneHost w = (w, .ok (p, s)) ∧ oneRunner.Planned w p s ∧
      p.units = [oneUnit] ∧ p.ruleSetId = "" ∧ p.toolVersionId = "1" := by
  obtain ⟨p, s, hp, hus⟩ := Runner.exists_planFor (one_enumerate h) "1"
  obtain ⟨hplan, htool⟩ := Runner.planFor_ok hp
  refine ⟨p, s, ?_, hplan, hus, hplan.rules, htool⟩
  rw [Runner.prepare_eq rfl (one_toolVersion w), hp]

theorem one_prepare_workspace (w : Workspace) : (oneRunner.prepare oneHost w).1 = w := by
  rw [Runner.prepare, show oneRunner.generate oneHost w = (w, .ok ()) from rfl]
  dsimp only
  split
  next h => exact (congrArg Prod.fst h).symm
  next h => exact (congrArg Prod.fst h).symm

/-! ### the same project under another rule, with jobs that answer as they like -/

/-- whether more than one line of output counts as a failure -/
def oneRunnerWith (strict : Bool) : Runner :=
  { oneRunner with settings := { oneRunner.settings with
      analysis := { oneRunner.settings.analysis with multilineOutputFails := strict } } }

/-- jobs that all answer alike -/
def oneHostWith (o : Outcome) : Host :=
  { oneHost with executor := fun b w => (w, b.jobs.map fun _ _ => o) }

variable (strict : Bool) (o : Outcome)

theorem one_prepare_with (w : Workspace) :
    (oneRunnerWith strict).prepare (oneHostWith o) w = oneRunner.prepare oneHost w := by
  have hgenerate : (oneRunnerWith strict).generate (oneHostWith o) = oneRunner.generate oneHost := rfl
  have hversion : (oneRunnerWith strict).toolVersion (oneHostWith o) = oneRunner.toolVersion oneHost := rfl
  have hplan : (oneRunnerWith strict).planFor = oneRunner.planFor := rfl
  unfold Runner.prepare
  rw [hgenerate, hversion, hplan]

theorem one_planned_with {p : Plan} {s : Store} (hp : oneRunner.Planned w p s) :
    (oneRunnerWith strict).Planned w p s :=
  ⟨hp.toMadeOf, hp.store, hp.units, hp.rules⟩

theorem one_analyze_workspace_with (p : Plan) (w : Workspace) :
    ((oneRunnerWith strict).analyze (oneHostWith o) p w).workspace = w := by
  unfold Runner.analyze Dispatch.run
  split <;> rfl

theorem one_analyze_workspace (p : Plan) (w : Workspace) :
    (oneRunner.analyze oneHost p w).workspace = w :=
  one_analyze_workspace_with true ⟨0, "ok"⟩ p w

theorem one_run_with {w₂ : Workspace} {p : Plan} {s : Store}
    (hp : oneRunner.prepare oneHost w = (w, .ok (p, s)))
    (hs : ((oneRunnerWith strict).stored (oneHostWith o) p s w).save w (top "c") = (w₂, .ok ())) :
    (∃ S, ((oneRunnerWith strict).run (oneHostWith o) w).summary = .ok S) ∧
      ((oneRunnerWith strict).run (oneHostWith o) w).workspace = w₂ := by
  refine Runner.run_saved ((one_prepare_with strict o w).trans hp) ?_
  have hcache : (oneRunnerWith strict).cachePath = oneRunner.cachePath := rfl
  rwa [one_analyze_workspace_with, hcache, show oneRunner.cachePath = top "c" from rfl]

theorem one_run {w₂ : Workspace} {p : Plan} {s : Store}
    (hp : oneRunner.prepare oneHost w = (w, .ok (p, s)))
    (hs : (oneRunner.stored oneHost p s w).save w (top "c") = (w₂, .ok ())) :
    (∃ S, (oneRunner.run oneHost w).summary = .ok S) ∧ (oneRunner.run oneHost w).workspace = w₂ :=
  one_run_with true ⟨0, "ok"⟩ hp hs

theorem one_staleUnits {p : Plan} {s : Store} (hp : oneRunner.Planned w p s) (hus : p.units = [oneUnit])
    (hc : p.cached.get? "a.cc" = none) : p.staleUnits = [oneUnit] := by
  unfold Plan.staleUnits
  rw [hus, List.filter_eq_self]
  intro u hu
  obtain rfl := List.mem_singleton.mp hu
  exact (List.mem_filter.mp (hp.mem_staleUnits.mpr ⟨hus ▸ hu, hc⟩)).2

/-- where it is not reused, the one unit is analyzed -/
theorem one_analyze {p : Plan} {s : Store} (hp : oneRunner.Planned w p s) (hus : p.units = [oneUnit])
    (hc : p.cached.get? "a.cc" = none) :
    ((oneRunnerWith strict).analyze (oneHostWith o) p w).outcomes.get? "a.cc" =
      some (if strict then o.normalize else o) := by
  unfold Runner.analyze
  rw [one_staleUnits hp hus hc]
  refine Dispatch.get?_run.mpr ⟨_, o, rfl, ?_, rfl⟩
  show ((SortedMap.ofList [("a.cc", _)]).map fun _ _ => o).get? "a.cc" = _
  rw [SortedMap.get?_map, (SortedMap.get?_ofList_iff (by simp)).mpr (List.mem_singleton.mpr rfl)]
  rfl

/-- of an empty store, nothing is reused -/
theorem one_uncached_of_empty {p : Plan} {s : Store} (hp : oneRunner.Planned w p s)
    (hempty : Store.loadOrEmpty w oneRunner.cachePath = {}) (id : String) : p.cached.get? id = none := by
  cases hget : p.cached.get? id with
  | none => rfl
  | some o =>
    have hs := (hp.stored_of_cached hget).1
    rw [hempty] at hs
    contradiction

theorem one_uncached {p : Plan} {s : Store} (hp : oneRunner.Planned w p s) (hc : w.node? ["c"] = none)
    (id : String) : p.cached.get? id = none := by
  refine one_uncached_of_empty hp ?_ id
  rw [Store.loadOrEmpty_eq, show oneRunner.cachePath = top "c" from rfl, find_top_none (by decide) hc]

theorem one_first_with (hdb : w.node? ["db"] = some (.file (Utf8.encode (Json.pretty oneDb)) t x))
    (hroot : w.node? [] = some (.directory t)) (hc : w.node? ["c"] = none) :
    ∃ (S : Runner.Summary) (s : Store), ((oneRunnerWith strict).run (oneHostWith o) w).summary = .ok S ∧
      ((oneRunnerWith strict).run (oneHostWith o) w).workspace =
        w.add ["c"] (.file (Utf8.encode s.text) w.clock false) ∧
      s.get? "a.cc" = some (if strict then o.normalize else o) ∧ s.ruleSetId = "" ∧
      s.toolVersionId = "1" := by
  obtain ⟨p, s, hp, hplan, hus, hrules, htool⟩ := one_prepare hdb
  have hplan' : (oneRunnerWith strict).Planned w p s := one_planned_with strict hplan
  have hfresh := one_analyze strict o hplan hus (one_uncached hplan hc "a.cc")
  have hid : "a.cc" ∈ p.ids := by
    rw [Plan.ids, hus]
    decide
  obtain ⟨⟨S, hS⟩, hafter⟩ := one_run_with strict o hp
    (Store.save_top hroot (by decide) (write_top_new (by decide) hc))
  refine ⟨S, (oneRunnerWith strict).stored (oneHostWith o) p s w, hS, hafter, ?_, ?_⟩
  · rw [Runner.get?_stored hplan', if_pos hid, Runner.outcomeOf, outcomeFor_fresh hfresh]
  · rw [(Runner.stored_tags hplan').1, (Runner.stored_tags hplan').2]
    exact ⟨hrules, htool⟩

theorem normalize_ok : Outcome.normalize ⟨0, "ok"⟩ = ⟨0, "ok"⟩ := by decide

theorem one_first (hdb : w.node? ["db"] = some (.file (Utf8.encode (Json.pretty oneDb)) t x))
    (hroot : w.node? [] = some (.directory t)) (hc : w.node? ["c"] = none) :
    ∃ (S : Runner.Summary) (s : Store), (oneRunner.run oneHost w).summary = .ok S ∧
      (oneRunner.run oneHost w).workspace = w.add ["c"] (.file (Utf8.encode s.text) w.clock false) ∧
      s.get? "a.cc" = some ⟨0, "ok"⟩ ∧ s.ruleSetId = "" ∧ s.toolVersionId = "1" := by
  have hfirst := one_first_with true ⟨0, "ok"⟩ hdb hroot hc
  rwa [if_pos rfl, normalize_ok] at hfirst

variable {o}

/-- a success is reused where no file is younger than it -/
theorem one_cached {s : Store} {T : Time} {code : ByteArray}
    (hcode : w.node? ["a.cc"] = some (.file code t x)) (ht : t ≤ T)
    (hlisting : w.node? ["a.cc.d"] = some (.file (Utf8.encode "a.o: a.cc") 0 false)) (hT : 0 < T)
    (hs : s.get? "a.cc" = some o) (ho : o.passed = true) (hr : s.reference = some T) :
    Classification.decisionFor w ⟨"/"⟩ s oneUnit = .cached o := by
  have hname : Single "a.cc.d" := by decide
  have hname' : Single "a.cc" := by decide
  refine decideUnit_cached_iff_found.mpr ⟨hs, ho, T, _, _, _, hr, find_top hname hlisting rfl rfl,
    Utf8.decode?_encode _, hT, fun f hf => ?_⟩
  rw [show PathSet.paths (Listing.parse "a.o: a.cc") = [⟨"a.cc"⟩] by decide] at hf
  obtain rfl := List.mem_singleton.mp hf
  exact ⟨_, _, find_top hname' hcode rfl rfl, ht⟩

/-- with a success on file, the next run reuses it -/
theorem one_next {s : Store} {T : Time} {code : ByteArray}
    (hdb : w.node? ["db"] = some (.file (Utf8.encode (Json.pretty oneDb)) t x))
    (hcode : w.node? ["a.cc"] = some (.file code t x)) (ht : t ≤ T)
    (hlisting : w.node? ["a.cc.d"] = some (.file (Utf8.encode "a.o: a.cc") 0 false)) (hT : 0 < T)
    (hc : w.node? ["c"] = some (.file (Utf8.encode s.text) T x)) (hs : s.get? "a.cc" = some o)
    (ho : o.passed = true) (hrules : s.ruleSetId = "") (htool : s.toolVersionId = "1") :
    ∃ p s, oneRunner.prepare oneHost w = (w, .ok (p, s)) ∧ p.cached.get? "a.cc" = some o := by
  obtain ⟨p, s', hp, hplan, hus, hrules', htool'⟩ := one_prepare hdb
  have hload : Store.loadOrEmpty w (top "c") = { s with reference := some T } := by
    rw [Store.loadOrEmpty_of_find (find_top (by decide) hc rfl rfl), Store.ofNode_text]
  have hstore : s'.get? "a.cc" = some o ∧ s'.reference = some T := by
    rw [hplan.store, show oneRunner.cachePath = top "c" from rfl, hload, Store.get?_validateTags]
    exact ⟨⟨hs, hrules.trans hrules'.symm, htool.trans htool'.symm⟩, rfl⟩
  refine ⟨p, s', hp, hplan.get?_cached.mpr ⟨oneUnit, by simp [hus], rfl, ?_⟩⟩
  exact one_cached hcode ht hlisting hT hstore.1 ho hstore.2

end

theorem one_nodes :
    oneWorkspace.node? [] = some (.directory 0) ∧ oneWorkspace.node? ["c"] = none ∧
      oneWorkspace.node? ["db"] = some (.file (Utf8.encode (Json.pretty oneDb)) 0 false) ∧
      oneWorkspace.node? ["a.cc"] = some (.file (Utf8.encode "") 0 false) ∧
      oneWorkspace.node? ["a.cc.d"] = some (.file (Utf8.encode "a.o: a.cc") 0 false) := by
  simp [oneWorkspace, node?_put, node?_empty]

theorem one_tree : oneWorkspace.Tree := by
  have hempty := tree_empty 5
  refine ((hempty.put_top ?_).put_top ?_).put_top ?_ <;> intro t <;>
    simp [node?_put, node?_empty]

/-- what the first run leaves -/
theorem one_saved_with (strict : Bool) (o : Outcome) :
    ∃ (s : Store) (w : Workspace),
      ((oneRunnerWith strict).run (oneHostWith o) oneWorkspace).workspace = w ∧
      (∃ t, w.node? [] = some (.directory t)) ∧
      w.node? ["c"] = some (.file (Utf8.encode s.text) 5 false) ∧
      s.get? "a.cc" = some (if strict then o.normalize else o) ∧ s.ruleSetId = "" ∧
      s.toolVersionId = "1" ∧
      w.node? ["db"] = some (.file (Utf8.encode (Json.pretty oneDb)) 0 false) ∧
      w.node? ["a.cc"] = some (.file (Utf8.encode "") 0 false) ∧
      w.node? ["a.cc.d"] = some (.file (Utf8.encode "a.o: a.cc") 0 false) := by
  obtain ⟨hroot, hc, hdb, hcode, hlisting⟩ := one_nodes
  obtain ⟨S, s, _, hafter, hs, hrules, htool⟩ := one_first_with strict o hdb hroot hc
  refine ⟨s, _, hafter, (keeps_add hc).directory ⟨0, hroot⟩, node?_add_self (by simp [Node.isDirectory]),
    hs, hrules, htool, ?_, ?_, ?_⟩
  · exact node?_add_file (by decide) hdb
  · exact node?_add_file (by decide) hcode
  · exact node?_add_file (by decide) hlisting

theorem one_saved :
    ∃ (s : Store) (w : Workspace), (oneRunner.run oneHost oneWorkspace).workspace = w ∧
      (∃ t, w.node? [] = some (.directory t)) ∧
      w.node? ["c"] = some (.file (Utf8.encode s.text) 5 false) ∧ s.get? "a.cc" = some ⟨0, "ok"⟩ ∧
      s.ruleSetId = "" ∧ s.toolVersionId = "1" ∧
      w.node? ["db"] = some (.file (Utf8.encode (Json.pretty oneDb)) 0 false) ∧
      w.node? ["a.cc"] = some (.file (Utf8.encode "") 0 false) ∧
      w.node? ["a.cc.d"] = some (.file (Utf8.encode "a.o: a.cc") 0 false) := by
  have hsaved := one_saved_with true ⟨0, "ok"⟩
  rwa [if_pos rfl, normalize_ok] at hsaved

end IncrementalLint
