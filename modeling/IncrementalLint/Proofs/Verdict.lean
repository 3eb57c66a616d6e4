import IncrementalLint.CommandLine.Perform
import IncrementalLint.Proofs.Run

/-!
# What a verdict rests on

An executor may answer as it likes: leave jobs out, or answer for units that it was not asked about.
Whatever it does, a unit passes on evidence only, and the status of the command says whether every
unit did.

* `Runner.answers`                 what the executor says when a plan is carried out;
* `Runner.Vouched`                 the evidence for a unit: an answer that counts as a success, or
                                   a success to reuse where there is no answer;
* `Runner.passed_iff_vouched`      a unit passes on evidence, and only on it;
* `Runner.Accounted`               all that a run that succeeds can be held to;
* `Runner.run_accounted`           every such run is held to it.
-/

namespace IncrementalLint

namespace Runner

/-! ## evidence -/

/-- what the executor says when a plan is carried out; nothing if it is not called -/
def answers (r : Runner) (h : Host) (p : Plan) (w : Workspace) : Outcomes :=
  match (r.dispatch h p).batch? p.staleUnits with
  | none => .empty
  | some b => (h.executor b w).2

/-- an answer for a unit that counts as a success, or no answer and a success to reuse -/
def Vouched (r : Runner) (h : Host) (p : Plan) (s : Store) (w : Workspace) (u : SourceUnit) : Prop :=
  (∃ o, (r.answers h p w).get? u.id = some o ∧ ((r.dispatch h p).judge o).result = 0) ∨
    ((r.answers h p w).get? u.id = none ∧
      ∃ o, decideUnit w u.id (u.listing r.listingDir) u.directory s = .cached o)

section
variable {r : Runner} {h : Host} {w w' : Workspace} {p : Plan} {s : Store} {u : SourceUnit}

theorem get?_analyze (id : String) :
    (r.analyze h p w).outcomes.get? id =
      ((r.answers h p w).get? id).map (r.dispatch h p).judge := by
  unfold analyze answers Dispatch.run
  cases (r.dispatch h p).batch? p.staleUnits with
  | none => rfl
  | some b => exact SortedMap.get?_map _ _ _

theorem passed_iff_vouched (hp : r.Planned w p s) (hu : u ∈ p.units) :
    (r.outcomeOf h p w u.id).passed = true ↔ r.Vouched h p s w u := by
  unfold Vouched outcomeOf
  rw [outcomeFor, get?_analyze]
  cases ha : (r.answers h p w).get? u.id with
  | some o => simp [Outcome.passed]
  | none =>
    rw [Option.map_none, Option.getD_none]
    cases hc : p.cached.get? u.id with
    | some o =>
      obtain ⟨v, hv, hid, hd⟩ := hp.get?_cached.mp hc
      obtain rfl := List.inj_on_of_nodup_map hp.nodup hv hu hid
      exact iff_of_true (hp.stored_of_cached hc).2.1 (Or.inr ⟨rfl, o, hd⟩)
    | none =>
      refine iff_of_false (by decide) ?_
      rintro (⟨o, ho, _⟩ | ⟨_, o, hd⟩)
      · contradiction
      · have hcached := hp.get?_cached.mpr ⟨u, hu, rfl, hd⟩
        rw [hc] at hcached
        contradiction

/-! ## calls -/

/-- what an executor is called with: nothing if no unit is stale, and one batch otherwise, with
one job for each stale unit; `answers` are those to this batch -/
def Called (r : Runner) (h : Host) (p : Plan) (w : Workspace) (calls : List Batch) : Prop :=
  (p.stale = [] ∧ calls = [] ∧ r.answers h p w = .empty) ∨
    (p.stale ≠ [] ∧ ∃ b, calls = [b] ∧ r.answers h p w = (h.executor b w).2 ∧
      b.jobs.keys.Perm (p.stale.map (·.id)) ∧
      ∀ u ∈ p.staleUnits, b.jobs.get? u.id = some ((r.dispatch h p).jobCommand u))

theorem called_analyze (hp : r.Planned w p s) : r.Called h p w (r.analyze h p w).batches := by
  have hids := hp.ids_staleUnits
  unfold Called analyze answers Dispatch.run
  cases hb : (r.dispatch h p).batch? p.staleUnits with
  | none =>
    refine Or.inl ⟨?_, rfl, rfl⟩
    unfold Dispatch.batch? at hb
    split at hb
    next he =>
      rw [List.isEmpty_iff.mp he] at hids
      exact List.map_eq_nil_iff.mp hids.symm
    next => contradiction
  | some b =>
    have hkeys := Dispatch.keys_jobs hp.stale_nodup hb
    rw [hids] at hkeys
    refine Or.inr ⟨?_, b, rfl, rfl, hkeys, fun u hu => Dispatch.job_of_mem hp.stale_nodup hb hu⟩
    intro hnone
    unfold Dispatch.batch? at hb
    rw [hnone, List.map_nil, List.map_eq_nil_iff] at hids
    rw [hids] at hb
    contradiction

end

end Runner

/-! ## the status of a command -/

section
variable {h : Host} {q : Request} {o : RunOptions} {dir : Path} {settings : Settings}
  {r : Runner} {w : Workspace} {S : Runner.Summary} {rep : Report}

/-- whether a report can be shown does not depend on what was shown before it -/
theorem showReport_ok (before : String) (hshow : (showReport o rep "" w).2.isOk = true) :
    ∃ w' shown, showReport o rep before w = (w', .ok shown) := by
  unfold showReport at hshow ⊢
  cases hout : o.output with
  | none => cases hform : o.form <;> exact ⟨_, _, rfl⟩
  | some path =>
    rw [hout] at hshow
    dsimp only at hshow ⊢
    split at hshow
    · exact ⟨_, _, rfl⟩
    · contradiction

/-- once its report is shown, a run has status zero exactly if it passed -/
theorem performRun_status (hr : Runner.create w (o.override settings) dir = .ok r)
    (hS : (r.run h w).summary = .ok S)
    (hshow : (showReport o S.report "" (r.run h w).workspace).2.isOk = true) :
    (performRun h q o dir settings w).2.status = 0 ↔ S.report.passed = true := by
  unfold performRun
  dsimp only
  rw [hr]
  dsimp only
  rw [hS]
  dsimp only
  obtain ⟨w', shown, hshown⟩ := showReport_ok
    (Shown.unlessQuiet q ("   Checking " ++ settings.project.name ++ "\n") ++
      Shown.unlessQuiet q (S.effortLines ((r.run h w).workspace.clock - w.clock))) hshow
  rw [hshown]
  dsimp only
  split <;> simp_all

end

namespace Runner

/-! ## runs that succeed -/

/-- all that a run that succeeds can be held to; `w₁` is the workspace that it plans in -/
structure Accounted (r : Runner) (h : Host) (w w₁ : Workspace) (p : Plan) (S : Summary) : Prop where
  units : r.enumerate w₁ = .ok p.units
  partition : (p.cached.keys ++ p.stale.map (·.id)).Perm p.ids
  nodup : p.ids.Nodup
  counted : S.cached = p.cached.size ∧ S.dispatched = p.stale.length ∧
    S.cached + S.dispatched = S.report.total ∧ S.report.total = p.units.length
  called : r.Called h p w₁ (r.run h w).batches
  verdicts : ∀ u ∈ p.units, u.id ∉ S.report.failedUnits ↔
    r.Vouched h p ((Store.loadOrEmpty w₁ r.cachePath).validateTags p.ruleSetId p.toolVersionId).1 w₁ u
  /-- what the command says once the report is shown -/
  status : ∀ (q : Request) (o : RunOptions) (dir : Path) (settings : Settings),
    Runner.create w (o.override settings) dir = .ok r →
    (showReport o S.report "" (r.run h w).workspace).2.isOk = true →
    ((performRun h q o dir settings w).2.status = 0 ↔ ∀ u ∈ p.units, r.Vouched h p
      ((Store.loadOrEmpty w₁ r.cachePath).validateTags p.ruleSetId p.toolVersionId).1 w₁ u)

section
variable {r : Runner} {h : Host} {w w₁ : Workspace} {p : Plan} {s : Store} {S : Summary}

theorem mem_failedUnits (hp : r.prepare h w = (w₁, .ok (p, s))) (hS : (r.run h w).summary = .ok S)
    {id : String} : id ∈ S.report.failedUnits ↔ id ∈ p.ids ∧ (r.outcomeOf h p w₁ id).passed = false := by
  rw [summary_of_prepare hp hS]
  exact Report.mem_failedUnits_iff

/-- the units that a report does not list are those that passed -/
theorem passed_iff_notMem (hp : r.prepare h w = (w₁, .ok (p, s))) (hS : (r.run h w).summary = .ok S)
    {id : String} (hid : id ∈ p.ids) :
    (r.outcomeOf h p w₁ id).passed = true ↔ id ∉ S.report.failedUnits := by
  rw [mem_failedUnits hp hS, not_and, Bool.not_eq_false]
  exact ⟨fun hpass _ => hpass, fun hpass => hpass hid⟩

theorem notMem_failedUnits_iff (hp : r.prepare h w = (w₁, .ok (p, s)))
    (hS : (r.run h w).summary = .ok S) {u : SourceUnit} (hu : u ∈ p.units) :
    u.id ∉ S.report.failedUnits ↔ r.Vouched h p s w₁ u := by
  rw [← passed_iff_notMem hp hS (List.mem_map_of_mem hu)]
  exact passed_iff_vouched (prepare_ok hp) hu

theorem report_passed_iff (hp : r.prepare h w = (w₁, .ok (p, s)))
    (hS : (r.run h w).summary = .ok S) :
    S.report.passed = true ↔ ∀ u ∈ p.units, u.id ∉ S.report.failedUnits := by
  rw [summary_of_prepare hp hS, Report.passed_iff]
  constructor
  · exact fun hall u hu => hall u.id (List.mem_map_of_mem hu)
  · intro hall id hid
    obtain ⟨u, hu, rfl⟩ := List.mem_map.mp hid
    exact hall u hu

theorem accounted_of_prepare (hp : r.prepare h w = (w₁, .ok (p, s))) (hS : (r.run h w).summary = .ok S) :
    r.Accounted h w w₁ p S := by
  have hplan := prepare_ok hp
  have hsum := summary_of_prepare hp hS
  have hlength := hplan.partition.length_eq
  have hstale : p.staleUnits.length = p.stale.length := by
    rw [← List.length_map (f := SourceUnit.id), hplan.ids_staleUnits, List.length_map]
  refine ⟨hplan.units, hplan.partition, hplan.nodup, ?_, ?_, ?_, ?_⟩
  · rw [hsum]
    refine ⟨rfl, hstale, ?_, ?_⟩
    · rw [Report.total_ofOutcomes, List.length_map, ← hlength, List.length_append, SortedMap.length_keys,
        List.length_map, hstale]
    · rw [Report.total_ofOutcomes, List.length_map, Plan.ids, List.length_map]
  · rw [batches_of_prepare hp]
    exact called_analyze hplan
  · intro u hu
    rw [← hplan.store]
    exact notMem_failedUnits_iff hp hS hu
  · intro q o dir settings hr hshow
    rw [performRun_status hr hS hshow, report_passed_iff hp hS, ← hplan.store]
    exact forall₂_congr fun u hu => notMem_failedUnits_iff hp hS hu

/-- every verdict of a run that succeeds rests on evidence, whatever the executor answers -/
theorem run_accounted (hS : (r.run h w).summary = .ok S) :
    ∃ w₁ p s, r.prepare h w = (w₁, .ok (p, s)) ∧ r.Accounted h w w₁ p S := by
  obtain ⟨w₁, p, s, hp, _⟩ := run_ok hS
  exact ⟨w₁, p, s, hp, accounted_of_prepare hp hS⟩

end

end Runner

/-! ## a unit that passes, and a command that says so -/

theorem one_accounted :
    ∃ (S : Runner.Summary) (p : Plan), (oneRunner.run oneHost oneWorkspace).summary = .ok S ∧
      oneRunner.Accounted oneHost oneWorkspace oneWorkspace p S ∧ p.units = [oneUnit] ∧
      "a.cc" ∉ S.report.failedUnits ∧
      (performRun oneHost ⟨.run {}, false, false, none⟩ {} ⟨"/"⟩ oneRunner.settings
        oneWorkspace).2.status = 0 := by
  obtain ⟨hroot, hc, hdb, _, _⟩ := one_nodes
  obtain ⟨S, _, hS, _⟩ := one_first hdb hroot hc
  obtain ⟨w₁, p, s, hp, ha⟩ := Runner.run_accounted hS
  obtain ⟨p', s', hp', hplan, hus, _⟩ := one_prepare hdb
  obtain ⟨rfl, rfl, rfl⟩ := Runner.prepare_unique hp' hp
  have hunit : oneUnit ∈ p.units := by
    rw [hus]
    exact List.mem_singleton.mpr rfl
  have hfresh := one_analyze true ⟨0, "ok"⟩ hplan hus (one_uncached hplan hc "a.cc")
  have hvouched : oneRunner.Vouched oneHost p s oneWorkspace oneUnit := by
    refine (Runner.passed_iff_vouched hplan hunit).mp ?_
    have houtcome : oneRunner.outcomeOf oneHost p oneWorkspace oneUnit.id = _ := outcomeFor_fresh hfresh _
    rw [houtcome, if_pos rfl, normalize_ok]
    rfl
  rw [hplan.store] at hvouched
  refine ⟨S, p, hS, ha, hus, (ha.verdicts oneUnit hunit).mpr hvouched, ?_⟩
  refine (ha.status _ {} ⟨"/"⟩ oneRunner.settings rfl rfl).mpr fun u hu => ?_
  rw [hus] at hu
  obtain rfl := List.mem_singleton.mp hu
  exact hvouched

end IncrementalLint
