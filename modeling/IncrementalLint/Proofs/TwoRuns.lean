import IncrementalLint.Proofs.Repeat

/-!
# Two runs side by side

Two plans for the same units, in whatever order, that reuse the same and get the same answers come to
the same: the units have the same outcomes, and these are reported and saved alike.

* `Runner.Twins`         two such plans;
* `Twins.batches`        the jobs that are submitted;
* `Twins.outcomeOf`      what the units come to;
* `Twins.alike`          the runs: they do the same, and end and save alike;
* `Twins.summaries`      and report alike, but for the order of the units that failed.
-/

namespace IncrementalLint

open Workspace

/-! ## two plans -/

namespace Runner

/-- two plans, each where it was made, for the same units, with the same to reuse and one answer to
the jobs of both -/
structure Twins (r : Runner) (h : Host) (w v : Workspace) (p p' : Plan) (s s' : Store) : Prop where
  planned : r.Planned w p s
  planned' : r.Planned v p' s'
  units : p'.units.Perm p.units
  cached : p'.cached = p.cached
  tool : p'.toolVersionId = p.toolVersionId
  answered : ∀ b, (r.dispatch h p).batch? p.staleUnits = some b → (h.executor b v).2 = (h.executor b w).2

namespace Twins

section
variable {r : Runner} {h : Host} {w v : Workspace} {p p' : Plan} {s s' : Store}
variable (ht : r.Twins h w v p p' s s')
include ht

theorem ids : p'.ids.Perm p.ids := ht.units.map _

theorem rules : p'.ruleSetId = p.ruleSetId := ht.planned'.rules.trans ht.planned.rules.symm

theorem staleUnits : p'.staleUnits.Perm p.staleUnits := by
  rw [ht.planned.staleUnits_eq, ht.planned'.staleUnits_eq, ht.cached]
  exact ht.units.filter _

/-- the same jobs are submitted -/
theorem batch : (r.dispatch h p').batch? p'.staleUnits = (r.dispatch h p).batch? p.staleUnits := by
  have hdispatch : r.dispatch h p' = r.dispatch h p := by rw [dispatch, dispatch, ht.rules]
  rw [hdispatch, Dispatch.batch?_perm ht.staleUnits ht.planned.stale_nodup]

theorem batches : (r.analyze h p' v).batches = (r.analyze h p w).batches := by
  rw [analyze, analyze, Dispatch.batches_run, Dispatch.batches_run, ht.batch]

theorem answers : r.answers h p' v = r.answers h p w := by
  unfold Runner.answers
  rw [ht.batch]
  cases hb : (r.dispatch h p).batch? p.staleUnits with
  | none => rfl
  | some b => exact ht.answered b hb

/-- every unit comes to the same -/
theorem outcomeOf (id : String) : r.outcomeOf h p' v id = r.outcomeOf h p w id := by
  have hjudge : (r.dispatch h p').judge = (r.dispatch h p).judge := rfl
  rw [Runner.outcomeOf, Runner.outcomeOf, outcomeFor, outcomeFor, get?_analyze, get?_analyze, ht.answers,
    hjudge, ht.cached]

/-- what is stored in the end is the same text -/
theorem text : (r.stored h p' s' v).text = (r.stored h p s w).text :=
  stored_text_congr ht.planned ht.planned' (fun _ => ht.ids.mem_iff) (fun id _ => ht.outcomeOf id) ht.tool

end

end Twins

/-! ## two runs -/

/-- two runs that submit the same batches, both with a summary or both without unless a store cannot
be saved, and with the same content in the files that they save -/
structure Alike (r : Runner) (result result' : Result) : Prop where
  batches : result'.batches = result.batches
  forth : ∀ S, result.summary = .ok S →
    (∃ S', result'.summary = .ok S') ∨ ∃ e, result'.summary = .error (.cache e)
  back : ∀ S', result'.summary = .ok S' →
    (∃ S, result.summary = .ok S) ∨ ∃ e, result.summary = .error (.cache e)
  saved : ∀ S S', result.summary = .ok S → result'.summary = .ok S' →
    ∀ {l l' : Location} {content content' : ByteArray} {T T' : Time} {x x' : Bool},
      result.workspace.find r.cachePath = .ok (l, .file content T x) →
      result'.workspace.find r.cachePath = .ok (l', .file content' T' x') → content' = content

section
variable {r : Runner} {h : Host} {w w₁ v v₁ : Workspace} {p p' : Plan} {s s' : Store} {S S' : Summary}

/-- a run that has its plan ends with a summary, unless the store cannot be saved -/
theorem summary_cases (hp : r.prepare h w = (w₁, .ok (p, s))) :
    (∃ S, (r.run h w).summary = .ok S) ∨ ∃ e, (r.run h w).summary = .error (.cache e) := by
  rw [run_of_prepare hp, carryOut_eq]
  split
  · exact Or.inr ⟨_, rfl⟩
  · exact Or.inl ⟨_, rfl⟩

theorem run_of_error {e : RunError} (hp : r.prepare h w = (w₁, .error e)) :
    r.run h w = ⟨[], w₁, .error e⟩ := by
  rw [run_eq, hp]

/-- without plans, nothing is done -/
theorem alike_of_errors {e e' : RunError} (hp : r.prepare h w = (w₁, .error e))
    (hp' : r.prepare h v = (v₁, .error e')) : r.Alike (r.run h w) (r.run h v) := by
  rw [run_of_error hp, run_of_error hp']
  refine ⟨rfl, fun S hS => ?_, fun S hS => ?_, fun S _ hS => ?_⟩
  · contradiction
  · contradiction
  · contradiction

namespace Twins

variable (ht : r.Twins h w₁ v₁ p p' s s') (hp : r.prepare h w = (w₁, .ok (p, s)))
  (hp' : r.prepare h v = (v₁, .ok (p', s')))
include ht hp hp'

theorem alike : r.Alike (r.run h w) (r.run h v) := by
  refine ⟨?_, fun _ _ => summary_cases hp', fun _ _ => summary_cases hp, ?_⟩
  · rw [batches_of_prepare hp, batches_of_prepare hp', ht.batches]
  · intro S S' hS hS' l l' content content' T T' x x' hf hf'
    rw [Store.content_of_save (save_of_prepare hp hS) hf, Store.content_of_save (save_of_prepare hp' hS') hf',
      ht.text]

/-- both reports are about the same outcomes, each in the order of its own units -/
theorem summaries (hS : (r.run h w).summary = .ok S) (hS' : (r.run h v).summary = .ok S') :
    S'.report.total = S.report.total ∧ S'.report.failed = S.report.failed ∧
      S'.report.details = S.report.details ∧
      (S.report.failedUnits = p.ids.filter fun id => !(r.outcomeOf h p w₁ id).passed) ∧
      S'.report.failedUnits = p'.ids.filter fun id => !(r.outcomeOf h p w₁ id).passed := by
  have houtcome : r.outcomeOf h p' v₁ = r.outcomeOf h p w₁ := funext ht.outcomeOf
  rw [summary_of_prepare hp hS, summary_of_prepare hp' hS', houtcome]
  obtain ⟨htotal, hfailed, hdetails⟩ := Report.ofOutcomes_perm (r.outcomeOf h p w₁) ht.ids
  exact ⟨htotal, hfailed, hdetails, Report.failedUnits_map _ _, Report.failedUnits_map _ _⟩

/-- where the units come in one order, the reports are equal -/
theorem reports (hids : p'.ids = p.ids) (hS : (r.run h w).summary = .ok S)
    (hS' : (r.run h v).summary = .ok S') : S'.report = S.report := by
  have houtcome : r.outcomeOf h p' v₁ = r.outcomeOf h p w₁ := funext ht.outcomeOf
  rw [summary_of_prepare hp hS, summary_of_prepare hp' hS', houtcome, hids]

end Twins

end

end Runner

end IncrementalLint
