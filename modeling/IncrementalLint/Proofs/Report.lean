import IncrementalLint.Proofs.SortedMap
import IncrementalLint.Report

/-!
# What is reported is what is recorded

Where no unit comes twice, every unit has one outcome: the fresh one, else the reused one, else the
one that says that there is none. The report counts these, and the store records them.

* `outcomeFor`           the outcome of a unit;
* `aggregate_report`     the report is about the outcomes of all units;
* `aggregate_store`      the store holds these outcomes and no others, under the tags it had;
* `mem_failedUnits_iff`  the report lists the units that failed;
* `get?_details`         and says of each what it came to;
* `ofOutcomes_perm`      the order of the units shows in this list only;
* `aggregate_of_failed`  a fresh failure is listed, whether or not its unit comes again;
* `Report.Tallies`       a report adds up to the outcomes of units;
* `aggregate_exact`      it does, whatever the store held before.
-/

namespace IncrementalLint

/-- the fresh outcome of a unit, else the reused one, else the one that says that there is none -/
def outcomeFor (fresh reused : Outcomes) (id : String) : Outcome :=
  (fresh.get? id).getD ((reused.get? id).getD Outcome.missing)

theorem outcomeFor_fresh {fresh : Outcomes} {id : String} {o : Outcome} (h : fresh.get? id = some o)
    (reused : Outcomes) : outcomeFor fresh reused id = o := by
  rw [outcomeFor, h, Option.getD_some]

theorem outcomeFor_reused {fresh reused : Outcomes} {id : String} {o : Outcome}
    (h : fresh.get? id = none) (h' : reused.get? id = some o) : outcomeFor fresh reused id = o := by
  rw [outcomeFor, h, h', Option.getD_none, Option.getD_some]

/-- a success is never made up -/
theorem outcomeFor_passed {fresh reused : Outcomes} {id : String}
    (h : (outcomeFor fresh reused id).passed = true) :
    fresh.get? id = some (outcomeFor fresh reused id) ∨
      (fresh.get? id = none ∧ reused.get? id = some (outcomeFor fresh reused id)) := by
  unfold outcomeFor at h ⊢
  cases hf : fresh.get? id with
  | some o => exact Or.inl rfl
  | none =>
    rw [hf] at h
    cases hr : reused.get? id with
    | some o => exact Or.inr ⟨rfl, rfl⟩
    | none =>
      rw [hr] at h
      exact absurd h (by decide)

theorem outcomesOf_eq (reused fresh : Outcomes) {ids : List String} (hd : ids.Nodup) :
    outcomesOf reused fresh ids = ids.map fun id => (id, outcomeFor fresh reused id) := by
  induction ids generalizing fresh with
  | nil => rfl
  | cons id ids ih =>
    rw [List.nodup_cons] at hd
    rw [outcomesOf, ih _ hd.2, List.map_cons, outcomeFor]
    refine congrArg _ (List.map_congr_left fun x hx => ?_)
    have hne : x ≠ id := fun h => hd.1 (h ▸ hx)
    simp only [outcomeFor, SortedMap.get?_erase]
    rw [if_neg]
    simpa using hne.symm

/-- a fresh outcome counts, whether or not its unit comes again -/
theorem mem_outcomesOf_of_fresh {ids : List String} {fresh reused : Outcomes} {id : String} {o : Outcome}
    (hid : id ∈ ids) (h : fresh.get? id = some o) : (id, o) ∈ outcomesOf reused fresh ids := by
  induction ids generalizing fresh with
  | nil => contradiction
  | cons x ids ih =>
    rw [outcomesOf, List.mem_cons]
    by_cases hx : id = x
    · refine Or.inl ?_
      rw [← hx, h, Option.getD_some]
    · refine Or.inr (ih ((List.mem_cons.mp hid).resolve_left hx) ?_)
      rw [SortedMap.get?_erase, if_neg (by simpa using Ne.symm hx), h]

theorem aggregate_report (fresh reused : Outcomes) (s : Store) {ids : List String} (hd : ids.Nodup) :
    (aggregate ids fresh reused s).1 =
      Report.ofOutcomes (ids.map fun id => (id, outcomeFor fresh reused id)) := by
  rw [aggregate, outcomesOf_eq reused fresh hd]

/-! ## what is recorded -/

theorem foldl_put_eq (s : Store) (os : List (String × Outcome)) :
    os.foldl (fun s o => s.put o.1 o.2) s =
      { s with entries := os.foldl (fun m o => m.insert o.1 o.2) s.entries } := by
  induction os generalizing s with
  | nil => rfl
  | cons o os ih => exact ih (s.put o.1 o.2)

/-- nothing of the store outlasts it but its tags and its reference -/
theorem aggregate_store (fresh reused : Outcomes) (s : Store) {ids : List String} (hd : ids.Nodup) :
    (aggregate ids fresh reused s).2 =
      { s with entries := .ofList (ids.map fun id => (id, outcomeFor fresh reused id)) } := by
  rw [aggregate, outcomesOf_eq reused fresh hd, foldl_put_eq, Store.retain]
  refine congrArg (fun entries => { s with entries := entries }) (SortedMap.ext_get? fun x => ?_)
  rw [SortedMap.get?_filterKeys, SortedMap.get?_foldl_insert_map, SortedMap.get?_ofList_map]
  by_cases hx : x ∈ ids
  · simp [hx]
  · simp [hx]

theorem get?_aggregate (fresh reused : Outcomes) (s : Store) {ids : List String} (hd : ids.Nodup)
    (x : String) :
    (aggregate ids fresh reused s).2.get? x =
      if x ∈ ids then some (outcomeFor fresh reused x) else none := by
  rw [aggregate_store fresh reused s hd]
  exact SortedMap.get?_ofList_map (outcomeFor fresh reused) ids x

theorem aggregate_tags (ids : List String) (fresh reused : Outcomes) (s : Store) :
    (aggregate ids fresh reused s).2.ruleSetId = s.ruleSetId ∧
      (aggregate ids fresh reused s).2.toolVersionId = s.toolVersionId := by
  rw [aggregate, foldl_put_eq]
  exact ⟨rfl, rfl⟩

/-! ## what is counted -/

namespace Report

theorem total_count (r : Report) (id : String) (o : Outcome) : (r.count id o).total = r.total + 1 := by
  unfold count
  split <;> rfl

theorem failed_count (r : Report) (id : String) (o : Outcome) :
    (r.count id o).failed = r.failed + if o.passed then 0 else 1 := by
  unfold count
  split <;> rfl

theorem failedUnits_count (r : Report) (id : String) (o : Outcome) :
    (r.count id o).failedUnits = r.failedUnits ++ if o.passed then [] else [id] := by
  unfold count
  split
  · exact (List.append_nil _).symm
  · rfl

theorem total_foldl (r : Report) (os : List (String × Outcome)) :
    (os.foldl (fun r o => r.count o.1 o.2) r).total = r.total + os.length := by
  induction os generalizing r with
  | nil => rfl
  | cons o os ih =>
    rw [List.foldl_cons, ih, total_count, List.length_cons]
    omega

theorem failedUnits_foldl (r : Report) (os : List (String × Outcome)) :
    (os.foldl (fun r o => r.count o.1 o.2) r).failedUnits =
      r.failedUnits ++ (os.filter fun o => !o.2.passed).map (·.1) := by
  induction os generalizing r with
  | nil => exact (List.append_nil _).symm
  | cons o os ih =>
    rw [List.foldl_cons, ih, failedUnits_count, List.append_assoc]
    by_cases h : o.2.passed = true
    · rw [List.filter_cons_of_neg (by simp [h]), if_pos h, List.nil_append]
    · rw [List.filter_cons_of_pos (by simp [h]), if_neg h, List.map_cons]
      rfl

/-- each failed unit is counted once -/
theorem failed_foldl (r : Report) (os : List (String × Outcome)) (h : r.failed = r.failedUnits.length) :
    (os.foldl (fun r o => r.count o.1 o.2) r).failed =
      (os.foldl (fun r o => r.count o.1 o.2) r).failedUnits.length := by
  induction os generalizing r with
  | nil => exact h
  | cons o os ih =>
    refine ih (r.count o.1 o.2) ?_
    rw [failed_count, failedUnits_count, List.length_append, h]
    split <;> rfl

theorem total_ofOutcomes (os : List (String × Outcome)) : (ofOutcomes os).total = os.length := by
  rw [ofOutcomes, total_foldl]
  exact Nat.zero_add _

theorem failedUnits_ofOutcomes (os : List (String × Outcome)) :
    (ofOutcomes os).failedUnits = (os.filter fun o => !o.2.passed).map (·.1) := by
  rw [ofOutcomes, failedUnits_foldl]
  rfl

theorem failed_ofOutcomes (os : List (String × Outcome)) :
    (ofOutcomes os).failed = (ofOutcomes os).failedUnits.length :=
  failed_foldl {} os rfl

theorem failedUnits_map (f : String → Outcome) (ids : List String) :
    (ofOutcomes (ids.map fun id => (id, f id))).failedUnits = ids.filter fun id => !(f id).passed := by
  rw [failedUnits_ofOutcomes, List.filter_map, List.map_map]
  exact List.map_id _

/-- a report of the outcomes of units lists those that failed -/
theorem mem_failedUnits_iff {ids : List String} {f : String → Outcome} {id : String} :
    id ∈ (ofOutcomes (ids.map fun id => (id, f id))).failedUnits ↔ id ∈ ids ∧ (f id).passed = false := by
  rw [failedUnits_map, List.mem_filter, Bool.not_eq_true']

theorem passed_iff {ids : List String} {f : String → Outcome} :
    (ofOutcomes (ids.map fun id => (id, f id))).passed = true ↔
      ∀ id ∈ ids, id ∉ (ofOutcomes (ids.map fun id => (id, f id))).failedUnits := by
  rw [passed, beq_iff_eq, failed_ofOutcomes, List.length_eq_zero_iff, List.eq_nil_iff_forall_not_mem]
  refine ⟨fun h id _ => h id, fun h id hid => ?_⟩
  exact h id (mem_failedUnits_iff.mp hid).1 hid

theorem details_foldl (r : Report) (os : List (String × Outcome)) :
    (os.foldl (fun r o => r.count o.1 o.2) r).details =
      ((os.filter fun o => !o.2.passed).map fun o => (o.1, Verdict.ofOutcome o.2)).foldl
        (fun m e => m.insert e.1 e.2) r.details := by
  induction os generalizing r with
  | nil => rfl
  | cons o os ih =>
    rw [List.foldl_cons, ih, count]
    by_cases h : o.2.passed = true
    · rw [List.filter_cons_of_neg (by simp [h]), if_pos h]
    · rw [List.filter_cons_of_pos (by simp [h]), if_neg h]
      rfl

/-- a report says of each failed unit what it came to -/
theorem get?_details (f : String → Outcome) (ids : List String) (x : String) :
    (ofOutcomes (ids.map fun id => (id, f id))).details.get? x =
      if x ∈ ids ∧ (f x).passed = false then some (Verdict.ofOutcome (f x)) else none := by
  have hlisted : ((ids.map fun id => (id, f id)).filter fun o => !o.2.passed).map
      (fun o => (o.1, Verdict.ofOutcome o.2)) =
        (ids.filter fun id => !(f id).passed).map fun id => (id, Verdict.ofOutcome (f id)) := by
    rw [List.filter_map, List.map_map]
    rfl
  have hdetails := details_foldl {} (ids.map fun id => (id, f id))
  rw [hlisted] at hdetails
  rw [ofOutcomes, hdetails]
  have hget := SortedMap.get?_ofList_map (fun id => Verdict.ofOutcome (f id))
    (ids.filter fun id => !(f id).passed) x
  simp only [List.mem_filter, Bool.not_eq_true'] at hget
  exact hget

/-- the order of the units shows in the list of those that failed, and nowhere else -/
theorem ofOutcomes_perm (f : String → Outcome) {ids ids' : List String} (h : ids'.Perm ids) :
    (ofOutcomes (ids'.map fun id => (id, f id))).total = (ofOutcomes (ids.map fun id => (id, f id))).total ∧
      (ofOutcomes (ids'.map fun id => (id, f id))).failed =
        (ofOutcomes (ids.map fun id => (id, f id))).failed ∧
      (ofOutcomes (ids'.map fun id => (id, f id))).details =
        (ofOutcomes (ids.map fun id => (id, f id))).details := by
  refine ⟨?_, ?_, SortedMap.ext_get? fun x => ?_⟩
  · rw [total_ofOutcomes, total_ofOutcomes, List.length_map, List.length_map, h.length_eq]
  · rw [failed_ofOutcomes, failed_ofOutcomes, failedUnits_map, failedUnits_map]
    exact (h.filter _).length_eq
  · rw [get?_details, get?_details]
    simp only [h.mem_iff]

/-! ## the sum of it -/

/-- a report adds up to the outcomes of units -/
structure Tallies (r : Report) (ids : List String) (f : String → Outcome) : Prop where
  total : r.total = ids.length
  /-- in the order of the units -/
  failedUnits : r.failedUnits = ids.filter fun id => (f id).result ≠ 0
  failed : r.failed = r.failedUnits.length
  /-- so there is a number of units that did not fail -/
  failed_le : r.failed ≤ r.total
  /-- details are given of the failed units, and of no others -/
  details : ∀ id v, r.details.get? id = some v ↔ id ∈ r.failedUnits ∧ v = ⟨.failed, (f id).output⟩
  passed : r.passed = true ↔ ∀ id ∈ ids, (f id).result = 0

theorem ofOutcome_of_failed {o : Outcome} (h : o.passed = false) :
    Verdict.ofOutcome o = ⟨.failed, o.output⟩ := by
  rw [Verdict.ofOutcome, h]
  rfl

theorem tallies_ofOutcomes (ids : List String) (f : String → Outcome) :
    (ofOutcomes (ids.map fun id => (id, f id))).Tallies ids f := by
  have hresult (id : String) : (!(f id).passed) = decide ((f id).result ≠ 0) := by
    by_cases h : (f id).result = 0
    · simp [Outcome.passed, h]
    · simp [Outcome.passed, h]
  have hlisted : (ofOutcomes (ids.map fun id => (id, f id))).failedUnits =
      ids.filter fun id => (f id).result ≠ 0 := by
    rw [failedUnits_map]
    exact List.filter_congr fun id _ => hresult id
  have htotal : (ofOutcomes (ids.map fun id => (id, f id))).total = ids.length := by
    rw [total_ofOutcomes, List.length_map]
  refine ⟨htotal, hlisted, failed_ofOutcomes _, ?_, fun id v => ?_, ?_⟩
  · rw [failed_ofOutcomes, hlisted, htotal]
    exact List.length_filter_le _ ids
  · rw [get?_details, mem_failedUnits_iff]
    by_cases h : id ∈ ids ∧ (f id).passed = false
    · rw [if_pos h, ofOutcome_of_failed h.2, Option.some.injEq]
      exact ⟨fun hv => ⟨h, hv.symm⟩, fun hv => hv.2.symm⟩
    · rw [if_neg h]
      exact ⟨fun hv => absurd hv (by simp), fun hv => absurd hv.1 h⟩
  · rw [passed_iff, hlisted]
    simp

end Report

/-- a unit whose fresh outcome is a failure is listed, and the report says that not all is well -/
theorem aggregate_of_failed {ids : List String} {fresh : Outcomes} {id : String} {o : Outcome}
    (hid : id ∈ ids) (h : fresh.get? id = some o) (hfailed : o.passed = false) (reused : Outcomes) (s : Store) :
    id ∈ (aggregate ids fresh reused s).1.failedUnits ∧ (aggregate ids fresh reused s).1.passed = false := by
  have hlisted : id ∈ (aggregate ids fresh reused s).1.failedUnits := by
    rw [aggregate, Report.failedUnits_ofOutcomes, List.mem_map]
    exact ⟨(id, o), List.mem_filter.mpr ⟨mem_outcomesOf_of_fresh hid h, by rw [hfailed]; rfl⟩, rfl⟩
  refine ⟨hlisted, Bool.eq_false_iff.mpr fun hpassed => ?_⟩
  rw [Report.passed, beq_iff_eq, aggregate, Report.failed_ofOutcomes, List.length_eq_zero_iff] at hpassed
  rw [aggregate, hpassed] at hlisted
  contradiction

/-- what is reported and recorded is the outcome of each unit, and nothing that was stored before -/
theorem aggregate_exact {ids : List String} (hd : ids.Nodup) (fresh reused : Outcomes) (s : Store) :
    (aggregate ids fresh reused s).1.Tallies ids (outcomeFor fresh reused) ∧
      (aggregate ids fresh reused s).2 =
        { s with entries := .ofList (ids.map fun id => (id, outcomeFor fresh reused id)) } ∧
      ∀ s', (aggregate ids fresh reused s').1 = (aggregate ids fresh reused s).1 ∧
        (aggregate ids fresh reused s').2.entries = (aggregate ids fresh reused s).2.entries := by
  refine ⟨?_, aggregate_store fresh reused s hd, fun s' => ⟨?_, ?_⟩⟩
  · rw [aggregate_report fresh reused s hd]
    exact Report.tallies_ofOutcomes ids (outcomeFor fresh reused)
  · rw [aggregate_report fresh reused s' hd, aggregate_report fresh reused s hd]
  · rw [aggregate_store fresh reused s' hd, aggregate_store fresh reused s hd]

/-- of three units, one passed before, one failed now, and one has no result; there is also a result of
no unit, and an outcome of a unit that is gone -/
theorem mixed_outcomes :
    let ids := ["c.cc", "a.cc", "b.cc"]
    let fresh : Outcomes := .ofList [("b.cc", ⟨1, "bad"⟩), ("x.cc", ⟨1, ""⟩)]
    let reused : Outcomes := .ofList [("a.cc", ⟨0, "ok"⟩), ("b.cc", ⟨0, ""⟩)]
    let s : Store := ⟨.ofList [("gone.cc", ⟨0, ""⟩)], "rules", "1.0", some 5⟩
    ids.Nodup ∧ (aggregate ids fresh reused s).1.Tallies ids (outcomeFor fresh reused) ∧
      (aggregate ids fresh reused s).1.failedUnits = ["c.cc", "b.cc"] ∧
      (aggregate ids fresh reused s).2 =
        ⟨.ofList [("c.cc", Outcome.missing), ("a.cc", ⟨0, "ok"⟩), ("b.cc", ⟨1, "bad"⟩)], "rules", "1.0",
          some 5⟩ := by
  intro ids fresh reused s
  have hd : ids.Nodup := by decide
  obtain ⟨htallies, hstore, _⟩ := aggregate_exact hd fresh reused s
  have hlisted := htallies.failedUnits
  refine ⟨hd, htallies, hlisted.trans ?_, hstore.trans ?_⟩
  · decide
  · decide

end IncrementalLint
