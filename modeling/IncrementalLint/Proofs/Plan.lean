import IncrementalLint.Plan
import IncrementalLint.Proofs.SortedMap
import IncrementalLint.Proofs.Units.Entries
import Mathlib.Data.List.Nodup

/-!
# What a plan decides

The units of a database come once each, so that a plan has one decision for each of them.

* `SourceUnit.enumerate_nodup`      no id comes twice;
* `Classification.get?_cached`      what is reused is what was decided;
* `Classification.mem_stale`        what is analyzed is the rest;
* `Plan.mem_staleUnits`             the same, of the units to analyze;
* `Plan.MadeOf.partition`           every unit is on one side, and on one only.
-/

namespace IncrementalLint

/-! ## units -/

/-- no id comes twice -/
theorem SourceUnit.enumerate_nodup {w : Workspace} {db root : Path} {filter : UnitFilter}
    {us : List SourceUnit} (h : enumerate w db root filter = .ok us) : (us.map (·.id)).Nodup := by
  obtain ⟨_, es, _, rfl⟩ := enumerate_eq_ok_iff.mp h
  exact CompileEntry.select_nodup

/-! ## decisions -/

namespace Classification

section
variable {w : Workspace} {dir : Path} {s : Store} {us : List SourceUnit}

theorem reusable?_eq_some_iff {u : SourceUnit} {e : String × Outcome} :
    reusable? w dir s u = some e ↔ e.1 = u.id ∧ decisionFor w dir s u = .cached e.2 := by
  obtain ⟨id, o⟩ := e
  unfold reusable?
  split
  next o' h =>
    rw [h, Option.some.injEq, Prod.mk.injEq, Decision.cached.injEq]
    exact and_congr eq_comm Iff.rfl
  next h => simp [h]

theorem stale?_eq_some_iff {u : SourceUnit} {x : StaleUnit} :
    stale? w dir s u = some x ↔ x.id = u.id ∧ decisionFor w dir s u = .stale x.reason := by
  obtain ⟨id, reason⟩ := x
  unfold stale?
  split
  next o h => simp [h]
  next reason' h =>
    rw [h, Option.some.injEq, StaleUnit.mk.injEq, Decision.stale.injEq]
    exact and_congr eq_comm Iff.rfl

theorem reusable_keys (hd : (us.map (·.id)).Nodup) :
    ((us.filterMap (reusable? w dir s)).map (·.1)).Nodup := by
  refine List.Sublist.nodup ?_ hd
  clear hd
  induction us with
  | nil => exact List.Sublist.slnil
  | cons u us ih =>
    rw [List.filterMap_cons]
    split
    · exact ih.cons _
    next e he =>
      rw [List.map_cons, List.map_cons, (reusable?_eq_some_iff.mp he).1]
      exact ih.cons_cons _

theorem get?_cached (hd : (us.map (·.id)).Nodup) {id : String} {o : Outcome} :
    (ofUnits w dir s us).cached.get? id = some o ↔
      ∃ u ∈ us, u.id = id ∧ decisionFor w dir s u = .cached o := by
  show (SortedMap.ofList (us.filterMap (reusable? w dir s))).get? id = some o ↔ _
  rw [SortedMap.get?_ofList_iff (reusable_keys hd), List.mem_filterMap]
  simp only [reusable?_eq_some_iff]
  exact ⟨fun ⟨u, hu, hid, h⟩ => ⟨u, hu, hid.symm, h⟩, fun ⟨u, hu, hid, h⟩ => ⟨u, hu, hid.symm, h⟩⟩

theorem mem_stale {x : StaleUnit} :
    x ∈ (ofUnits w dir s us).stale ↔
      ∃ u ∈ us, x.id = u.id ∧ decisionFor w dir s u = .stale x.reason := by
  show x ∈ us.filterMap (stale? w dir s) ↔ _
  rw [List.mem_filterMap]
  simp only [stale?_eq_some_iff]

/-- of a unit, the same -/
theorem mem_stale_iff (hd : (us.map (·.id)).Nodup) {u : SourceUnit} (hu : u ∈ us) {reason : StaleReason} :
    ⟨u.id, reason⟩ ∈ (ofUnits w dir s us).stale ↔ decisionFor w dir s u = .stale reason := by
  refine mem_stale.trans ⟨?_, fun h => ⟨u, hu, rfl, h⟩⟩
  rintro ⟨v, hv, hid, h⟩
  obtain rfl := List.inj_on_of_nodup_map hd hu hv hid
  exact h

end

end Classification

/-! ## plans -/

namespace Plan

/-- a plan that was made with a store -/
structure MadeOf (p : Plan) (w : Workspace) (dir : Path) (s : Store) : Prop where
  nodup : p.ids.Nodup
  cached : p.cached = (Classification.ofUnits w dir s p.units).cached
  stale : p.stale = (Classification.ofUnits w dir s p.units).stale

section
variable {p : Plan} {w : Workspace} {dir : Path} {s : Store}

theorem MadeOf.get?_cached (h : p.MadeOf w dir s) {id : String} {o : Outcome} :
    p.cached.get? id = some o ↔
      ∃ u ∈ p.units, u.id = id ∧ Classification.decisionFor w dir s u = .cached o := by
  rw [h.cached, Classification.get?_cached h.nodup]

theorem MadeOf.isStale_iff (h : p.MadeOf w dir s) {u : SourceUnit} (hu : u ∈ p.units) :
    p.isStale u.id = true ↔ ∃ reason, Classification.decisionFor w dir s u = .stale reason := by
  unfold isStale
  rw [List.any_eq_true, h.stale]
  constructor
  · rintro ⟨⟨id, reason⟩, hx, hid⟩
    obtain rfl := beq_iff_eq.mp hid
    exact ⟨reason, (Classification.mem_stale_iff h.nodup hu).mp hx⟩
  · rintro ⟨reason, hd⟩
    exact ⟨⟨u.id, reason⟩, (Classification.mem_stale_iff h.nodup hu).mpr hd, beq_self_eq_true _⟩

theorem MadeOf.isStale_iff_uncached (h : p.MadeOf w dir s) {u : SourceUnit} (hu : u ∈ p.units) :
    p.isStale u.id = true ↔ p.cached.get? u.id = none := by
  rw [h.isStale_iff hu]
  cases hd : Classification.decisionFor w dir s u with
  | cached o => simp [h.get?_cached.mpr ⟨u, hu, rfl, hd⟩]
  | stale reason =>
    refine iff_of_true ⟨reason, rfl⟩ ?_
    cases hc : p.cached.get? u.id with
    | none => rfl
    | some o =>
      obtain ⟨v, hv, hid, hd'⟩ := h.get?_cached.mp hc
      obtain rfl := List.inj_on_of_nodup_map h.nodup hv hu hid
      exact absurd (hd.symm.trans hd') (by simp)

/-- the units to analyze are those that are not reused -/
theorem MadeOf.staleUnits_eq (h : p.MadeOf w dir s) :
    p.staleUnits = p.units.filter fun u => (p.cached.get? u.id).isNone := by
  refine List.filter_congr fun u hu => ?_
  rw [Bool.eq_iff_iff, h.isStale_iff_uncached hu, Option.isNone_iff_eq_none]

theorem MadeOf.mem_staleUnits (h : p.MadeOf w dir s) {u : SourceUnit} :
    u ∈ p.staleUnits ↔ u ∈ p.units ∧ p.cached.get? u.id = none := by
  rw [h.staleUnits_eq, List.mem_filter, Option.isNone_iff_eq_none]

theorem MadeOf.mem_stale_of_decision (h : p.MadeOf w dir s) {u : SourceUnit} (hu : u ∈ p.units)
    {reason : StaleReason} (hd : Classification.decisionFor w dir s u = .stale reason) :
    u ∈ p.staleUnits :=
  List.mem_filter.mpr ⟨hu, (h.isStale_iff hu).mpr ⟨reason, hd⟩⟩

theorem MadeOf.notMem_stale_of_cached (h : p.MadeOf w dir s) {u : SourceUnit} {o : Outcome}
    (hc : p.cached.get? u.id = some o) : u ∉ p.staleUnits := by
  intro hu
  have hnone := (h.mem_staleUnits.mp hu).2
  rw [hc] at hnone
  contradiction

theorem MadeOf.stale_nodup (h : p.MadeOf w dir s) : (p.staleUnits.map (·.id)).Nodup :=
  (List.filter_sublist.map _).nodup h.nodup

/-- the units to analyze, in the order in which they were found to be stale -/
theorem MadeOf.ids_staleUnits (h : p.MadeOf w dir s) : p.staleUnits.map (·.id) = p.stale.map (·.id) := by
  have hfilter : p.staleUnits = p.units.filter fun u => (Classification.stale? w dir s u).isSome := by
    refine List.filter_congr fun u hu => ?_
    rw [Bool.eq_iff_iff, h.isStale_iff hu, Classification.stale?]
    split <;> simp_all
  rw [hfilter, h.stale, Classification.ofUnits]
  dsimp only
  induction p.units with
  | nil => rfl
  | cons u us ih =>
    rw [List.filter_cons, List.filterMap_cons]
    cases hs : Classification.stale? w dir s u with
    | none => exact ih
    | some x =>
      rw [Option.isSome_some, if_pos rfl, List.map_cons, List.map_cons, ih,
        (Classification.stale?_eq_some_iff.mp hs).1]

/-- every unit is either reused or analyzed -/
theorem MadeOf.partition (h : p.MadeOf w dir s) : (p.cached.keys ++ p.stale.map (·.id)).Perm p.ids := by
  rw [← h.ids_staleUnits]
  have hreused : ∀ u ∈ p.units, u ∉ p.staleUnits → u.id ∈ p.cached.keys := by
    intro u hu hs
    rw [SortedMap.mem_keys_iff, Option.isSome_iff_ne_none]
    exact fun hc => hs (h.mem_staleUnits.mpr ⟨hu, hc⟩)
  have hdisjoint : ∀ id ∈ p.cached.keys, id ∉ p.staleUnits.map (·.id) := by
    intro id hid hs
    obtain ⟨u, hu, rfl⟩ := List.mem_map.mp hs
    rw [SortedMap.mem_keys_iff, (h.mem_staleUnits.mp hu).2] at hid
    contradiction
  refine (List.perm_ext_iff_of_nodup ?_ h.nodup).mpr fun id => ?_
  · rw [List.nodup_append]
    exact ⟨SortedMap.nodup_keys _, h.stale_nodup, fun x hx y hy he => hdisjoint x hx (he ▸ hy)⟩
  · rw [List.mem_append, ids]
    constructor
    · rintro (hid | hid)
      · obtain ⟨o, ho⟩ := Option.isSome_iff_exists.mp (SortedMap.mem_keys_iff.mp hid)
        obtain ⟨u, hu, rfl, _⟩ := h.get?_cached.mp ho
        exact List.mem_map_of_mem hu
      · obtain ⟨u, hu, rfl⟩ := List.mem_map.mp hid
        exact List.mem_map_of_mem (h.mem_staleUnits.mp hu).1
    · intro hid
      obtain ⟨u, hu, rfl⟩ := List.mem_map.mp hid
      by_cases hs : u ∈ p.staleUnits
      · exact Or.inr (List.mem_map_of_mem hs)
      · exact Or.inl (hreused u hu hs)

end

end Plan

end IncrementalLint
