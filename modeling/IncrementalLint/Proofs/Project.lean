import IncrementalLint.Project
import IncrementalLint.Proofs.Files.Ascent

/-!
# The nearest project

The search for a project looks at its start and goes up, a component at a time, until it finds settings
or cannot go up any further. So it ends, and what it finds is the first directory upwards with settings
in it.

* `Project.rootWithin`      the search, with a bounded number of looks;
* `Project.root?_eq_some_iff`, `Project.root?_eq_none_iff`   what it finds, and when it finds nothing;
* `Project.root_nearest`    the search ends with the nearest project, or there is none.
-/

namespace IncrementalLint.Project

open IncrementalLint.Path

variable {w : Workspace} {p dir : Path}

/-! ## the looks of a search -/

/-- the search in no more than a number of looks; none where they do not suffice -/
def rootWithin (w : Workspace) : Nat → Path → Option (Option Path)
  | 0, _ => none
  | looks + 1, p =>
    if hasSettings w p then some (some p)
    else
      match p.parent? with
      | none => some none
      | some up => rootWithin w looks up

/-- a search looks once at each height, and is over -/
theorem rootWithin_height (w : Workspace) (p : Path) :
    rootWithin w (p.height + 1) p = some (root? w p) := by
  fun_induction root? w p with
  | case1 p h => rw [rootWithin, if_pos h]
  | case2 p h hup =>
    rw [rootWithin, if_neg h]
    split <;> simp_all
  | case3 p h up hup ih =>
    rw [rootWithin, if_neg h, height_of_parent hup]
    split <;> simp_all

/-! ## the nearest directory with settings -/

/-- `dir` is `k` components above `p` and holds settings, and no directory nearer to `p` does -/
structure Nearest (w : Workspace) (p : Path) (k : Nat) (dir : Path) : Prop where
  dropped : p.Dropped k dir
  settings : hasSettings w dir = true
  none_nearer : ∀ j < k, ∀ q, p.Dropped j q → hasSettings w q = false

theorem nearest_zero_iff : Nearest w p 0 dir ↔ hasSettings w p = true ∧ dir = p := by
  refine ⟨fun h => ?_, ?_⟩
  · obtain rfl := dropped_zero_iff.mp h.dropped
    exact ⟨h.settings, rfl⟩
  · rintro ⟨h, rfl⟩
    exact ⟨dropped_zero_iff.mpr rfl, h, fun j hj => absurd hj (Nat.not_lt_zero j)⟩

theorem nearest_succ_iff {k : Nat} : Nearest w p (k + 1) dir ↔
    hasSettings w p = false ∧ ∃ up, p.parent? = some up ∧ Nearest w up k dir := by
  constructor
  · intro h
    obtain ⟨up, hup, hk⟩ := dropped_succ_iff.mp h.dropped
    refine ⟨h.none_nearer 0 (Nat.succ_pos k) p (dropped_zero_iff.mpr rfl), up, hup, hk, h.settings, ?_⟩
    exact fun j hj q hq => h.none_nearer (j + 1) (Nat.succ_lt_succ hj) q (dropped_succ_iff.mpr ⟨up, hup, hq⟩)
  · rintro ⟨hp, up, hup, h⟩
    refine ⟨dropped_succ_iff.mpr ⟨up, hup, h.dropped⟩, h.settings, fun j hj q hq => ?_⟩
    cases j with
    | zero => rwa [dropped_zero_iff.mp hq]
    | succ j =>
      obtain ⟨up', hup', hq⟩ := dropped_succ_iff.mp hq
      obtain rfl := Option.some.inj (hup.symm.trans hup')
      exact h.none_nearer j (Nat.lt_of_succ_lt_succ hj) q hq

/-! ## what a search finds -/

theorem root?_eq_some_iff : root? w p = some dir ↔ ∃ k, Nearest w p k dir := by
  fun_induction root? w p with
  | case1 p h =>
    refine ⟨fun hp => ⟨0, nearest_zero_iff.mpr ⟨h, (Option.some.inj hp).symm⟩⟩, ?_⟩
    rintro ⟨_ | k, hk⟩
    · rw [(nearest_zero_iff.mp hk).2]
    · simp [nearest_succ_iff, h] at hk
  | case2 p h hup =>
    refine ⟨fun hp => by contradiction, ?_⟩
    rintro ⟨_ | k, hk⟩
    · exact absurd (nearest_zero_iff.mp hk).1 h
    · simp [nearest_succ_iff, hup] at hk
  | case3 p h up hup ih =>
    rw [ih]
    constructor
    · rintro ⟨k, hk⟩
      exact ⟨k + 1, nearest_succ_iff.mpr ⟨Bool.eq_false_iff.mpr h, up, hup, hk⟩⟩
    · rintro ⟨_ | k, hk⟩
      · exact absurd (nearest_zero_iff.mp hk).1 h
      · obtain ⟨_, up', hup', hk⟩ := nearest_succ_iff.mp hk
        obtain rfl := Option.some.inj (hup.symm.trans hup')
        exact ⟨k, hk⟩

theorem root?_eq_none_iff :
    root? w p = none ↔ ∀ k q, p.Dropped k q → hasSettings w q = false := by
  fun_induction root? w p with
  | case1 p h =>
    refine ⟨fun hp => by contradiction, fun hnone => ?_⟩
    rw [hnone 0 p (dropped_zero_iff.mpr rfl)] at h
    contradiction
  | case2 p h hup =>
    refine ⟨fun _ k q hq => ?_, fun _ => rfl⟩
    cases k with
    | zero => rw [dropped_zero_iff.mp hq, Bool.eq_false_iff.mpr h]
    | succ k => simp [dropped_succ_iff, hup] at hq
  | case3 p h up hup ih =>
    rw [ih]
    refine ⟨fun hnone k q hq => ?_, fun hnone k q hq => ?_⟩
    · cases k with
      | zero => rw [dropped_zero_iff.mp hq, Bool.eq_false_iff.mpr h]
      | succ k =>
        obtain ⟨up', hup', hq⟩ := dropped_succ_iff.mp hq
        obtain rfl := Option.some.inj (hup.symm.trans hup')
        exact hnone k q hq
    · exact hnone (k + 1) q (dropped_succ_iff.mpr ⟨up, hup, hq⟩)

/-- the search for a project looks at its start and at most once at each path above it, down to the root or
the empty path; what it finds is the nearest directory with settings, and it fails only where no path
upwards has any -/
theorem root_nearest (w : Workspace) (start : Path) :
    rootWithin w (start.height + 1) start = some (root? w start) ∧
      (∀ k, (∃! q, start.Dropped k q) ↔ k ≤ start.height) ∧
      (∀ q, start.Dropped start.height q →
        if start.isAbsolute then q.components = [.root] else q = ⟨""⟩) ∧
      (∀ dir, root w start = .ok dir ↔ ∃ k, Nearest w start k dir) ∧
      ∀ e, root w start = .error e ↔
        e = .noRoot start ∧ ∀ k q, start.Dropped k q → hasSettings w q = false := by
  refine ⟨rootWithin_height w start, fun k => existsUnique_dropped_iff, fun q => dropped_height, fun dir => ?_,
    fun e => ?_⟩
  · rw [← root?_eq_some_iff, root]
    cases root? w start <;> simp
  · rw [← root?_eq_none_iff, root]
    cases root? w start <;> simp [eq_comm]

end IncrementalLint.Project
