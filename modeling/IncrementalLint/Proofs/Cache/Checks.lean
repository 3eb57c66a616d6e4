import IncrementalLint.Proofs.Cache.Decision
import IncrementalLint.Proofs.SortedMap

/-!
# The checks in front of reuse

An outcome is reused if it stands up to every check. If it does not, the first check that fails is the
reason to analyze its unit again; of the files in a listing that changed, the least is named.

* `Time.before_iff`            times in seconds and nanoseconds, one before the other;
* `Listing.find?_eq_some_iff`  the first file of a kind in a listing is the least one;
* `Reusable`                   what an outcome must stand up to;
* `Objection`                  the first check that fails, as a reason;
* `reusable_or_objection`      there always is one of the two;
* `decideUnit_exact`           and it is what is decided.
-/

namespace IncrementalLint

open Workspace

/-! ## times -/

/-- in an earlier second, or in an earlier part of the same one -/
def Time.Before (t u : Time) : Prop := t.seconds < u.seconds ∨ (t.seconds = u.seconds ∧ t.nanos < u.nanos)

instance (t u : Time) : Decidable (t.Before u) := inferInstanceAs (Decidable (_ ∨ _))

theorem Time.before_iff {t u : Time} : t.Before u ↔ t < u := by
  have hnanos (x : Time) : 0 ≤ x.nanos ∧ x.nanos < 1000000000 :=
    ⟨Int.fmod_nonneg_of_pos x (by decide), Int.fmod_lt_of_pos x (by decide)⟩
  have hparts (x : Time) : x.nanos + 1000000000 * x.seconds = x := Int.fmod_add_mul_fdiv x 1000000000
  obtain ⟨ht, ht'⟩ := hnanos t
  obtain ⟨hu, hu'⟩ := hnanos u
  have htime := hparts t
  have htime' := hparts u
  show _ ↔ @LT.lt Int _ t u
  unfold Before
  omega

/-- half a second before 1970 -/
example : (Time.ofParts (-1) 500000000).Before (Time.ofParts 0 0) := by decide

/-! ## the least file of a kind -/

theorem PathSet.increasing (ps : List Path) :
    (ofList ps).paths.Pairwise fun p q => compare p.components q.components = .lt := by
  have hkey : ∀ e ∈ (ofList ps).entries, e.1 = e.2.components := by
    intro e he
    have hget := (SortedMap.mem_toList_iff (ofList ps) e.1 e.2).mp he
    obtain ⟨p, _, hp⟩ := List.mem_map.mp (SortedMap.mem_of_get?_ofList hget)
    obtain ⟨hcomponents, rfl⟩ := Prod.mk.inj hp
    exact hcomponents.symm
  rw [paths, SortedMap.values, List.pairwise_map]
  refine List.Pairwise.imp_of_mem (fun {a b} ha hb h => ?_) (SortedMap.increasing (ofList ps))
  rwa [hkey a ha, hkey b hb] at h

theorem Listing.find?_eq_some_iff {text : String} {kind : Path → Bool} {f : Path} :
    (parse text).paths.find? kind = some f ↔ f ∈ (parse text).paths ∧ kind f = true ∧
      ∀ g ∈ (parse text).paths, compare g.components f.components = .lt → kind g = false :=
  SortedMap.find?_eq_some_iff_least (PathSet.increasing _)

/-! ## checks -/

/-- there is something at a path, and it was not written after a time -/
def Workspace.UntouchedSince (w : Workspace) (path : Path) (T : Time) : Prop :=
  ∃ t, w.modified path = .ok t ∧ ¬T.Before t

/-- a success is stored for a unit -/
def Store.Vouches (s : Store) (id : String) : Prop := ∃ o, s.get? id = some o ∧ o.result = 0

section
variable (w : Workspace) (id : String) (listing dir : Path) (s : Store)

/-- all that an outcome must stand up to in order to be reused -/
structure Reusable (o : Outcome) : Prop where
  stored : s.get? id = some o
  passed : o.result = 0
  /-- the listing is older than the store, and no file in it is younger -/
  current : ∃ T written text, s.reference = some T ∧ w.modified listing = .ok written ∧
    written.Before T ∧ w.readText listing = .ok text ∧
    ∀ f ∈ (Listing.parse text).paths, w.UntouchedSince (dir.join f) T

/-- the first check that fails, as the reason to analyze a unit: each case has passed the checks of
those in front of it -/
inductive Objection : StaleReason → Prop
  | notStored (hs : s.get? id = none) : Objection .notCached
  | failed {o : Outcome} (hs : s.get? id = some o) (ho : o.result ≠ 0) : Objection .previouslyFailed
  | noListing (hs : s.Vouches id) (hw : ∀ t, w.modified listing ≠ .ok t) : Objection .missingListing
  | noReference {written : Time} (hs : s.Vouches id) (hw : w.modified listing = .ok written)
      (hr : s.reference = none) : Objection .listingChanged
  | lateListing {written T : Time} (hs : s.Vouches id) (hw : w.modified listing = .ok written)
      (hr : s.reference = some T) (hlate : ¬written.Before T) : Objection .listingChanged
  | unreadable {written T : Time} (hs : s.Vouches id) (hw : w.modified listing = .ok written)
      (hr : s.reference = some T) (hearly : written.Before T)
      (ht : ∀ text, w.readText listing ≠ .ok text) : Objection .missingListing
  | changed {written T : Time} {text : String} {f : Path} (hs : s.Vouches id)
      (hw : w.modified listing = .ok written) (hr : s.reference = some T)
      (hearly : written.Before T) (ht : w.readText listing = .ok text)
      (hf : f ∈ (Listing.parse text).paths) (hchanged : ¬w.UntouchedSince (dir.join f) T)
      (hleast : ∀ g ∈ (Listing.parse text).paths, compare g.components f.components = .lt →
        w.UntouchedSince (dir.join g) T) : Objection (.dependencyChanged f)

end

/-! ## decisions -/

section
variable {w : Workspace} {id : String} {listing dir path : Path} {s : Store} {o : Outcome}
  {T written : Time} {text : String} {reason : StaleReason} {files : PathSet}

theorem isUnchanged_iff_untouched : isUnchanged w path T = true ↔ w.UntouchedSince path T := by
  have hbound (t : Time) : ¬T.Before t ↔ t ≤ T := by rw [Time.before_iff, Int.not_lt]
  unfold UntouchedSince isUnchanged
  simp only [hbound]
  cases w.modified path with
  | ok t => simp
  | error e => simp

/-- the file that a listing is turned down for -/
theorem Listing.find?_changed_iff {f : Path} :
    (parse text).paths.find? (fun g => !isUnchanged w (dir.join g) T) = some f ↔
      f ∈ (parse text).paths ∧ ¬w.UntouchedSince (dir.join f) T ∧
        ∀ g ∈ (parse text).paths, compare g.components f.components = .lt →
          w.UntouchedSince (dir.join g) T := by
  rw [Listing.find?_eq_some_iff]
  simp only [← isUnchanged_iff_untouched, Bool.not_eq_true', Bool.not_eq_false', Bool.not_eq_true]

theorem currentListing_of_text (hw : w.modified listing = .ok written) (hearly : written.Before T)
    (ht : w.readText listing = .ok text) :
    currentListing w listing (some T) = .ok (T, Listing.parse text) := by
  have hnot : ¬T ≤ written := Int.not_le.mpr (Time.before_iff.mp hearly)
  rw [currentListing, hw]
  dsimp only
  rw [if_neg hnot, Listing.read, ht]

/-- a success that is stored goes by its listing -/
theorem decideUnit_of_listing_error (hs : s.Vouches id)
    (hc : currentListing w listing s.reference = .error reason) :
    decideUnit w id listing dir s = .stale reason := by
  obtain ⟨o, hstored, ho⟩ := hs
  have hpass : o.passed = true := beq_iff_eq.mpr ho
  rw [decideUnit, hstored]
  dsimp only
  rw [hpass, hc]
  rfl

theorem Reusable.decision (h : Reusable w id listing dir s o) : decideUnit w id listing dir s = .cached o := by
  obtain ⟨T, written, text, hr, hw, hearly, ht, hfiles⟩ := h.current
  refine decideUnit_cached_iff.mpr ⟨h.stored, beq_iff_eq.mpr h.passed, T, Listing.parse text, ?_, ?_⟩
  · rw [hr]
    exact currentListing_of_text hw hearly ht
  · exact fun f hf => isUnchanged_iff_untouched.mpr (hfiles f hf)

theorem Objection.decision (h : Objection w id listing dir s reason) :
    decideUnit w id listing dir s = .stale reason := by
  cases h with
  | notStored hs => rw [decideUnit, hs]
  | @failed o hs ho =>
    have hfail : o.passed = false := beq_eq_false_iff_ne.mpr ho
    rw [decideUnit, hs]
    dsimp only
    rw [hfail]
    rfl
  | noListing hs hw =>
    refine decideUnit_of_listing_error hs ?_
    unfold currentListing
    cases hm : w.modified listing with
    | ok t => exact absurd hm (hw t)
    | error e => rfl
  | noReference hs hw hr =>
    refine decideUnit_of_listing_error hs ?_
    rw [currentListing, hw, hr]
  | lateListing hs hw hr hlate =>
    refine decideUnit_of_listing_error hs ?_
    rw [Time.before_iff, Int.not_lt] at hlate
    rw [currentListing, hw, hr]
    exact if_pos hlate
  | unreadable hs hw hr hearly ht =>
    refine decideUnit_of_listing_error hs ?_
    rw [Time.before_iff, ← Int.not_le] at hearly
    cases hread : w.readText listing with
    | ok text => exact absurd hread (ht text)
    | error e =>
      rw [hr]
      exact currentListing_of_unreadable hw hearly hread
  | @changed written T text f hs hw hr hearly ht hf hchanged hleast =>
    obtain ⟨o, hstored, ho⟩ := hs
    have hpass : o.passed = true := beq_iff_eq.mpr ho
    have hfind := Listing.find?_changed_iff.mpr ⟨hf, hchanged, hleast⟩
    rw [decideUnit, hstored]
    dsimp only
    rw [hpass, hr, currentListing_of_text hw hearly ht]
    dsimp only
    rw [hfind]
    rfl

/-- the listing of a unit with a success can be read and is old enough, or there is a first check that
fails -/
theorem Store.Vouches.text_or_objection (hs : s.Vouches id) :
    (∃ T written text, s.reference = some T ∧ w.modified listing = .ok written ∧ written.Before T ∧
        w.readText listing = .ok text) ∨
      ∃ reason, Objection w id listing dir s reason := by
  cases hw : w.modified listing with
  | error e =>
    refine Or.inr ⟨_, .noListing hs fun t ht => ?_⟩
    rw [hw] at ht
    contradiction
  | ok written =>
    cases hr : s.reference with
    | none => exact Or.inr ⟨_, .noReference hs hw hr⟩
    | some T =>
      by_cases hearly : written.Before T
      · cases ht : w.readText listing with
        | ok text => exact Or.inl ⟨T, written, text, rfl, rfl, hearly, rfl⟩
        | error e =>
          refine Or.inr ⟨_, .unreadable hs hw hr hearly fun text htext => ?_⟩
          rw [ht] at htext
          contradiction
      · exact Or.inr ⟨_, .lateListing hs hw hr hearly⟩

/-- either all checks are passed, or there is a first that fails -/
theorem reusable_or_objection (w : Workspace) (id : String) (listing dir : Path) (s : Store) :
    (∃ o, Reusable w id listing dir s o) ∨ ∃ reason, Objection w id listing dir s reason := by
  cases hs : s.get? id with
  | none => exact Or.inr ⟨_, .notStored hs⟩
  | some o =>
    by_cases ho : o.result = 0
    · have hvouches : s.Vouches id := ⟨o, hs, ho⟩
      rcases hvouches.text_or_objection with ⟨T, written, text, hr, hw, hearly, ht⟩ | hobjection
      · cases hf : (Listing.parse text).paths.find? fun g => !isUnchanged w (dir.join g) T with
        | some f =>
          obtain ⟨hmem, hchanged, hleast⟩ := Listing.find?_changed_iff.mp hf
          exact Or.inr ⟨_, .changed hvouches hw hr hearly ht hmem hchanged hleast⟩
        | none =>
          refine Or.inl ⟨o, hs, ho, T, written, text, hr, hw, hearly, ht, fun f hmem => ?_⟩
          have hkept := List.find?_eq_none.mp hf f hmem
          rw [Bool.not_eq_true', Bool.not_eq_false] at hkept
          exact isUnchanged_iff_untouched.mp hkept
      · exact Or.inr hobjection
    · exact Or.inr ⟨_, .failed hs ho⟩

/-- what is decided is to reuse an outcome that stands up to all checks, or else what the first check
that fails says -/
theorem decideUnit_exact (w : Workspace) (id : String) (listing dir : Path) (s : Store) :
    (∀ o, decideUnit w id listing dir s = .cached o ↔ Reusable w id listing dir s o) ∧
      ∀ reason, decideUnit w id listing dir s = .stale reason ↔ Objection w id listing dir s reason := by
  rcases reusable_or_objection w id listing dir s with ⟨o, h⟩ | ⟨reason, h⟩
  · refine ⟨fun o' => ⟨fun he => ?_, Reusable.decision⟩, fun reason => ⟨fun he => ?_, Objection.decision⟩⟩
    · obtain rfl := Decision.cached.inj (h.decision.symm.trans he)
      exact h
    · exact absurd (h.decision.symm.trans he) (by simp)
  · refine ⟨fun o => ⟨fun he => ?_, Reusable.decision⟩, fun reason' => ⟨fun he => ?_, Objection.decision⟩⟩
    · exact absurd (h.decision.symm.trans he) (by simp)
    · obtain rfl := Decision.stale.inj (h.decision.symm.trans he)
      exact h

end

end IncrementalLint
