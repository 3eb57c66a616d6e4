import IncrementalLint.Cache.Store
import IncrementalLint.Listing

/-!
# What can be reused

A unit's outcome is reused only if it was a success, its dependency listing is older than the
store, and no file in the listing is missing or younger than the store.

* `decideUnit`             the outcome to reuse, or the first reason against it;
* `isUnchanged`            whether a file is as the store saw it;
* `decideUnit_cached_iff`  the outcomes that are reused.
-/

namespace IncrementalLint

inductive StaleReason where
  | notCached
  | previouslyFailed
  | missingListing
  | listingChanged
  | dependencyChanged (path : Path)
  deriving DecidableEq, Inhabited

def StaleReason.message : StaleReason → String
  | .notCached => "not in the cache"
  | .previouslyFailed => "did not complete successfully last time"
  | .missingListing => "has no dependency file"
  | .listingChanged => "has changed since the last run"
  | .dependencyChanged path => "uses " ++ path.text ++ " which has changed since the last run"

inductive Decision where
  | cached (o : Outcome)
  | stale (reason : StaleReason)
  deriving DecidableEq, Inhabited

def Decision.isStale : Decision → Bool
  | .stale _ => true
  | .cached _ => false

/-- whether a file exists and was written no later than a time -/
def isUnchanged (w : Workspace) (path : Path) (reference : Time) : Bool :=
  match w.modified path with
  | .ok t => t ≤ reference
  | .error _ => false

/-- the listing to judge by: written before the reference, and readable -/
def currentListing (w : Workspace) (listing : Path) (reference : Option Time) :
    Except StaleReason (Time × PathSet) :=
  match w.modified listing with
  | .error _ => .error .missingListing
  | .ok written =>
    match reference with
    | none => .error .listingChanged
    | some time =>
      if time ≤ written then .error .listingChanged
      else
        match Listing.read w listing with
        | .ok (some files) => .ok (time, files)
        | _ => .error .missingListing

/-- whether the outcome of a unit can be reused; `listing` is where its dependencies are listed,
as seen from `dir` -/
def decideUnit (w : Workspace) (id : String) (listing dir : Path) (s : Store) : Decision :=
  match s.get? id with
  | none => .stale .notCached
  | some o =>
    if !o.passed then .stale .previouslyFailed
    else
      match currentListing w listing s.reference with
      | .error reason => .stale reason
      | .ok (time, files) =>
        match files.paths.find? fun f => !isUnchanged w (dir.join f) time with
        | some f => .stale (.dependencyChanged f)
        | none => .cached o

/-- the outcomes that are reused -/
theorem decideUnit_cached_iff {w : Workspace} {id : String} {listing dir : Path} {s : Store}
    {o : Outcome} :
    decideUnit w id listing dir s = .cached o ↔
      s.get? id = some o ∧ o.passed = true ∧
        ∃ time files, currentListing w listing s.reference = .ok (time, files) ∧
          ∀ f ∈ PathSet.paths files, isUnchanged w (dir.join f) time = true := by
  unfold decideUnit
  constructor
  · intro h
    split at h
    · contradiction
    next p hp =>
      split at h
      · contradiction
      next hpass =>
        split at h
        · contradiction
        next time files hl =>
          split at h
          · contradiction
          next hf =>
            simp only [Decision.cached.injEq] at h
            subst h
            refine ⟨hp, by simpa using hpass, time, files, hl, ?_⟩
            simpa using hf
  · rintro ⟨hp, hpass, time, files, hl, hf⟩
    have : (PathSet.paths files).find? (fun f => !isUnchanged w (dir.join f) time) = none := by
      simpa using hf
    simp [hp, hpass, hl, this]

end IncrementalLint
