import IncrementalLint.Cache.Decision
import IncrementalLint.Units

/-!
# What a run would do

Every unit is either reused with its outcome from the store, or stale for a reason.

* `Classification.ofUnits`  splits the units of a run, judged by one store;
* `Plan`                    the split with the two tags that the store was checked against;
* `Plan.staleUnits`         the units to analyze, in the order in which they were enumerated.
-/

namespace IncrementalLint

/-- a unit that must be analyzed again, and why -/
structure StaleUnit where
  id : String
  reason : StaleReason
  deriving DecidableEq, Inhabited

/-- units with an outcome to reuse, and units to analyze -/
structure Classification where
  cached : Outcomes
  /-- in the order of the units -/
  stale : List StaleUnit
  deriving DecidableEq, Inhabited

namespace Classification

/-- whether a unit can be reused; its listing is below `listingDir` -/
def decisionFor (w : Workspace) (listingDir : Path) (s : Store) (u : SourceUnit) : Decision :=
  decideUnit w u.id (u.listing listingDir) u.directory s

def reusable? (w : Workspace) (listingDir : Path) (s : Store) (u : SourceUnit) :
    Option (String × Outcome) :=
  match decisionFor w listingDir s u with
  | .cached o => some (u.id, o)
  | .stale _ => none

def stale? (w : Workspace) (listingDir : Path) (s : Store) (u : SourceUnit) : Option StaleUnit :=
  match decisionFor w listingDir s u with
  | .cached _ => none
  | .stale reason => some ⟨u.id, reason⟩

def ofUnits (w : Workspace) (listingDir : Path) (s : Store) (us : List SourceUnit) :
    Classification where
  cached := SortedMap.ofList (us.filterMap (reusable? w listingDir s))
  stale := us.filterMap (stale? w listingDir s)

end Classification

structure Plan where
  /-- all units, in the order of the database -/
  units : List SourceUnit
  cached : Outcomes
  stale : List StaleUnit
  /-- whether all entries of the store were dropped because a tag differs -/
  invalidated : Bool
  ruleSetId : String
  toolVersionId : String
  deriving DecidableEq, Inhabited

namespace Plan

def ids (p : Plan) : List String := p.units.map (·.id)

def isStale (p : Plan) (id : String) : Bool := p.stale.any fun s => s.id == id

def staleUnits (p : Plan) : List SourceUnit := p.units.filter fun u => p.isStale u.id

end Plan

end IncrementalLint
