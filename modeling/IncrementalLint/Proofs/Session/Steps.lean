import IncrementalLint.Proofs.Run

/-!
# Runs step by step

Runs that share a cache file and a directory of listings, one after another, with edits that come
at any time. A run loads the store, checks its units one by one, has the stale ones analyzed by
jobs that run side by side, and saves. A log, newest entry first, keeps what happened; no step
looks at it.

* `Session`               the files, the run in progress, and the log;
* `Step`, `Reachable`     what can happen next, and what can happen at all;
* `steps_of_plan`         without edits, a session checks units as a plan does;
* `step_of_save`          and saves what a run saves.
-/

namespace IncrementalLint

open Workspace Classification

/-! ## the log -/

/-- who writes a file -/
inductive Writer where
  /-- anyone, while a run is in progress or not -/
  | edit (during : Bool)
  /-- the job of a unit, making the listing -/
  | job (id : String)
  | save
  deriving DecidableEq

inductive Entry where
  | wrote (l : Location) (who : Writer) (time : Time)
  | loaded
  | checked (u : SourceUnit) (d : Decision)
  | started (id : String)
  | finished (id : String) (o : Outcome)
  | saved
  deriving DecidableEq

/-- the entry for a file just written, if it is storage -/
def Entry.ofWrite (w : Workspace) (path : Path) (who : Writer) : List Entry :=
  match w.find path with
  | .ok (l, .file _ t _) => [.wrote l who t]
  | _ => []

/-! ## a run in progress -/

structure Progress where
  units : List SourceUnit
  store : Store
  unchecked : List SourceUnit
  cached : Outcomes
  stale : List SourceUnit
  started : List String
  fresh : Outcomes

namespace Progress

def ofStore (s : Store) (us : List SourceUnit) : Progress := ⟨us, s, us, .empty, [], [], .empty⟩

def check (p : Progress) (u : SourceUnit) (rest : List SourceUnit) : Decision → Progress
  | .cached o => { p with unchecked := rest, cached := p.cached.insert u.id o }
  | .stale _ => { p with unchecked := rest, stale := p.stale ++ [u] }

/-- the report, and the store to save -/
def final (p : Progress) : Report × Store := aggregate (p.units.map (·.id)) p.fresh p.cached p.store

end Progress

/-! ## steps -/

structure Session where
  files : Workspace
  current : Option Progress
  log : List Entry

/-- where the listing of a unit is kept -/
def listingOf (dir : Path) (id : String) : Path := dir.join ⟨id ++ ".d"⟩

/-- what can happen next -/
inductive Step (cache dir : Path) : Session → Session → Prop
  /-- someone writes a file -/
  | write {σ : Session} {path : Path} {content : ByteArray} {w : Workspace}
      (h : σ.files.write path content = (w, .ok ())) (hc : Apart σ.files path cache) :
      Step cache dir σ
        { σ with files := w, log := Entry.ofWrite w path (.edit σ.current.isSome) ++ σ.log }
  /-- someone makes a directory -/
  | makeDirectory {σ : Session} {path : Path} {w : Workspace}
      (h : σ.files.createDirectory path = (w, .ok ())) : Step cache dir σ { σ with files := w }
  /-- someone takes a file or an empty directory away -/
  | remove {σ : Session} {path : Path} {l : Location} {n : Node}
      (h : σ.files.locate path false = .ok (.found l n)) (hl : l ≠ []) (hn : n.isLink = false)
      (hd : n.isDirectory = true → (σ.files.below l).isEmpty = true) :
      Step cache dir σ { σ with files := σ.files.remove l }
  /-- a run begins, under its rules and for its units -/
  | load {σ : Session} {rules tool : String} {us : List SourceUnit} (hp : σ.current = none)
      (hd : (us.map (·.id)).Nodup) :
      Step cache dir σ { σ with
        current := some (.ofStore ((Store.loadOrEmpty σ.files cache).validateTags rules tool).1 us)
        log := .loaded :: σ.log }
  | check {σ : Session} {p : Progress} {u : SourceUnit} {rest : List SourceUnit}
      (hp : σ.current = some p) (hu : p.unchecked = u :: rest) :
      Step cache dir σ { σ with
        current := some (p.check u rest (decisionFor σ.files dir p.store u))
        log := .checked u (decisionFor σ.files dir p.store u) :: σ.log }
  /-- the job of a stale unit starts -/
  | start {σ : Session} {p : Progress} {u : SourceUnit} (hp : σ.current = some p)
      (hall : p.unchecked = []) (hu : u ∈ p.stale) (hs : u.id ∉ p.started) :
      Step cache dir σ { σ with
        current := some { p with started := u.id :: p.started }
        log := .started u.id :: σ.log }
  /-- its first part succeeds: it makes the listing anew -/
  | list {σ : Session} {p : Progress} {u : SourceUnit} {text : String} {w : Workspace}
      (hp : σ.current = some p) (hu : u ∈ p.stale) (hs : u.id ∈ p.started)
      (hf : p.fresh.get? u.id = none)
      (h : σ.files.saveText (listingOf dir u.id) text = (w, .ok ()))
      (hc : Apart σ.files (listingOf dir u.id) cache) :
      Step cache dir σ
        { σ with files := w, log := Entry.ofWrite w (listingOf dir u.id) (.job u.id) ++ σ.log }
  /-- its second part ends, whether there was a first part or not -/
  | finish {σ : Session} {p : Progress} {id : String} {o : Outcome} (hp : σ.current = some p)
      (hs : id ∈ p.started) (hf : p.fresh.get? id = none) :
      Step cache dir σ { σ with
        current := some { p with fresh := p.fresh.insert id o }
        log := .finished id o :: σ.log }
  /-- the run saves and is over; jobs without a result are given up -/
  | save {σ : Session} {p : Progress} {w : Workspace} (hp : σ.current = some p)
      (hall : p.unchecked = []) (h : p.final.2.save σ.files cache = (w, .ok ())) :
      Step cache dir σ ⟨w, none, .saved :: (Entry.ofWrite w cache .save ++ σ.log)⟩
  /-- the run cannot save -/
  | saveFails {σ : Session} {p : Progress} {w : Workspace} {e : CacheError} (hp : σ.current = some p)
      (h : p.final.2.save σ.files cache = (w, .error e)) : Step cache dir σ ⟨w, none, σ.log⟩
  /-- the run is broken off -/
  | stop {σ : Session} : Step cache dir σ { σ with current := none }

/-- what can happen, step after step -/
inductive Steps (cache dir : Path) : Session → Session → Prop
  | refl (σ : Session) : Steps cache dir σ σ
  | tail {σ τ υ : Session} (h : Steps cache dir σ τ) (hs : Step cache dir τ υ) : Steps cache dir σ υ

/-- before the first run, there is no cache file -/
def Fresh (cache : Path) (σ : Session) : Prop :=
  σ.current = none ∧ σ.log = [] ∧ ∀ l, LeadsTo σ.files cache l → σ.files.node? l = none

/-- what can happen at all -/
def Reachable (cache dir : Path) (σ : Session) : Prop := ∃ σ₀, Fresh cache σ₀ ∧ Steps cache dir σ₀ σ

/-! ## a run without edits -/

def Progress.ofPlan (p : Plan) (s : Store) (started : List String) (fresh : Outcomes) : Progress :=
  ⟨p.units, s, [], p.cached, p.staleUnits, started, fresh⟩

section
variable {cache dir : Path} {σ : Session} {w : Workspace} {r : Runner} {h : Host} {p : Plan} {s : Store}

/-- one check after the other, until none is left -/
theorem steps_of_checks (todo : List SourceUnit) (q : Progress) (log : List Entry)
    (hq : q.unchecked = todo) (hσ : Steps cache dir σ ⟨w, some q, log⟩) :
    ∃ log', Steps cache dir σ ⟨w, some { q with
      unchecked := []
      cached := (todo.filterMap (reusable? w dir q.store)).foldl (fun m e => m.insert e.1 e.2) q.cached
      stale := q.stale ++ todo.filter fun u => (stale? w dir q.store u).isSome }, log'⟩ := by
  induction todo generalizing q log with
  | nil =>
    refine ⟨log, ?_⟩
    rw [List.filterMap_nil, List.filter_nil, List.append_nil, List.foldl_nil, ← hq]
    exact hσ
  | cons u todo ih =>
    have hstep := hσ.tail (.check rfl hq)
    have hrest := ih (q.check u todo (decisionFor w dir q.store u)) _
      (by cases decisionFor w dir q.store u <;> rfl) hstep
    cases hd : decisionFor w dir q.store u with
    | cached o =>
      rw [hd] at hrest
      have hreuse : reusable? w dir q.store u = some (u.id, o) := reusable?_eq_some_iff.mpr ⟨rfl, hd⟩
      rw [List.filterMap_cons_some hreuse, List.filter_cons_of_neg (by simp [stale?, hd])]
      exact hrest
    | stale reason =>
      rw [hd] at hrest
      rw [List.filterMap_cons_none (by simp [reusable?, hd]), List.filter_cons_of_pos (by simp [stale?, hd]),
        List.append_cons]
      exact hrest

/-- without edits, a session comes to what a plan says -/
theorem steps_of_plan {version : String} (hp : r.planFor version w = .ok (p, s)) (log : List Entry) :
    ∃ log', Steps r.cachePath r.listingDir ⟨w, none, log⟩ ⟨w, some (.ofPlan p s [] .empty), log'⟩ := by
  obtain ⟨hplan, htool⟩ := Runner.planFor_ok hp
  have hload : Step r.cachePath r.listingDir ⟨w, none, log⟩ ⟨w, some (.ofStore ((Store.loadOrEmpty w
      r.cachePath).validateTags p.ruleSetId p.toolVersionId).1 p.units), .loaded :: log⟩ :=
    .load rfl hplan.nodup
  rw [← hplan.store] at hload
  obtain ⟨log', hsteps⟩ := steps_of_checks p.units (.ofStore s p.units) _ rfl ((Steps.refl _).tail hload)
  refine ⟨log', ?_⟩
  have hstale : p.staleUnits = p.units.filter fun u => (stale? w r.listingDir s u).isSome := by
    refine List.filter_congr fun u hu => ?_
    rw [Bool.eq_iff_iff, hplan.isStale_iff hu, stale?]
    cases decisionFor w r.listingDir s u <;> simp
  rw [Progress.ofPlan, hstale, hplan.cached]
  exact hsteps

/-- and saves what the run saves -/
theorem step_of_save {S : Runner.Summary} {started : List String} {log : List Entry}
    (hr : (r.carryOut h p s w).summary = .ok S) :
    ∃ log', Step r.cachePath r.listingDir
      ⟨(r.analyze h p w).workspace, some (.ofPlan p s started (r.analyze h p w).outcomes), log⟩
      ⟨(r.carryOut h p s w).workspace, none, log'⟩ ∧
      (Progress.ofPlan p s started (r.analyze h p w).outcomes).final.1 = S.report := by
  cases hs : (r.stored h p s w).save (r.analyze h p w).workspace r.cachePath with
  | mk w' result =>
    rw [Runner.carryOut_eq, hs] at hr ⊢
    cases result with
    | error e => contradiction
    | ok _ =>
      obtain rfl := Except.ok.inj hr
      exact ⟨_, .save rfl rfl hs, rfl⟩

end

end IncrementalLint
