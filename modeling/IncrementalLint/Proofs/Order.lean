import IncrementalLint.Proofs.Damage

/-!
# The order of a database

Where no two entries of a database give the same unit, each gives its unit whatever stands before it,
and what comes of a unit depends on no other. Two orders of such a database come to the same.

* `CompileEntry.select_eq`            the units as those of the entries;
* `decideUnit_congr`                  what a decision goes by;
* `Runner.Reordered`                  two places with one database in two orders;
* `Reordered.planFor`                 the plans that are made there;
* `Runner.order_of_database`          what they come to;
* `one_order_by_version`              but not if the analyzer's version goes by the order.
-/

namespace IncrementalLint

open Workspace

/-! ## units of entries -/

namespace CompileEntry

/-- the ids that entries give -/
def ids (root : Path) (es : List CompileEntry) : List String := es.filterMap fun e => e.id? root

section
variable {root : Path} {filter : UnitFilter} {es es' : List CompileEntry}

/-- where no id comes twice, every entry below the root comes first with its id -/
theorem leading_eq (hd : (ids root es).Nodup) : leading root es = es.filter fun e => (e.id? root).isSome := by
  induction es with
  | nil => rfl
  | cons e es ih =>
    cases hid : e.id? root with
    | none =>
      have hids : ids root (e :: es) = ids root es := List.filterMap_cons_none hid
      rw [hids] at hd
      rw [leading_cons_none hid, List.filter_cons_of_neg (by simp [hid]), ih hd]
    | some id =>
      have hids : ids root (e :: es) = id :: ids root es := List.filterMap_cons_some hid
      rw [hids] at hd
      obtain ⟨hnot, hd'⟩ := List.nodup_cons.mp hd
      rw [leading_cons_some hid, List.filter_cons_of_pos (by simp [hid]), ih hd']
      refine congrArg (e :: ·) (List.filter_eq_self.mpr fun x hx => ?_)
      rw [Bool.not_eq_true', ← Bool.not_eq_true, gives_iff]
      exact fun hx' => hnot (List.mem_filterMap.mpr ⟨x, (List.mem_filter.mp hx).1, hx'⟩)

/-- where no id comes twice, every entry gives its own unit -/
theorem select_eq (hd : (ids root es).Nodup) : select root filter es = es.filterMap (unit? root filter) := by
  rw [select_eq_leading, leading_eq hd, List.filterMap_filter]
  refine List.filterMap_congr fun e _ => ?_
  split
  · rfl
  next h =>
    rw [Option.isSome_iff_ne_none, not_not] at h
    rw [unit?, h, Option.bind_none]

theorem select_perm (h : es'.Perm es) (hd : (ids root es).Nodup) :
    (select root filter es').Perm (select root filter es) := by
  have hd' : (ids root es').Nodup := (h.filterMap _).nodup_iff.mpr hd
  rw [select_eq hd, select_eq hd']
  exact h.filterMap _

end

end CompileEntry

/-! ## a database is no store -/

theorem mapM_mem {α β : Type} {f : α → Option β} {xs : List α} {ys : List β} (h : xs.mapM f = some ys)
    {x : α} (hx : x ∈ xs) : ∃ y, f x = some y := by
  induction xs generalizing ys with
  | nil => contradiction
  | cons a xs ih =>
    rw [List.mapM_cons] at h
    obtain ⟨b, hb, h⟩ := Option.bind_eq_some_iff.mp h
    obtain ⟨bs, hbs, _⟩ := Option.bind_eq_some_iff.mp h
    rcases List.mem_cons.mp hx with rfl | hx
    · exact ⟨b, hb⟩
    · exact ih hbs hx

/-- an entry has a directory, which is a text and no outcome -/
theorem CompileEntry.asMap?_none {v : Json} {e : CompileEntry} (h : ofJson? v = some e) :
    Json.asMap? Outcome.ofJson? v = none := by
  cases v with
  | object members =>
    obtain ⟨fs, hfs, h⟩ := Option.bind_eq_some_iff.mp h
    obtain ⟨dir, hdir, _⟩ := Option.bind_eq_some_iff.mp h
    obtain ⟨d, hd, hstring⟩ := Option.bind_eq_some_iff.mp hdir
    rw [Json.asMap?, Option.map_eq_none_iff, Option.eq_none_iff_forall_ne_some]
    intro ms hms
    obtain ⟨m, hm, rfl⟩ := Option.map_eq_some_iff.mp hd
    have hmem : m ∈ members := by
      rw [Json.Fields.ofJson?] at hfs
      split at hfs
      · obtain rfl := Option.some.inj hfs
        exact List.mem_of_find?_eq_some hm
      · contradiction
    obtain ⟨y, hy⟩ := mapM_mem hms hmem
    obtain ⟨o, ho, _⟩ := Option.map_eq_some_iff.mp hy
    cases hm2 : m.2 with
    | string s =>
      rw [hm2] at ho
      contradiction
    | _ =>
      rw [hm2] at hstring
      contradiction
  | _ => rfl

/-- what lists entries holds no store -/
theorem Store.ofText?_of_entries {text : String} {e : CompileEntry} {es : List CompileEntry}
    (h : (Json.read? text).bind (Json.asList? CompileEntry.ofJson?) = some (e :: es)) (T : Time) :
    ofText? T text = none := by
  obtain ⟨v, hv, hes⟩ := Option.bind_eq_some_iff.mp h
  rw [ofText?, hv, Option.bind_some]
  cases v with
  | array items =>
    cases items with
    | nil =>
      have hnil : (some [] : Option (List CompileEntry)) = some (e :: es) := hes
      cases Option.some.inj hnil
    | cons x xs =>
      rw [Json.asList?, List.mapM_cons] at hes
      obtain ⟨e', he', _⟩ := Option.bind_eq_some_iff.mp hes
      rw [ofJson?, Json.Fields.ofJson?]
      split
      · have hentries : Json.Fields.withDefault? ⟨["entries", "ruleSetId", "toolVersionId"].zip (x :: xs)⟩
            "entries" .empty (Json.asMap? Outcome.ofJson?) = none := CompileEntry.asMap?_none he'
        rw [Option.bind_eq_bind, Option.bind_some, hentries]
        rfl
      · rfl
  | _ => contradiction

/-! ## one database in two orders -/

/-- a path leads to a file of a time that lists entries -/
def Workspace.Lists (w : Workspace) (path : Path) (l : Location) (T : Time) (es : List CompileEntry) : Prop :=
  ∃ content x text, w.find path = .ok (l, .file content T x) ∧ Utf8.decode? content = some text ∧
    (Json.read? text).bind (Json.asList? CompileEntry.ofJson?) = some es

/-- where each unit is judged alike, the order of the units shows in the order of the stale ones only -/
theorem Classification.ofUnits_perm {w v : Workspace} {dir : Path} {s : Store} {us us' : List SourceUnit}
    (h : us'.Perm us) (hd : (us.map (·.id)).Nodup)
    (hdecision : ∀ u ∈ us, decisionFor v dir s u = decisionFor w dir s u) :
    (ofUnits v dir s us').cached = (ofUnits w dir s us).cached ∧
      (ofUnits v dir s us').stale.Perm (ofUnits w dir s us).stale := by
  have hdecision' : ∀ u ∈ us', decisionFor v dir s u = decisionFor w dir s u := fun u hu =>
    hdecision u (h.mem_iff.mp hu)
  have hreusable : us'.filterMap (reusable? v dir s) = us'.filterMap (reusable? w dir s) :=
    List.filterMap_congr fun u hu => by rw [reusable?, reusable?, hdecision' u hu]
  have hstale : us'.filterMap (stale? v dir s) = us'.filterMap (stale? w dir s) :=
    List.filterMap_congr fun u hu => by rw [stale?, stale?, hdecision' u hu]
  constructor
  · show SortedMap.ofList (us'.filterMap (reusable? v dir s)) = _
    rw [hreusable]
    exact SortedMap.ofList_perm (h.filterMap _) (reusable_keys hd)
  · show (us'.filterMap (stale? v dir s)).Perm _
    rw [hstale]
    exact h.filterMap _

/-- two plans that differ in the order of the units only -/
structure Plan.Shuffled (p p' : Plan) : Prop where
  units : p'.units.Perm p.units
  cached : p'.cached = p.cached
  stale : p'.stale.Perm p.stale
  invalidated : p'.invalidated = p.invalidated
  ruleSetId : p'.ruleSetId = p.ruleSetId
  toolVersionId : p'.toolVersionId = p.toolVersionId

namespace Runner

def databasePath (r : Runner) : Path := r.resolve r.settings.compileDb.path

def sourceRoot (r : Runner) : Path := r.resolve r.settings.project.sourceRoot

/-- the units among entries -/
def unitsOf (r : Runner) (es : List CompileEntry) : List SourceUnit :=
  CompileEntry.select r.sourceRoot r.settings.units es

/-- two places that differ in the order of the database only; no unit has the database for a listing -/
structure Reordered (r : Runner) (l : Location) (es es' : List CompileEntry) (w v : Workspace) : Prop where
  same : SameBut l w v
  database : ∃ T, w.Lists r.databasePath l T es ∧ v.Lists r.databasePath l T es'
  perm : es'.Perm es
  nodup : (CompileEntry.ids r.sourceRoot es).Nodup
  listing : ∀ u ∈ r.unitsOf es, ∀ n, w.find (u.listing r.listingDir) ≠ .ok (l, n)

section
variable {r : Runner} {l : Location} {es es' : List CompileEntry} {w v : Workspace} {T : Time}
  {path : Path}

theorem enumerate_of_lists (h : w.Lists r.databasePath l T es) :
    r.enumerate w = match r.unitsOf es with
      | [] => .error (.compileDb (.noUnits r.databasePath))
      | us => .ok us := by
  obtain ⟨content, x, text, hf, htext, hes⟩ := h
  have hread : w.readText (r.resolve r.settings.compileDb.path) = .ok text :=
    readText_eq_ok_iff.mpr ⟨l, _, hf, htext⟩
  unfold enumerate SourceUnit.enumerate unitsOf sourceRoot
  dsimp only
  rw [hread]
  dsimp only
  rw [hes]
  dsimp only
  cases CompileEntry.select (r.resolve r.settings.project.sourceRoot) r.settings.units es with
  | nil => rfl
  | cons u us => rfl

theorem loadOrEmpty_of_lists {e : CompileEntry} {n : Node}
    (h : w.Lists r.databasePath l T (e :: es)) (hf : w.find path = .ok (l, n)) :
    Store.loadOrEmpty w path = {} := by
  obtain ⟨content, x, text, hdb, htext, hes⟩ := h
  obtain rfl := Option.some.inj ((node_of_find hf).symm.trans (node_of_find hdb))
  rw [Store.loadOrEmpty_of_find hf, Store.ofNode, show (Node.file content T x).text? = some text from htext,
    Option.bind_some, Store.ofText?_of_entries hes]
  rfl

namespace Reordered

variable (hd : r.Reordered l es es' w v)
include hd

theorem find_here {n : Node} (hf : w.find path = .ok (l, n)) :
    ∃ T content content' x x', w.find path = .ok (l, .file content T x) ∧
      v.find path = .ok (l, .file content' T x') := by
  obtain ⟨T, ⟨content, x, _, hw, _⟩, content', x', _, hv, _⟩ := hd.database
  obtain rfl := Option.some.inj ((node_of_find hf).symm.trans (node_of_find hw))
  exact ⟨T, content, content', x, x', hf, hd.same.find_here hf (node_of_find hv)⟩

theorem find_elsewhere (hw : ∀ n, w.find path ≠ .ok (l, n)) :
    (v.find path).toOption = (w.find path).toOption := by
  refine hd.same.find_toOption hw fun n hf => ?_
  obtain ⟨T, ⟨content, x, _, hdb, _⟩, _⟩ := hd.database
  exact hw _ (hd.same.symm.find_here hf (node_of_find hdb))

/-- files have the same times -/
theorem modified (path : Path) : (v.modified path).toOption = (w.modified path).toOption := by
  rw [modified_toOption, modified_toOption]
  by_cases hhere : ∃ n, w.find path = .ok (l, n)
  · obtain ⟨n, hf⟩ := hhere
    obtain ⟨T, content, content', x, x', hw, hv⟩ := hd.find_here hf
    rw [hw, hv]
    rfl
  · rw [hd.find_elsewhere (not_exists.mp hhere)]

/-- a unit is judged alike -/
theorem decisionFor {u : SourceUnit} (hu : u ∈ r.unitsOf es) (s : Store) :
    Classification.decisionFor v r.listingDir s u = Classification.decisionFor w r.listingDir s u := by
  refine decideUnit_congr hd.modified ?_ u.id u.directory s
  rw [readText_toOption, readText_toOption, hd.find_elsewhere (hd.listing u hu)]

/-- the store is the same, even if its path leads to the database -/
theorem loadOrEmpty (hne : es ≠ []) : Store.loadOrEmpty v path = Store.loadOrEmpty w path := by
  by_cases hhere : ∃ n, w.find path = .ok (l, n)
  · obtain ⟨n, hf⟩ := hhere
    obtain ⟨_, _, _, _, _, _, hv⟩ := hd.find_here hf
    obtain ⟨T, hlists, hlists'⟩ := hd.database
    have hne' : es' ≠ [] := fun he => hne ((he ▸ hd.perm).nil_eq).symm
    obtain ⟨e, rest, rfl⟩ := List.exists_cons_of_ne_nil hne
    obtain ⟨e', rest', rfl⟩ := List.exists_cons_of_ne_nil hne'
    rw [loadOrEmpty_of_lists hlists hf, loadOrEmpty_of_lists hlists' hv]
  · have helse := hd.find_elsewhere (not_exists.mp hhere)
    rw [Store.loadOrEmpty_eq, Store.loadOrEmpty_eq]
    rcases cases_of_toOption helse with ⟨e, e', hw, hv⟩ | ⟨x, hw, hv⟩
    · rw [hw, hv]
    · rw [hw, hv]

theorem unitsOf : (r.unitsOf es').Perm (r.unitsOf es) := CompileEntry.select_perm hd.perm hd.nodup

/-- the plans that are made differ in the order of the units only -/
theorem planFor (version : String) : (∃ e, r.planFor version w = .error e ∧ r.planFor version v = .error e) ∨
    ∃ p p' s, r.planFor version w = .ok (p, s) ∧ r.planFor version v = .ok (p', s) ∧ p.Shuffled p' := by
  obtain ⟨T, hlists, hlists'⟩ := hd.database
  have hw := enumerate_of_lists hlists
  have hv := enumerate_of_lists hlists'
  have hperm := hd.unitsOf
  cases hus : r.unitsOf es with
  | nil =>
    rw [hus] at hw hperm
    rw [hperm.eq_nil] at hv
    refine Or.inl ⟨.compileDb (.noUnits r.databasePath), ?_, ?_⟩
    · unfold Runner.planFor
      rw [hw]
    · unfold Runner.planFor
      rw [hv]
  | cons u us =>
    have hne : es ≠ [] := by
      rintro rfl
      contradiction
    have hload : Store.loadOrEmpty v r.cachePath = Store.loadOrEmpty w r.cachePath := hd.loadOrEmpty hne
    have hdecision := fun x hx s => hd.decisionFor (u := x) hx s
    rw [hus] at hw hperm hdecision
    cases hus' : r.unitsOf es' with
    | nil =>
      rw [hus'] at hperm
      exact absurd hperm.symm.eq_nil (by simp)
    | cons u' us' =>
      rw [hus'] at hv hperm
      have hnodup := enumerate_nodup hw
      unfold Runner.planFor classify
      rw [hw, hv]
      dsimp only
      rw [hload]
      obtain ⟨hcached, hstale⟩ := Classification.ofUnits_perm hperm hnodup fun x hx => hdecision x hx _
      exact Or.inr ⟨_, _, _, rfl, rfl, hperm, hcached, hstale, rfl, rfl, rfl⟩

end Reordered

/-! ## what two orders come to -/

/-- two plans that differ in the order of the units only, or one error -/
def PlansShuffled (plan plan' : Except RunError Plan) : Prop :=
  (∃ e, plan = .error e ∧ plan' = .error e) ∨ ∃ p p', plan = .ok p ∧ plan' = .ok p' ∧ p.Shuffled p'

/-- two runs that do the same and say the same of it, each listing the failed units in its own order;
`w` and `v` are where they plan -/
structure RunsShuffled (r : Runner) (w v : Workspace) (result result' : Result) : Prop
    extends r.Alike result result' where
  counts : ∀ S S', result.summary = .ok S → result'.summary = .ok S' →
    S'.cached = S.cached ∧ S'.dispatched = S.dispatched ∧ S'.invalidated = S.invalidated
  reports : ∀ S S', result.summary = .ok S → result'.summary = .ok S' →
    S'.report.total = S.report.total ∧ S'.report.failed = S.report.failed ∧
      S'.report.details = S.report.details
  failed : ∀ S S', result.summary = .ok S → result'.summary = .ok S' →
    ∃ us us' failing, r.enumerate w = .ok us ∧ r.enumerate v = .ok us' ∧
      S.report.failedUnits = (us.map (·.id)).filter failing ∧
      S'.report.failedUnits = (us'.map (·.id)).filter failing ∧
      S'.report.failedUnits.Perm S.report.failedUnits

variable {h : Host} {w₁ v₁ : Workspace} {a : Except RunError String}

theorem front_of_ungenerated (hgen : r.settings.compileDb.generate = none) :
    r.front h w = r.toolVersion h w := by
  rw [front, generate, hgen]

namespace Reordered

variable (hd : r.Reordered l es es' w₁ v₁) (hw : r.toolVersion h w = (w₁, a))
  (hv : r.toolVersion h v = (v₁, a))
include hd hw hv

theorem plans : PlansShuffled (r.plan h w).2 (r.plan h v).2 := by
  unfold Runner.plan
  rw [hw, hv]
  cases a with
  | error e => exact Or.inl ⟨e, rfl, rfl⟩
  | ok version =>
    dsimp only
    rcases hd.planFor version with ⟨e, hplan, hplan'⟩ | ⟨p, p', s, hplan, hplan', hshuffled⟩
    · rw [hplan, hplan']
      exact Or.inl ⟨e, rfl, rfl⟩
    · rw [hplan, hplan']
      exact Or.inr ⟨p, p', rfl, rfl, hshuffled⟩

variable (hgen : r.settings.compileDb.generate = none)
  (hjobs : ∀ {p s b}, r.prepare h w = (w₁, .ok (p, s)) → (r.dispatch h p).batch? p.staleUnits = some b →
    (h.executor b v₁).2 = (h.executor b w₁).2)
include hgen hjobs

/-- in front of the analysis, both fail, or their plans differ in the order of the units only -/
theorem prepare : (∃ e, r.prepare h w = (w₁, .error e) ∧ r.prepare h v = (v₁, .error e)) ∨
    ∃ p p' s, r.prepare h w = (w₁, .ok (p, s)) ∧ r.prepare h v = (v₁, .ok (p', s)) ∧ p.Shuffled p' ∧
      r.Twins h w₁ v₁ p p' s s := by
  have hp := r.prepare_front h w
  have hp' := r.prepare_front h v
  rw [front_of_ungenerated hgen, hw] at hp
  rw [front_of_ungenerated hgen, hv] at hp'
  cases a with
  | error e => exact Or.inl ⟨e, hp, hp'⟩
  | ok version =>
    dsimp only at hp hp'
    rcases hd.planFor version with ⟨e, hplan, hplan'⟩ | ⟨p, p', s, hplan, hplan', hshuffled⟩
    · rw [hplan] at hp
      rw [hplan'] at hp'
      exact Or.inl ⟨e, hp, hp'⟩
    · rw [hplan] at hp
      rw [hplan'] at hp'
      refine Or.inr ⟨p, p', s, hp, hp', hshuffled, ?_⟩
      exact ⟨(planFor_ok hplan).1, (planFor_ok hplan').1, hshuffled.units, hshuffled.cached,
        hshuffled.toolVersionId, fun b hb => hjobs hp hb⟩

theorem runs : r.RunsShuffled w₁ v₁ (r.run h w) (r.run h v) := by
  rcases hd.prepare hw hv hgen hjobs with ⟨e, hp, hp'⟩ | ⟨p, p', s, hp, hp', hshuffled, ht⟩
  · have halike := alike_of_errors hp hp'
    rw [run_of_error hp, run_of_error hp'] at halike ⊢
    refine ⟨halike, fun S _ hS => ?_, fun S _ hS => ?_, fun S _ hS => ?_⟩
    · contradiction
    · contradiction
    · contradiction
  · refine ⟨ht.alike hp hp', fun S S' hS hS' => ?_, fun S S' hS hS' => ?_, fun S S' hS hS' => ?_⟩
    · rw [summary_of_prepare hp hS, summary_of_prepare hp' hS']
      exact ⟨congrArg SortedMap.size hshuffled.cached, ht.staleUnits.length_eq, hshuffled.invalidated⟩
    · obtain ⟨htotal, hfailed, hdetails, _⟩ := ht.summaries hp hp' hS hS'
      exact ⟨htotal, hfailed, hdetails⟩
    · obtain ⟨_, _, _, hunits, hunits'⟩ := ht.summaries hp hp' hS hS'
      refine ⟨p.units, p'.units, _, ht.planned.units, ht.planned'.units, hunits, hunits', ?_⟩
      rw [hunits, hunits']
      exact ht.ids.filter _

end Reordered

end

end Runner

/-! ## a database of two entries -/

def oneEntry (file : String) : CompileEntry := ⟨⟨"/"⟩, ⟨file⟩, some "cc", none⟩

def oneEntryJson (file : String) : Json :=
  .object [("directory", .string "/"), ("file", .string file), ("command", .string "cc")]

/-- a project with two files, in the order in which its database lists them, and a store -/
def oneListed (first second : String) (s : Store) : Workspace :=
  (oneWorkspace.put ["c"] (.file (Utf8.encode s.text) 3 false)).put ["db"]
    (.file (Utf8.encode (Json.pretty (.array [oneEntryJson first, oneEntryJson second]))) 0 false)

section
variable (first second : String) (s : Store)

theorem one_listed_nodes : (oneListed first second s).node? ["db"] =
      some (.file (Utf8.encode (Json.pretty (.array [oneEntryJson first, oneEntryJson second]))) 0 false) ∧
    (oneListed first second s).node? ["c"] = some (.file (Utf8.encode s.text) 3 false) ∧
    ∀ m, m ≠ ["db"] → m ≠ ["c"] → (oneListed first second s).node? m = oneWorkspace.node? m := by
  refine ⟨?_, ?_, fun m hdb hc => ?_⟩
  · rw [oneListed, node?_put, if_pos rfl]
  · rw [oneListed, node?_put, if_neg (by decide), node?_put, if_pos rfl]
  · rw [oneListed, node?_put, if_neg hdb, node?_put, if_neg hc]

theorem one_lists : (oneListed first second s).Lists oneRunner.databasePath ["db"] 0
    [oneEntry first, oneEntry second] := by
  obtain ⟨hdb, _⟩ := one_listed_nodes first second s
  refine ⟨_, false, _, find_top (by decide) hdb rfl rfl, Utf8.decode?_encode _, ?_⟩
  rw [Json.read?_pretty rfl, Option.bind_some]
  rfl

theorem one_fileAt : (oneListed first second s).FileAt ["db"] := by
  intro n hn
  exact ⟨_, _, _, Option.some.inj (hn.symm.trans (one_listed_nodes first second s).1)⟩

theorem one_same_but : SameBut ["db"] (oneListed first second s) (oneListed second first s) := by
  have hcwd (a b : String) : (oneListed a b s).cwd = [] := rfl
  have hclock (a b : String) : (oneListed a b s).clock = 5 := rfl
  refine ⟨(hcwd _ _).trans (hcwd _ _).symm, (hclock _ _).trans (hclock _ _).symm, fun m hm => ?_,
    one_fileAt _ _ s, one_fileAt _ _ s⟩
  have hnode (a b : String) : (oneListed a b s).node? m =
      (oneWorkspace.put ["c"] (.file (Utf8.encode s.text) 3 false)).node? m := by
    rw [oneListed, node?_put, if_neg hm]
  exact (hnode _ _).trans (hnode _ _).symm

end

theorem one_unlisted : oneWorkspace.node? ["b.cc.d"] = none := by
  simp [oneWorkspace, node?_put, node?_empty]

/-- the second of two files -/
def oneOtherUnit : SourceUnit := ⟨"b.cc", ⟨"/b.cc"⟩, "cc", ⟨"/"⟩⟩

theorem one_units : oneRunner.unitsOf [oneEntry "a.cc", oneEntry "b.cc"] = [oneUnit, oneOtherUnit] ∧
    oneRunner.unitsOf [oneEntry "b.cc", oneEntry "a.cc"] = [oneOtherUnit, oneUnit] := by decide

theorem one_reordered (s : Store) : oneRunner.Reordered ["db"] [oneEntry "a.cc", oneEntry "b.cc"]
    [oneEntry "b.cc", oneEntry "a.cc"] (oneListed "a.cc" "b.cc" s) (oneListed "b.cc" "a.cc" s) := by
  obtain ⟨_, _, hothers⟩ := one_listed_nodes "a.cc" "b.cc" s
  refine ⟨one_same_but _ _ s, ⟨0, one_lists _ _ s, one_lists _ _ s⟩, .swap _ _ _, by decide, ?_⟩
  intro u hu n hn
  rw [one_units.1, List.mem_cons, List.mem_singleton] at hu
  obtain ⟨_, _, _, _, hlisting⟩ := one_nodes
  rcases hu with rfl | rfl
  · have hlisted : (oneListed "a.cc" "b.cc" s).node? ["a.cc.d"] = _ :=
      (hothers _ (by decide) (by decide)).trans hlisting
    exact absurd (found_unique (find_top (by decide) hlisted rfl rfl) hn).1 (by decide)
  · have hunlisted : (oneListed "a.cc" "b.cc" s).node? ["b.cc.d"] = none :=
      (hothers _ (by decide) (by decide)).trans one_unlisted
    exact absurd ((find_top_none (by decide) hunlisted).symm.trans hn) (by simp)

/-- a plan lists the units in the order of the database -/
theorem one_plan_listed {h : Host} {w : Workspace} {version : String} {es : List CompileEntry}
    {u : SourceUnit} {us : List SourceUnit} (hv : oneRunner.toolVersion h w = (w, .ok version))
    (hlists : w.Lists oneRunner.databasePath ["db"] 0 es) (hunits : oneRunner.unitsOf es = u :: us) :
    ∃ p, oneRunner.plan h w = (w, .ok p) ∧ p.units = u :: us ∧ p.ruleSetId = "" ∧
      p.toolVersionId = version := by
  have henumerate : oneRunner.enumerate w = .ok (u :: us) := by
    rw [Runner.enumerate_of_lists hlists, hunits]
  obtain ⟨p, s, hplan, hus⟩ := Runner.exists_planFor henumerate version
  obtain ⟨hplanned, htool⟩ := Runner.planFor_ok hplan
  refine ⟨p, ?_, hus, hplanned.rules, htool⟩
  unfold Runner.plan
  rw [hv]
  dsimp only
  rw [hplan]
  rfl

/-- a success of the first of two files -/
def oneHalf : Store where
  entries := .ofList [("a.cc", ⟨0, "ok"⟩)]
  toolVersionId := "1"

/-- a host whose commands tell which unit the database lists first -/
def oneReader : Host := { oneHost with
  execute := fun _ _ _ w => (w, ⟨0, match oneRunner.enumerate w with
    | .ok (u :: _) => if u = oneUnit then "1" else "2"
    | _ => ""⟩) }

theorem one_reader_version {w : Workspace} {u : SourceUnit} {us : List SourceUnit}
    (h : oneRunner.enumerate w = .ok (u :: us)) :
    oneRunner.toolVersion oneReader w = (w, .ok (if u = oneUnit then "1" else "2")) := by
  have htrim : Text.trim "1" = "1" ∧ Text.trim "2" = "2" := by decide
  rw [Runner.toolVersion]
  simp only [oneReader, h]
  split
  · simp only [htrim.1]
    rfl
  · simp only [htrim.2]
    rfl

end IncrementalLint
