import IncrementalLint.Proofs.Incremental
import IncrementalLint.Proofs.Verdict

/-!
# Runs that find nothing changed

Where nothing that the passes of a run rest on has changed since it saved them, the next run analyzes
what failed and reuses the rest. If the same jobs have the same answers, it repeats the first run.

* `Executor.Answers`        an executor with one answer for each id, or none;
* `Planned.outcomeOf_eq`    with such an executor, outcomes depend on what is reused only;
* `Runner.Rests`            what makes a pass last: an old listing, and no younger file in it;
* `Rested`, `Undisturbed`   a run whose passes last, and a place where all is as it left it;
* `Again.get?_cached`       a plan made there reuses every pass, and nothing else;
* `Rested.repeats`          a run from there repeats the first one, down to the bytes that it saves.
-/

namespace IncrementalLint

open Workspace

/-! ## files that stay as they are -/

/-- the same content, written at the same time -/
structure Workspace.Unchanged (w v : Workspace) (path : Path) : Prop where
  content : v.read path = w.read path
  modified : v.modified path = w.modified path

section
variable {w v w' : Workspace} {path : Path} {s s' : Store} {text : String}

theorem readText_congr (h : v.read path = w.read path) : v.readText path = w.readText path := by
  rw [readText, h, readText]

theorem Store.loadOrEmpty_congr (h : w.Unchanged v path) :
    Store.loadOrEmpty v path = Store.loadOrEmpty w path := by
  unfold Store.loadOrEmpty Store.load
  rw [readText_congr h.content, h.modified]

theorem Store.text_ne_empty (s : Store) : s.text ≠ "" := by
  intro h
  have hread := Store.ofText?_text s 0
  rw [h, Store.ofText?_empty] at hread
  contradiction

/-- the file that a save leaves holds the text of the store -/
theorem Store.content_of_save {l : Location} {content : ByteArray} {T : Time} {x : Bool}
    (h : s.save w path = (w', .ok ())) (hf : w'.find path = .ok (l, .file content T x)) :
    content = Utf8.encode s.text := by
  rcases Store.save_ok_cases h with ⟨k, t, hs⟩ | ⟨_, k, n, hn, _, hno⟩
  · obtain ⟨y, hfile⟩ := hs.find
    obtain ⟨_, hnode⟩ := found_unique hfile hf
    exact (Node.file.inj hnode).1
  · obtain ⟨_, hnode⟩ := found_unique hf hn
    exact absurd hnode (hno _ _ _)

/-- where a text can be read, a store can be saved over it -/
theorem Store.save_over (s : Store) (ht : w.Tree) (hr : w.readText path = .ok text) (hne : text ≠ "") :
    ∃ w' l T x, s.save w path = (w', .ok ()) ∧
      w'.find path = .ok (l, .file (Utf8.encode s.text) T x) := by
  cases hs : s.save w path with
  | mk w' result =>
    cases result with
    | error e =>
      have hnone := (Store.save_error ht hs).2
      rw [hr] at hnone
      contradiction
    | ok _ =>
      rcases Store.save_ok_cases hs with ⟨l, T, hsaved⟩ | ⟨hgrows, l, n, hf, hd, hno⟩
      · obtain ⟨x, hfile⟩ := hsaved.find
        exact ⟨w', l, T, x, rfl, hfile⟩
      · -- what takes a text without keeping it has no text but the empty one
        obtain ⟨k, m, hf', htext⟩ := readText_eq_ok_iff.mp (Store.readText_of_grows hgrows hr)
        obtain ⟨_, rfl⟩ := found_unique hf' hf
        rcases n.text?_of_not_file hd hno with h | h
        · exact absurd (h.symm.trans htext) (by simp)
        · exact absurd (Option.some.inj (htext.symm.trans h)) hne

end

/-! ## executors with fixed answers -/

/-- an executor that answers nothing but what it is asked, and the same whenever it is asked -/
def Executor.Answers (exec : Executor) (answer : String → Option Outcome) : Prop :=
  ∀ b w id, (exec b w).2.get? id = if (b.jobs.get? id).isSome then answer id else none

namespace Runner

section
variable {r : Runner} {h : Host} {w : Workspace} {p : Plan} {s : Store} {u : SourceUnit}
  {answer : String → Option Outcome}

theorem Planned.get?_answers (hp : r.Planned w p s) (hexec : h.executor.Answers answer)
    (hu : u ∈ p.units) : (r.answers h p w).get? u.id =
      if (p.cached.get? u.id).isSome then none else answer u.id := by
  unfold answers
  cases hb : (r.dispatch h p).batch? p.staleUnits with
  | none =>
    have hcached : p.cached.get? u.id ≠ none := by
      intro hc
      have hmem := hp.mem_staleUnits.mpr ⟨hu, hc⟩
      unfold Dispatch.batch? at hb
      split at hb
      next he => exact List.not_mem_nil (List.isEmpty_iff.mp he ▸ hmem)
      next => contradiction
    rw [if_pos (Option.isSome_iff_ne_none.mpr hcached)]
    rfl
  | some b =>
    dsimp only
    rw [hexec]
    cases hc : p.cached.get? u.id with
    | none =>
      rw [Dispatch.job_of_mem hp.stale_nodup hb (hp.mem_staleUnits.mpr ⟨hu, hc⟩)]
      rfl
    | some o =>
      refine (if_neg fun hjob => ?_).trans (if_pos rfl).symm
      obtain ⟨v, hv, hid⟩ := Dispatch.mem_of_job hb hjob
      obtain ⟨hmem, hnone⟩ := hp.mem_staleUnits.mp hv
      rw [hid, hc] at hnone
      contradiction

/-- what a unit comes to depends on whether it is reused, and on its one answer otherwise -/
theorem Planned.outcomeOf_eq (hp : r.Planned w p s) (hexec : h.executor.Answers answer)
    (hu : u ∈ p.units) : r.outcomeOf h p w u.id =
      (p.cached.get? u.id).getD (((answer u.id).map r.judge).getD Outcome.missing) := by
  have hjudge : (r.dispatch h p).judge = r.judge := rfl
  rw [outcomeOf, outcomeFor, get?_analyze, hp.get?_answers hexec hu, hjudge]
  cases p.cached.get? u.id with
  | none => rfl
  | some o => rfl

end

/-! ## passes that last -/

/-- the listing of a unit is older than a time, and no file in it is missing or younger -/
def Rests (r : Runner) (w : Workspace) (T : Time) (u : SourceUnit) : Prop :=
  ∃ t text, w.modified (u.listing r.listingDir) = .ok t ∧ t < T ∧
    w.readText (u.listing r.listingDir) = .ok text ∧
      ∀ f ∈ (Listing.parse text).paths, ∃ t, w.modified (u.directory.join f) = .ok t ∧ t ≤ T

/-- a run that succeeded and saved a file, at a time after which its passes last -/
structure Rested (r : Runner) (h : Host) (w w₁ : Workspace) (p : Plan) (s : Store) (S : Summary)
    (content : ByteArray) (T : Time) : Prop where
  planned : r.prepare h w = (w₁, .ok (p, s))
  summary : (r.run h w).summary = .ok S
  file : ∃ l x, (r.run h w).workspace.find r.cachePath = .ok (l, .file content T x)
  rests : ∀ u ∈ p.units, u.id ∉ S.report.failedUnits → r.Rests (r.run h w).workspace T u

/-- where `v` has all that a run read and left as it was; of listings and files, those of passes -/
structure Undisturbed (r : Runner) (h : Host) (w w₁ v : Workspace) (p : Plan) (S : Summary) : Prop where
  cache : (r.run h w).workspace.Unchanged v r.cachePath
  database : v.read (r.resolve r.settings.compileDb.path) = w₁.read (r.resolve r.settings.compileDb.path)
  listing : ∀ u ∈ p.units, u.id ∉ S.report.failedUnits →
    (r.run h w).workspace.Unchanged v (u.listing r.listingDir)
  files : ∀ u ∈ p.units, u.id ∉ S.report.failedUnits → ∀ text,
    (r.run h w).workspace.readText (u.listing r.listingDir) = .ok text →
      ∀ f ∈ (Listing.parse text).paths, (r.run h w).workspace.Unchanged v (u.directory.join f)

section
variable {r : Runner} {h h' : Host} {w w₁ v v₁ v₂ : Workspace} {p p' : Plan} {s s' : Store} {S : Summary}
  {u : SourceUnit} {id : String} {o : Outcome} {content : ByteArray} {T : Time}
  {answer : String → Option Outcome}

theorem enumerate_congr (hdb : v.read (r.resolve r.settings.compileDb.path) =
    w.read (r.resolve r.settings.compileDb.path)) : r.enumerate v = r.enumerate w := by
  unfold enumerate SourceUnit.enumerate
  dsimp only
  rw [readText_congr hdb]

theorem cached_of_rests (hs : s.get? u.id = some o) (hpass : o.passed = true) (hT : s.reference = some T)
    (hrests : r.Rests w T u) : Classification.decisionFor w r.listingDir s u = .cached o := by
  obtain ⟨t, text, hm, hlt, hr, hfiles⟩ := hrests
  obtain ⟨l, n, hf, htext⟩ := readText_eq_ok_iff.mp hr
  obtain ⟨l', n', hf', rfl⟩ := modified_eq_ok_iff.mp hm
  obtain ⟨_, rfl⟩ := found_unique hf' hf
  refine decideUnit_cached_iff_found.mpr ⟨hs, hpass, T, l, n, text, hT, hf, htext, hlt, fun f hmem => ?_⟩
  obtain ⟨t, hm, hle⟩ := hfiles f hmem
  obtain ⟨k, m, hk, rfl⟩ := modified_eq_ok_iff.mp hm
  exact ⟨k, m, hk, hle⟩

/-! ## what the next run finds -/

theorem Rested.content_eq (hr : r.Rested h w w₁ p s S content T) :
    content = Utf8.encode (r.stored h p s w₁).text := by
  obtain ⟨l, x, hfile⟩ := hr.file
  exact Store.content_of_save (save_of_prepare hr.planned hr.summary) hfile

/-- the store that the first run saved is loaded -/
theorem Rested.loaded (hr : r.Rested h w w₁ p s S content T) (hv : r.Undisturbed h w w₁ v p S) :
    Store.loadOrEmpty v r.cachePath = { r.stored h p s w₁ with reference := some T } := by
  obtain ⟨l, x, hfile⟩ := hr.file
  rw [Store.loadOrEmpty_congr hv.cache, Store.loadOrEmpty_of_find hfile, hr.content_eq, Store.ofNode_text]

theorem Rested.readText (hr : r.Rested h w w₁ p s S content T) (hv : r.Undisturbed h w w₁ v p S) :
    v.readText r.cachePath = .ok (r.stored h p s w₁).text := by
  obtain ⟨l, x, hfile⟩ := hr.file
  rw [readText_congr hv.cache.content]
  refine readText_eq_ok_iff.mpr ⟨l, _, hfile, ?_⟩
  rw [hr.content_eq]
  exact Utf8.decode?_encode _

/-- passes that last go on lasting -/
theorem Rested.rests_undisturbed (hr : r.Rested h w w₁ p s S content T)
    (hv : r.Undisturbed h w w₁ v p S) (hu : u ∈ p.units) (hpass : u.id ∉ S.report.failedUnits) :
    r.Rests v T u := by
  obtain ⟨t, text, hm, hlt, htext, hfiles⟩ := hr.rests u hu hpass
  have hlisting := hv.listing u hu hpass
  refine ⟨t, text, hlisting.modified.trans hm, hlt, (readText_congr hlisting.content).trans htext,
    fun f hf => ?_⟩
  obtain ⟨t', hm', hle⟩ := hfiles f hf
  exact ⟨t', (hv.files u hu hpass text htext f hf).modified.trans hm', hle⟩

/-- a plan that is made where all is as a run left it, with the same tool -/
structure Again (r : Runner) (h : Host) (w w₁ v : Workspace) (p p' : Plan) (s s' : Store) (S : Summary)
    (content : ByteArray) (T : Time) : Prop where
  rested : r.Rested h w w₁ p s S content T
  undisturbed : r.Undisturbed h w w₁ v p S
  planned : r.Planned v p' s'
  tool : p'.toolVersionId = p.toolVersionId

namespace Again

variable (ha : r.Again h w w₁ v p p' s s' S content T)
include ha

theorem units : p'.units = p.units := by
  have hunits := (prepare_ok ha.rested.planned).units
  rw [← enumerate_congr ha.undisturbed.database, ha.planned.units] at hunits
  exact Except.ok.inj hunits

theorem ids : p'.ids = p.ids := congrArg (List.map _) ha.units

/-- the store of the first run outlasts the check of its tags -/
theorem store : (∀ id, s'.get? id = (r.stored h p s w₁).get? id) ∧ s'.reference = some T := by
  have hp := prepare_ok ha.rested.planned
  obtain ⟨hrules, htool⟩ := stored_tags (h := h) hp
  rw [ha.planned.store, ha.rested.loaded ha.undisturbed]
  refine ⟨fun id => Option.ext fun o => ?_, rfl⟩
  rw [Store.get?_validateTags]
  refine ⟨fun hs => hs.1, fun hs => ⟨hs, ?_, htool.trans ha.tool.symm⟩⟩
  exact hrules.trans (hp.rules.trans ha.planned.rules.symm)

/-- every pass is reused, and nothing else -/
theorem get?_cached (hu : u ∈ p.units) : p'.cached.get? u.id =
    if u.id ∈ S.report.failedUnits then none else some (r.outcomeOf h p w₁ u.id) := by
  have hid : u.id ∈ p.ids := List.mem_map_of_mem hu
  have hstored : (r.stored h p s w₁).get? u.id = some (r.outcomeOf h p w₁ u.id) := by
    rw [get?_stored (prepare_ok ha.rested.planned), if_pos hid]
  have hpasses := passed_iff_notMem ha.rested.planned ha.rested.summary hid
  obtain ⟨hget, hT⟩ := ha.store
  split
  next hfailed =>
    cases hc : p'.cached.get? u.id with
    | none => rfl
    | some o =>
      obtain ⟨x, _, hx, hd⟩ := ha.planned.get?_cached.mp hc
      obtain ⟨hs, hpass, _⟩ := decideUnit_cached_iff.mp hd
      rw [hx, hget, hstored] at hs
      obtain rfl := Option.some.inj hs
      exact absurd hfailed (hpasses.mp hpass)
  next hpassed =>
    have hrests := ha.rested.rests_undisturbed ha.undisturbed hu hpassed
    refine ha.planned.get?_cached.mpr ⟨u, ha.units ▸ hu, rfl, ?_⟩
    exact cached_of_rests ((hget u.id).trans hstored) (hpasses.mpr hpassed) hT hrests

theorem reused_iff (id : String) :
    (p'.cached.get? id).isSome = true ↔ id ∈ p.ids ∧ id ∉ S.report.failedUnits := by
  constructor
  · intro hcached
    obtain ⟨o, ho⟩ := Option.isSome_iff_exists.mp hcached
    obtain ⟨u, hu, rfl, _⟩ := ha.planned.get?_cached.mp ho
    rw [ha.units] at hu
    refine ⟨List.mem_map_of_mem hu, fun hfailed => ?_⟩
    rw [ha.get?_cached hu, if_pos hfailed] at ho
    contradiction
  · rintro ⟨hid, hpassed⟩
    obtain ⟨u, hu, rfl⟩ := List.mem_map.mp hid
    rw [ha.get?_cached hu, if_neg hpassed]
    rfl

/-- what the first run reported as failed is analyzed, in the same order -/
theorem stale : p'.stale.map (·.id) = S.report.failedUnits := by
  have hfailed : S.report.failedUnits = p.ids.filter fun id => !(r.outcomeOf h p w₁ id).passed := by
    rw [summary_of_prepare ha.rested.planned ha.rested.summary]
    exact Report.failedUnits_map _ _
  rw [← ha.planned.ids_staleUnits, hfailed, Plan.ids, List.filter_map, Plan.staleUnits, ha.units]
  refine congrArg (List.map _) (List.filter_congr fun u hu => ?_)
  have hid : u.id ∈ p.ids := List.mem_map_of_mem hu
  have hstale : p'.isStale u.id = true ↔ u.id ∈ S.report.failedUnits := by
    rw [ha.planned.isStale_iff_uncached (ha.units ▸ hu), ha.get?_cached hu, ite_eq_left_iff]
    simp
  rw [Function.comp_apply, Bool.eq_iff_iff, hstale, Bool.not_eq_true', ← Bool.not_eq_true,
    passed_iff_notMem ha.rested.planned ha.rested.summary hid, not_not]

section
variable (hexec : h.executor.Answers answer) (hexec' : h'.executor.Answers answer)
include hexec hexec'

/-- what was a pass is reused, and what was not is analyzed with the same answer -/
theorem outcomeOf_eq {id : String} (hid : id ∈ p.ids) :
    r.outcomeOf h' p' v id = r.outcomeOf h p w₁ id := by
  obtain ⟨u, hu, rfl⟩ := List.mem_map.mp hid
  have hp := prepare_ok ha.rested.planned
  rw [ha.planned.outcomeOf_eq hexec' (ha.units ▸ hu), ha.get?_cached hu]
  split
  next hfailed =>
    -- what is reused never fails, so that the first run did not reuse it either
    have hnone : p.cached.get? u.id = none := by
      cases hc : p.cached.get? u.id with
      | none => rfl
      | some o =>
        have hpass : (r.outcomeOf h p w₁ u.id).passed = true := by
          rw [hp.outcomeOf_eq hexec hu, hc]
          exact (hp.stored_of_cached hc).2.1
        exact absurd hfailed
          ((passed_iff_notMem ha.rested.planned ha.rested.summary hid).mp hpass)
    rw [hp.outcomeOf_eq hexec hu, hnone]
  next => rfl

/-- the store that was loaded is saved -/
theorem text_eq : (r.stored h' p' s' v).text = (r.stored h p s w₁).text :=
  stored_text_congr (prepare_ok ha.rested.planned) ha.planned (fun id => by rw [ha.ids])
    (fun id hid => ha.outcomeOf_eq hexec hexec' hid) ha.tool

end

end Again

/-! ## the next run -/

theorem planFor_invalidated {version : String} (h : r.planFor version w = .ok (p, s)) :
    p.invalidated = (Store.loadOrEmpty w r.cachePath).isOutdated p.ruleSetId p.toolVersionId := by
  unfold planFor at h
  split at h
  · contradiction
  · obtain ⟨rfl, rfl⟩ := Prod.mk.inj (Except.ok.inj h)
    rfl

/-- where all is as a run left it, there is a plan, and no entry is dropped for it -/
theorem Rested.again (hr : r.Rested h w w₁ p s S content T) (hv : r.Undisturbed h w w₁ v p S) :
    ∃ p' s', r.planFor S.toolVersionId v = .ok (p', s') ∧
      r.Again h w w₁ v p p' s s' S content T ∧ p'.invalidated = false := by
  have hp := prepare_ok hr.planned
  have hversion : S.toolVersionId = p.toolVersionId := by
    rw [summary_of_prepare hr.planned hr.summary]
  obtain ⟨p', s', hplan, _⟩ := exists_planFor ((enumerate_congr hv.database).trans hp.units) S.toolVersionId
  obtain ⟨hp', htool⟩ := planFor_ok hplan
  refine ⟨p', s', hplan, ⟨hr, hv, hp', htool.trans hversion⟩, ?_⟩
  obtain ⟨hrules₁, htool₁⟩ := stored_tags (h := h) hp
  rw [planFor_invalidated hplan, hr.loaded hv, Store.isOutdated, hrules₁, htool₁, hp'.rules, ← hp.rules,
    htool, hversion]
  simp

/-- a run that does what an earlier one did, but reuses its passes -/
structure Repeats (r : Runner) (p p' : Plan) (S S' : Summary) (content : ByteArray) (result : Result) :
    Prop where
  summary : result.summary = .ok S'
  report : S'.report = S.report
  invalidated : S'.invalidated = false
  submitted : (S.report.failedUnits = [] ∧ result.batches = []) ∨
    (S.report.failedUnits ≠ [] ∧ ∃ b, result.batches = [b] ∧ b.jobs.keys.Perm S.report.failedUnits)
  reused : ∀ id, (p'.cached.get? id).isSome = true ↔ id ∈ p.ids ∧ id ∉ S.report.failedUnits
  counted : S'.dispatched = S.report.failed ∧ S'.cached + S.report.failed = S.report.total
  saved : ∃ l t x, result.workspace.find r.cachePath = .ok (l, .file content t x)

/-- a run repeats an earlier one whose passes last: it analyzes what failed, reuses the rest, reports
the same, and saves the same bytes -/
theorem Rested.repeats (hr : r.Rested h w w₁ p s S content T) (hexec : h.executor.Answers answer)
    (hexec' : h'.executor.Answers answer) (hg : r.generate h' v = (v₁, .ok ()))
    (htool : r.toolVersion h' v₁ = (v₂, .ok S.toolVersionId)) (hv : r.Undisturbed h w w₁ v₂ p S)
    (hanalyze : ∀ p' s', r.prepare h' v = (v₂, .ok (p', s')) →
      (r.analyze h' p' v₂).workspace.readText r.cachePath = v₂.readText r.cachePath ∧
        (r.analyze h' p' v₂).workspace.Tree) :
    ∃ p' s' S', r.prepare h' v = (v₂, .ok (p', s')) ∧ r.Repeats p p' S S' content (r.run h' v) := by
  obtain ⟨p', s', hplan, ha, hkept⟩ := hr.again hv
  have hprepare : r.prepare h' v = (v₂, .ok (p', s')) := by
    rw [prepare_eq hg htool, hplan]
  -- the file can be read, and so it can be written
  obtain ⟨hread, htree⟩ := hanalyze p' s' hprepare
  obtain ⟨w₃, l, t, x, hsave, hfile⟩ := Store.save_over (r.stored h' p' s' v₂) htree
    (hread.trans (hr.readText hv)) (Store.text_ne_empty _)
  obtain ⟨⟨S', hS'⟩, hafter⟩ := run_saved hprepare hsave
  have hsum := summary_of_prepare hr.planned hr.summary
  have hsum' := summary_of_prepare hprepare hS'
  have haccounted := accounted_of_prepare hprepare hS'
  have hreport : S'.report = S.report := by
    rw [hsum', hsum, ha.ids]
    refine congrArg Report.ofOutcomes (List.map_congr_left fun id hid => ?_)
    rw [ha.outcomeOf_eq hexec hexec' hid]
  have hdispatched : S'.dispatched = S.report.failed := by
    have hfailed : S.report.failed = S.report.failedUnits.length := by
      rw [hsum]
      exact Report.failed_ofOutcomes _
    rw [haccounted.counted.2.1, hfailed, ← ha.stale, List.length_map]
  refine ⟨p', s', S', hprepare, hS', hreport, ?_, ?_, ha.reused_iff, ⟨hdispatched, ?_⟩, ?_⟩
  · rw [hsum']
    exact hkept
  · have hcalled := haccounted.called
    unfold Called at hcalled
    rw [← ha.stale]
    rcases hcalled with ⟨hnone, hcalls, _⟩ | ⟨hsome, b, hcalls, _, hkeys, _⟩
    · exact Or.inl ⟨by rw [hnone, List.map_nil], hcalls⟩
    · exact Or.inr ⟨fun hnil => hsome (List.map_eq_nil_iff.mp hnil), b, hcalls, hkeys⟩
  · rw [← hdispatched, ← hreport]
    exact haccounted.counted.2.2.1
  · rw [ha.text_eq hexec hexec', ← hr.content_eq] at hfile
    rw [hafter]
    exact ⟨l, t, x, hfile⟩

end

end Runner

/-! ## a pass that lasts -/

theorem Workspace.Unchanged.refl (w : Workspace) (path : Path) : w.Unchanged w path := ⟨rfl, rfl⟩

theorem one_answers_ok : oneHost.executor.Answers fun _ => some ⟨0, "ok"⟩ := by
  intro b w id
  have hget : (oneHost.executor b w).2.get? id = (b.jobs.get? id).map fun _ => ⟨0, "ok"⟩ :=
    SortedMap.get?_map _ _ _
  rw [hget]
  cases b.jobs.get? id <;> rfl

theorem one_tree_after {S : Runner.Summary} (hS : (oneRunner.run oneHost oneWorkspace).summary = .ok S) :
    (oneRunner.run oneHost oneWorkspace).workspace.Tree := by
  obtain ⟨w₁, p, s, hp, hsave, _⟩ := Runner.run_ok hS
  have hw : w₁ = oneWorkspace := by
    rw [← one_prepare_workspace oneWorkspace, hp]
  rw [one_analyze_workspace, hw] at hsave
  have htree : Tree ((oneRunner.stored oneHost p s oneWorkspace).save oneWorkspace oneRunner.cachePath).1 :=
    Store.tree_save one_tree
  rwa [hsave] at htree

/-- the run after the first one repeats it -/
theorem one_repeats :
    ∃ (p p' : Plan) (S S' : Runner.Summary) (content : ByteArray), p.units = [oneUnit] ∧
      (oneRunner.run oneHost oneWorkspace).summary = .ok S ∧
      oneRunner.Repeats p p' S S' content
        (oneRunner.run oneHost (oneRunner.run oneHost oneWorkspace).workspace) := by
  obtain ⟨hroot, hc, hdb, hcode, hlisting⟩ := one_nodes
  obtain ⟨S, _, hS, _⟩ := one_first hdb hroot hc
  obtain ⟨p, s, hp, _, hus, _⟩ := one_prepare hdb
  obtain ⟨s₀, w, hw, _, hcache, _, _, _, hdb', hcode', hlisting'⟩ := one_saved
  have hrests : oneRunner.Rests w 5 oneUnit := by
    refine ⟨0, "a.o: a.cc", modified_eq_ok_iff.mpr ⟨_, _, find_top (by decide) hlisting' rfl rfl, rfl⟩,
      by decide, readText_eq_ok_iff.mpr ⟨_, _, find_top (by decide) hlisting' rfl rfl,
      Utf8.decode?_encode _⟩, fun f hf => ?_⟩
    obtain rfl := eq_of_mem_one hf
    exact ⟨0, modified_eq_ok_iff.mpr ⟨_, _, find_top (by decide) hcode' rfl rfl, rfl⟩, by decide⟩
  have hrested : oneRunner.Rested oneHost oneWorkspace oneWorkspace p s S (Utf8.encode s₀.text) 5 := by
    refine ⟨hp, hS, ⟨["c"], false, ?_⟩, fun u hu _ => ?_⟩
    · rw [hw]
      exact find_top (by decide) hcache rfl rfl
    · rw [hus] at hu
      obtain rfl := List.mem_singleton.mp hu
      rwa [hw]
  have hundisturbed : oneRunner.Undisturbed oneHost oneWorkspace oneWorkspace
      (oneRunner.run oneHost oneWorkspace).workspace p S := by
    have hread {v : Workspace} (h : v.node? ["db"] = some (.file (Utf8.encode (Json.pretty oneDb)) 0 false)) :
        v.read (top "db") = .ok (Utf8.encode (Json.pretty oneDb)) := by
      rw [Workspace.read, find_top (by decide) h rfl rfl]
      rfl
    refine ⟨.refl _ _, ?_, fun _ _ _ => .refl _ _, fun _ _ _ _ _ _ _ => .refl _ _⟩
    rw [hw]
    exact (hread hdb').trans (hread hdb).symm
  obtain ⟨p', s', S', _, hrepeats⟩ := hrested.repeats one_answers_ok one_answers_ok rfl
    (by rw [one_tool hdb hS]; exact one_toolVersion _) hundisturbed fun p' s' _ => by
      rw [one_analyze_workspace]
      exact ⟨rfl, one_tree_after hS⟩
  exact ⟨p, p', S, S', _, hus, hS, hrepeats⟩

end IncrementalLint
