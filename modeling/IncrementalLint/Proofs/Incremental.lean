import IncrementalLint.Proofs.Files.Contents
import IncrementalLint.Proofs.Run

/-!
# Runs agree with runs from scratch

Let the outcome of a job depend on nothing but the files that it reads, the rules and the tool, and
let every job list these files. Whatever was run and edited before, a run that succeeds then reports
what a run without any saved outcomes reports on the same files.

* `Analyzer`, `view`       jobs as functions of what the files hold;
* `Faithful`               a run whose jobs are such, and in which nobody edits;
* `Reached`                what runs and edits lead to;
* `Trusted`                the invariant: each success on file was right when it was saved, and
                           the listing that is older than it is of the files that it depends on;
* `Trusted.reuse`          so that it is right as long as it is reused;
* `Reached.report_eq_scratch`  runs agree with runs from scratch.
-/

namespace IncrementalLint

open Workspace

/-! ## analyzers -/

/-- what files hold, named as seen from the directory of a unit -/
def view (w : Workspace) (u : SourceUnit) (f : Path) : Option ByteArray := w.content? (u.directory.join f)

/-- jobs as functions of the unit, the rules, the tool and the files -/
structure Analyzer where
  outcome : SourceUnit → String → String → (Path → Option ByteArray) → Outcome
  /-- the files that a job reads -/
  reads : SourceUnit → String → String → (Path → Option ByteArray) → PathSet
  /-- other files do not matter -/
  depends : ∀ {u : SourceUnit} {rules tool : String} {c c' : Path → Option ByteArray},
    (∀ f ∈ (reads u rules tool c).paths, c' f = c f) →
      outcome u rules tool c' = outcome u rules tool c ∧ reads u rules tool c' = reads u rules tool c

/-- whether a job of a unit may read a file -/
def Analyzer.MayRead (A : Analyzer) (u : SourceUnit) (f : Path) : Prop :=
  ∃ rules tool c, f ∈ (A.reads u rules tool c).paths

/-- an outcome as the settings count it -/
def Runner.judge (r : Runner) (o : Outcome) : Outcome :=
  if r.settings.analysis.multilineOutputFails then o.normalize else o

def Runner.withRules (r : Runner) (rules : List String) : Runner :=
  { r with settings := { r.settings with analysis := { r.settings.analysis with rules } } }

/-! ## what happens between runs, and in them -/

/-- time goes by, and nobody writes the cache file -/
structure Quiet (cache : Path) (w w' : Workspace) : Prop extends Advances w w' where
  tree : w'.Tree
  cache : ∀ {l : Location} {n : Node}, LeadsTo w cache l → w'.node? l = some n →
    w.node? l = some n ∨ n.isDirectory = true

/-- no path goes up behind a name, and no job reads the cache file -/
structure Orderly (A : Analyzer) (us : List SourceUnit) (cache : Path) (w : Workspace) : Prop where
  tree : w.Tree
  links : StraightLinks w
  straight : ∀ u ∈ us, ∀ f, A.MayRead u f → Straight (pieces (u.directory.join f).text)
  apart : ∀ u ∈ us, ∀ f, A.MayRead u f → Apart w (u.directory.join f) cache

/-- the jobs of a plan are those of an analyzer, list what they read, and change nothing else that
matters to a unit -/
structure Analyzed (A : Analyzer) (r : Runner) (h : Host) (p : Plan) (w : Workspace) : Prop where
  quiet : Quiet r.cachePath w (r.analyze h p w).workspace
  answers : ∀ b, (r.dispatch h p).batch? p.staleUnits = some b → ∀ id o,
    (h.executor b w).2.get? id = some o ↔
      ∃ u ∈ p.staleUnits, u.id = id ∧ A.outcome u p.ruleSetId p.toolVersionId (view w u) = o
  lists : ∀ u ∈ p.staleUnits, Listing.read (r.analyze h p w).workspace (u.listing r.listingDir) =
    .ok (some (A.reads u p.ruleSetId p.toolVersionId (view w u)))
  keeps : ∀ u ∈ p.units, u ∉ p.staleUnits → ∀ l n, w.find (u.listing r.listingDir) = .ok (l, n) →
    (r.analyze h p w).workspace.find (u.listing r.listingDir) = .ok (l, n)
  sources : ∀ u ∈ p.units, ∀ f ∈ (A.reads u p.ruleSetId p.toolVersionId (view w u)).paths,
    view (r.analyze h p w).workspace u f = view w u f

/-- a run for these units in which nobody edits what they read -/
structure Faithful (A : Analyzer) (us : List SourceUnit) (r : Runner) (h : Host) (w : Workspace) :
    Prop where
  quiet : Quiet r.cachePath w (r.prepare h w).1
  units : ∀ w₁ p s, r.prepare h w = (w₁, .ok (p, s)) → p.units = us
  sources : ∀ w₁ p s, r.prepare h w = (w₁, .ok (p, s)) → ∀ u ∈ us,
    ∀ f ∈ (A.reads u p.ruleSetId p.toolVersionId (view w u)).paths, view w₁ u f = view w u f
  analyzed : ∀ w₁ p s, r.prepare h w = (w₁, .ok (p, s)) → Analyzed A r h p w₁

def Unsaved (cache : Path) (w : Workspace) : Prop := ∀ l, LeadsTo w cache l → w.node? l = none

/-- what runs lead to, under any rules, and what anyone does between them -/
inductive Reached (A : Analyzer) (r : Runner) (us : List SourceUnit) : Workspace → Prop
  | start {w : Workspace} (ho : Orderly A us r.cachePath w) (hc : Unsaved r.cachePath w) :
      Reached A r us w
  | edit {w w' : Workspace} (past : Reached A r us w) (hq : Quiet r.cachePath w w') : Reached A r us w'
  | run {w : Workspace} {rules : List String} {h : Host} (past : Reached A r us w)
      (hf : Faithful A us (r.withRules rules) h w) :
      Reached A r us ((r.withRules rules).run h w).workspace

/-! ## the invariant -/

/-- a success that was right at a moment, with a listing that tells whether it still is -/
structure Backed (A : Analyzer) (r : Runner) (v : Workspace) (s : Store) (time : Time) (u : SourceUnit)
    (o : Outcome) : Prop where
  outcome : o = r.judge (A.outcome u s.ruleSetId s.toolVersionId (view v u))
  listing : ∃ l n, v.find (u.listing r.listingDir) = .ok (l, n) ∧ (n.modified < time →
    ∃ text, n.text? = some text ∧ Listing.parse text = A.reads u s.ruleSetId s.toolVersionId (view v u))

/-- each success on file was right at a moment after the file was written -/
def Trusted (A : Analyzer) (r : Runner) (us : List SourceUnit) (w : Workspace) : Prop :=
  ∀ l n, LeadsTo w r.cachePath l → w.node? l = some n → ∀ u ∈ us, ∀ o,
    (Store.ofNode n).get? u.id = some o → o.passed = true →
      ∃ v, Advances v w ∧ v.Tree ∧ n.modified < v.clock ∧ Backed A r v (Store.ofNode n) n.modified u o

section
variable {A : Analyzer} {r : Runner} {h : Host} {us : List SourceUnit} {cache : Path}
  {w w' w₁ w₂ : Workspace} {p : Plan} {s : Store} {u : SourceUnit} {o : Outcome}

theorem backed_withRules_iff {rules : List String} {time : Time} :
    Backed A (r.withRules rules) w s time u o ↔ Backed A r w s time u o :=
  ⟨fun hb => ⟨hb.outcome, hb.listing⟩, fun hb => ⟨hb.outcome, hb.listing⟩⟩

theorem trusted_withRules_iff {rules : List String} :
    Trusted A (r.withRules rules) us w ↔ Trusted A r us w := by
  unfold Trusted
  simp only [backed_withRules_iff]
  rfl

theorem Workspace.Grows.quiet (hg : Grows w w') (ht : w'.Tree) : Quiet cache w w' := by
  refine ⟨hg.toAdvances, ht, fun _ hn => ?_⟩
  rcases hg.others hn with hn | hd | hf
  · exact Or.inl hn
  · exact Or.inr hd
  · exact hf.elim

theorem Orderly.later (ho : Orderly A us cache w) (hs : SameLinks w w') (ht : w'.Tree) :
    Orderly A us cache w' where
  tree := ht
  links := hs.straight ho.links
  straight := ho.straight
  apart u hu f hf := hs.apart (ho.apart u hu f hf)

theorem Orderly.quiet (ho : Orderly A us cache w) (hq : Quiet cache w w') : Orderly A us cache w' :=
  ho.later hq.sameLinks hq.tree

theorem trusted_of_unsaved (hc : Unsaved r.cachePath w) : Trusted A r us w :=
  fun l _ hl hn => absurd ((hc l hl).symm.trans hn) (by simp)

theorem Trusted.quiet (ht : Trusted A r us w) (hq : Quiet r.cachePath w w') : Trusted A r us w' := by
  intro l n hl hn u hu o hget hpass
  have hl' := hq.sameLinks.leadsTo_iff.mp hl
  rcases hq.cache hl' hn with hn | hd
  · obtain ⟨v, hv, htree, hlt, hb⟩ := ht l n hl' hn u hu o hget hpass
    exact ⟨v, hv.trans hq.toAdvances, htree, hlt, hb⟩
  · rw [Store.ofNode_directory hd] at hget
    contradiction

/-! ## what is reused -/

/-- a success that is reused is still right, and the listing that it is reused by is of the files
that it depends on -/
theorem Trusted.reuse (ht : Trusted A r us w) (ho : Orderly A us r.cachePath w) (hp : r.Planned w p s)
    (hu : u ∈ us) (hd : Classification.decisionFor w r.listingDir s u = .cached o) :
    o = r.judge (A.outcome u p.ruleSetId p.toolVersionId (view w u)) ∧
      ∃ l n text, w.find (u.listing r.listingDir) = .ok (l, n) ∧ n.text? = some text ∧
        Listing.parse text = A.reads u p.ruleSetId p.toolVersionId (view w u) := by
  obtain ⟨hget, hpass, T, l, n, text, hr, hf, htext, hlt, hfiles⟩ := decideUnit_cached_iff_found.mp hd
  rw [hp.store, Store.get?_validateTags] at hget
  rw [hp.store] at hr
  obtain ⟨hget, hrules, htool⟩ := hget
  have hr' : (Store.loadOrEmpty w r.cachePath).reference = some T := hr
  rw [Store.loadOrEmpty_eq] at hget hrules htool hr'
  cases hc : w.find r.cachePath with
  | error e =>
    rw [hc] at hget
    contradiction
  | ok x =>
    obtain ⟨c, m⟩ := x
    rw [hc] at hget hrules htool hr'
    obtain rfl := Option.some.inj ((Store.reference_ofNode hget).symm.trans hr')
    obtain ⟨v, hv, htree, hclock, hb⟩ :=
      ht c m (leadsTo_of_find hc) (node_of_find hc) u hu o hget hpass
    -- the listing is the one that was there at the moment
    obtain ⟨l', n', hf', hlisting⟩ := hb.listing
    obtain rfl := (leadsTo_of_find hf).unique (hv.sameLinks.leadsTo_iff.mpr (leadsTo_of_find hf'))
    have hn := hv.same (node_of_find hf) (Int.lt_trans hlt hclock)
    obtain rfl := Option.some.inj (hn.symm.trans (node_of_find hf'))
    obtain ⟨text', htext', hreads⟩ := hlisting hlt
    obtain rfl := Option.some.inj (htext.symm.trans htext')
    have houtcome := hb.outcome
    rw [show (Store.ofNode m).ruleSetId = p.ruleSetId from hrules,
      show (Store.ofNode m).toolVersionId = p.toolVersionId from htool] at hreads houtcome
    -- so are the files in it
    have hsame : ∀ f ∈ (A.reads u p.ruleSetId p.toolVersionId (view v u)).paths,
        view w u f = view v u f := by
      intro f hmem
      obtain ⟨k, m', hfind, hle⟩ := hfiles f (hreads ▸ hmem)
      refine (hv.content?_back htree ho.tree ho.links ?_ hfind (Int.lt_of_le_of_lt hle hclock)).symm
      exact ho.straight u hu f ⟨_, _, _, hmem⟩
    obtain ⟨ho', hr'⟩ := A.depends hsame
    exact ⟨by rw [houtcome, ho'], l', n, text, hf, htext, by rw [hreads, hr']⟩

/-! ## what a run does -/

/-- each outcome of a run is what the analyzer says of the files as they are -/
theorem Trusted.outcomeOf (ht : Trusted A r us w) (ho : Orderly A us r.cachePath w)
    (hp : r.Planned w p s) (hus : p.units = us) (ha : Analyzed A r h p w) (hu : u ∈ us) :
    r.outcomeOf h p w u.id = r.judge (A.outcome u p.ruleSetId p.toolVersionId (view w u)) := by
  have hunit : u ∈ p.units := hus ▸ hu
  have hanswer {id : String} {o : Outcome} : (r.analyze h p w).outcomes.get? id = some o ↔
      ∃ b raw, (r.dispatch h p).batch? p.staleUnits = some b ∧ (h.executor b w).2.get? id = some raw ∧
        r.judge raw = o := Dispatch.get?_run
  unfold Runner.outcomeOf
  cases hd : Classification.decisionFor w r.listingDir s u with
  | cached o =>
    have hc := hp.get?_cached.mpr ⟨u, hunit, rfl, hd⟩
    have hf : (r.analyze h p w).outcomes.get? u.id = none := by
      cases hf : (r.analyze h p w).outcomes.get? u.id with
      | none => rfl
      | some o' =>
        obtain ⟨b, raw, hb, hraw, _⟩ := hanswer.mp hf
        obtain ⟨v, hv, hid, _⟩ := (ha.answers b hb u.id raw).mp hraw
        rw [← hid] at hc
        exact absurd hv (hp.notMem_stale_of_cached hc)
    rw [outcomeFor_reused hf hc]
    exact (ht.reuse ho hp hu hd).1
  | stale reason =>
    have hstale := hp.mem_stale_of_decision hunit hd
    refine outcomeFor_fresh (hanswer.mpr ?_) _
    cases hb : (r.dispatch h p).batch? p.staleUnits with
    | none =>
      unfold Dispatch.batch? at hb
      split at hb
      next he => exact absurd hstale (by simp [List.isEmpty_iff.mp he])
      next => contradiction
    | some b => exact ⟨b, _, rfl, (ha.answers b hb u.id _).mpr ⟨u, hstale, rfl, rfl⟩, rfl⟩

/-- after the analysis, the listing of each unit that passed is of the files that it depends on -/
theorem Trusted.listed (ht : Trusted A r us w) (ho : Orderly A us r.cachePath w)
    (hp : r.Planned w p s) (hus : p.units = us) (ha : Analyzed A r h p w) (hu : u ∈ us) :
    ∃ l n text, (r.analyze h p w).workspace.find (u.listing r.listingDir) = .ok (l, n) ∧
      n.text? = some text ∧ Listing.parse text = A.reads u p.ruleSetId p.toolVersionId (view w u) := by
  have hunit : u ∈ p.units := hus ▸ hu
  cases hd : Classification.decisionFor w r.listingDir s u with
  | cached o =>
    obtain ⟨_, l, n, text, hf, htext, hreads⟩ := ht.reuse ho hp hu hd
    have hfresh := hp.notMem_stale_of_cached (hp.get?_cached.mpr ⟨u, hunit, rfl, hd⟩)
    exact ⟨l, n, text, ha.keeps u hunit hfresh l n hf, htext, hreads⟩
  | stale reason =>
    have hstale := hp.mem_stale_of_decision hunit hd
    obtain ⟨l, n, text, hf, htext, hreads⟩ := listing_read_iff.mp (ha.lists u hstale)
    exact ⟨l, n, text, hf, htext, hreads.symm⟩

/-- neither the analysis nor a save touches what units read -/
theorem Analyzed.view_saved (ha : Analyzed A r h p w) (ho : Orderly A us r.cachePath w)
    (hus : p.units = us) {saved : Store} {c : Location} {T : Time}
    (hs : saved.SavedAt (r.analyze h p w).workspace w₂ r.cachePath c T) (htree : w₂.Tree) (hu : u ∈ us) :
    ∀ f ∈ (A.reads u p.ruleSetId p.toolVersionId (view w u)).paths, view w₂ u f = view w u f := by
  intro f hf
  obtain ⟨x, hfind⟩ := hs.find
  have hmay : A.MayRead u f := ⟨_, _, _, hf⟩
  have hlater := ho.quiet ha.quiet
  have hlinks : StraightLinks w₂ := hs.sameLinks.straight hlater.links
  rw [← ha.sources u (hus ▸ hu) f hf]
  refine hs.content?_eq hs.keeps hlater.tree htree hlinks (ho.straight u hu f hmay) fun k hk hkc => ?_
  obtain rfl : k = c := hkc
  exact hlater.apart u hu f hmay k hk (hs.sameLinks.leadsTo_iff.mp (leadsTo_of_find hfind))

theorem listing_saved {saved : Store} {c l : Location} {T : Time} {n : Node} {text : String} {path : Path}
    (hs : saved.SavedAt w w' cache c T) (hf : w.find path = .ok (l, n)) (htext : n.text? = some text) :
    ∃ n', w'.find path = .ok (l, n') ∧ (n'.modified < T → n'.text? = some text) := by
  obtain ⟨n', hf', halike⟩ := hs.keeps.find hf
  refine ⟨n', hf', fun hlt => ?_⟩
  rcases hs.others (node_of_find hf') with hn | hd | rfl
  · rw [← Option.some.inj ((node_of_find hf).symm.trans hn), htext]
  · rw [halike.isDirectory] at hd
    cases n <;> simp_all [Node.text?, Node.isDirectory]
  · obtain ⟨x, hfind⟩ := hs.find
    obtain rfl := Option.some.inj ((node_of_find hfind).symm.trans (node_of_find hf'))
    exact absurd hlt (Int.lt_irrefl T)

/-- what a run saves can be trusted -/
theorem Trusted.save (ht : Trusted A r us w) (ho : Orderly A us r.cachePath w) (hp : r.Planned w p s)
    (hus : p.units = us) (ha : Analyzed A r h p w) {c : Location} {T : Time}
    (hs : (r.stored h p s w).SavedAt (r.analyze h p w).workspace w₂ r.cachePath c T)
    (htree : w₂.Tree) : Trusted A r us w₂ := by
  intro l n hl hn u hu o hget hpass
  obtain ⟨x, hfind⟩ := hs.find
  obtain rfl := (leadsTo_of_find hfind).unique hl
  obtain rfl := Option.some.inj ((node_of_find hfind).symm.trans hn)
  have hmem : u.id ∈ p.ids := List.mem_map_of_mem (hus ▸ hu)
  obtain ⟨hrules, htool⟩ := Runner.stored_tags (h := h) hp
  rw [Store.ofNode_text] at hget ⊢
  have hget' : (r.stored h p s w).get? u.id = some o := hget
  rw [Runner.get?_stored hp, if_pos hmem, ht.outcomeOf ho hp hus ha hu] at hget'
  obtain ⟨houtcome, hreads⟩ := A.depends (ha.view_saved ho hus hs htree hu)
  refine ⟨w₂, .refl w₂, htree, hs.before, ?_, ?_⟩
  · rw [show (Store.ruleSetId _) = p.ruleSetId from hrules,
      show (Store.toolVersionId _) = p.toolVersionId from htool, houtcome]
    exact (Option.some.inj hget').symm
  · obtain ⟨k, m, text, hf, htext, hparse⟩ := ht.listed ho hp hus ha hu
    obtain ⟨m', hf', htext'⟩ := listing_saved hs hf htext
    refine ⟨k, m', hf', fun hlt => ⟨text, htext' hlt, ?_⟩⟩
    rw [hparse, show (Store.ruleSetId _) = p.ruleSetId from hrules,
      show (Store.toolVersionId _) = p.toolVersionId from htool, hreads]

/-- whatever comes of a run, what is on file can be trusted -/
theorem Trusted.run (ht : Trusted A r us w) (ho : Orderly A us r.cachePath w)
    (hf : Faithful A us r h w) :
    Trusted A r us (r.run h w).workspace ∧ Orderly A us r.cachePath (r.run h w).workspace := by
  have hquiet := hf.quiet
  rw [Runner.run_eq]
  cases hprep : r.prepare h w with
  | mk w₁ result =>
    rw [hprep] at hquiet
    cases result with
    | error e => exact ⟨ht.quiet hquiet, ho.quiet hquiet⟩
    | ok planned =>
      obtain ⟨p, s⟩ := planned
      have ht₁ := ht.quiet hquiet
      have ho₁ := ho.quiet hquiet
      have hp := Runner.prepare_ok hprep
      have hus := hf.units w₁ p s hprep
      have ha := hf.analyzed w₁ p s hprep
      have ho₂ := ho₁.quiet ha.quiet
      have htree : Tree ((r.stored h p s w₁).save (r.analyze h p w₁).workspace r.cachePath).1 :=
        Store.tree_save ho₂.tree
      dsimp only
      rw [Runner.carryOut_eq]
      cases hsave : (r.stored h p s w₁).save (r.analyze h p w₁).workspace r.cachePath with
      | mk w₂ saved =>
        rw [hsave] at htree
        cases saved with
        | error e =>
          have hq : Quiet r.cachePath _ w₂ := (Store.save_error_grows hsave).quiet htree
          exact ⟨(ht₁.quiet ha.quiet).quiet hq, ho₂.quiet hq⟩
        | ok _ =>
          rcases Store.save_ok_cases hsave with ⟨c, T, hs⟩ | ⟨hg, _⟩
          · exact ⟨ht₁.save ho₁ hp hus ha hs htree, ho₂.later hs.sameLinks htree⟩
          · have hq : Quiet r.cachePath _ w₂ := hg.quiet htree
            exact ⟨(ht₁.quiet ha.quiet).quiet hq, ho₂.quiet hq⟩

/-- the invariant holds of all that runs and edits lead to -/
theorem Reached.trusted (hw : Reached A r us w) : Trusted A r us w ∧ Orderly A us r.cachePath w := by
  induction hw with
  | start ho hc => exact ⟨trusted_of_unsaved hc, ho⟩
  | edit _ hq ih => exact ⟨ih.1.quiet hq, ih.2.quiet hq⟩
  | @run _ rules _ _ hf ih =>
    have ht : Trusted A (r.withRules rules) us _ := trusted_withRules_iff.mpr ih.1
    have ho : Orderly A us (r.withRules rules).cachePath _ := ih.2
    obtain ⟨ht', ho'⟩ := ht.run ho hf
    exact ⟨trusted_withRules_iff.mp ht', ho'⟩

/-! ## reports -/

/-- a run that succeeds reports what the analyzer says of each unit -/
theorem Trusted.report (ht : Trusted A r us w) (ho : Orderly A us r.cachePath w)
    (hf : Faithful A us r h w) {S : Runner.Summary} (hS : (r.run h w).summary = .ok S) :
    S.ruleSetId = r.settings.analysis.ruleSetId ∧ S.report = Report.ofOutcomes (us.map fun u =>
      (u.id, r.judge (A.outcome u S.ruleSetId S.toolVersionId (view w u)))) := by
  have hquiet := hf.quiet
  obtain ⟨w₁, p, s, hprep, _, hreport, hrules, htool⟩ := Runner.run_ok hS
  rw [hprep] at hquiet
  have hp := Runner.prepare_ok hprep
  have hus := hf.units w₁ p s hprep
  refine ⟨hrules.trans hp.rules, ?_⟩
  rw [hreport, hrules, htool, Plan.ids, List.map_map, hus]
  refine congrArg Report.ofOutcomes (List.map_congr_left fun u hu => ?_)
  have houtcome := (ht.quiet hquiet).outcomeOf (ho.quiet hquiet) hp hus (hf.analyzed w₁ p s hprep) hu
  rw [Function.comp_apply, houtcome, (A.depends (hf.sources w₁ p s hprep u hu)).1]

/-- whatever was run and edited before, a run reports what a run from scratch reports on the same
files, under the same rules and with the same tool -/
theorem Reached.report_eq_scratch (hw : Reached A r us w) {rules : List String}
    (hf : Faithful A us (r.withRules rules) h w) {S : Runner.Summary}
    (hS : ((r.withRules rules).run h w).summary = .ok S) {w₀ : Workspace} {h₀ : Host}
    (ho₀ : Orderly A us r.cachePath w₀) (hc₀ : Unsaved r.cachePath w₀)
    (hf₀ : Faithful A us (r.withRules rules) h₀ w₀) {S₀ : Runner.Summary}
    (hS₀ : ((r.withRules rules).run h₀ w₀).summary = .ok S₀) (htool : S₀.toolVersionId = S.toolVersionId)
    (hsame : ∀ u ∈ us, ∀ f ∈ (A.reads u S.ruleSetId S.toolVersionId (view w u)).paths,
      view w₀ u f = view w u f) : S.report = S₀.report := by
  obtain ⟨ht, ho⟩ := hw.trusted
  have ht' : Trusted A (r.withRules rules) us w := trusted_withRules_iff.mpr ht
  have ht₀ : Trusted A (r.withRules rules) us w₀ := trusted_of_unsaved hc₀
  obtain ⟨hrules, hreport⟩ := ht'.report ho hf hS
  obtain ⟨hrules₀, hreport₀⟩ := ht₀.report ho₀ hf₀ hS₀
  rw [hreport, hreport₀, htool, hrules₀, ← hrules]
  refine congrArg Report.ofOutcomes (List.map_congr_left fun u hu => ?_)
  rw [(A.depends (hsame u hu)).1]

end

/-! ## the project with one unit -/

/-- jobs that pass as long as the file is there -/
def oneAnalyzer : Analyzer where
  outcome := fun _ _ _ c => if (c ⟨"a.cc"⟩).isSome then ⟨0, "ok"⟩ else ⟨1, "no file"⟩
  reads := fun _ _ _ _ => Listing.parse "a.o: a.cc"
  depends := fun h => ⟨by rw [h ⟨"a.cc"⟩ (by decide)], rfl⟩

theorem eq_of_mem_one {f : Path} (h : f ∈ (Listing.parse "a.o: a.cc").paths) : f = ⟨"a.cc"⟩ := by
  rw [show PathSet.paths (Listing.parse "a.o: a.cc") = [⟨"a.cc"⟩] by decide] at h
  exact List.mem_singleton.mp h

theorem one_orderly : Orderly oneAnalyzer [oneUnit] (top "c") oneWorkspace := by
  obtain ⟨_, hc, _, hcode, _⟩ := one_nodes
  refine ⟨one_tree, fun {l target} hl => ?_, fun u hu f hf => ?_, fun u hu f hf l hl hl' => ?_⟩
  · simp only [oneWorkspace, node?_put, node?_empty] at hl
    split at hl
    · simp at hl
    · split at hl
      · simp at hl
      · split at hl
        · simp at hl
        · split at hl <;> simp at hl
  · obtain ⟨_, _, _, hf⟩ := hf
    obtain rfl := eq_of_mem_one hf
    obtain rfl := List.mem_singleton.mp hu
    exact .names (by decide : ".." ∉ pieces "/a.cc")
  · obtain ⟨_, _, _, hf⟩ := hf
    obtain rfl := eq_of_mem_one hf
    obtain rfl := List.mem_singleton.mp hu
    have hla := leadsTo_top_file (by decide : Single "a.cc") hcode rfl rfl hl
    have hlc := leadsTo_top_free (by decide : Single "c") hc hl'
    exact absurd (hla.symm.trans hlc) (by decide)

section
variable {w : Workspace} {code : ByteArray} {t t' t'' : Time} {x x' x'' : Bool}

theorem Quiet.refl {cache : Path} (ht : w.Tree) : Quiet cache w w := ⟨.refl w, ht, fun _ hn => Or.inl hn⟩

theorem one_answers {p : Plan} (hstale : ∀ u ∈ p.staleUnits, u = oneUnit)
    (hd : (p.staleUnits.map (·.id)).Nodup) (hcode : w.node? ["a.cc"] = some (.file code t x)) {b : Batch}
    (hb : (oneRunner.dispatch oneHost p).batch? p.staleUnits = some b) (id : String) (o : Outcome) :
    (oneHost.executor b w).2.get? id = some o ↔ ∃ u ∈ p.staleUnits, u.id = id ∧
      oneAnalyzer.outcome u p.ruleSetId p.toolVersionId (view w u) = o := by
  have hview : view w oneUnit ⟨"a.cc"⟩ = some code :=
    content?_of_find (p := top "a.cc") (find_top (by decide) hcode rfl rfl)
  have houtcome : oneAnalyzer.outcome oneUnit p.ruleSetId p.toolVersionId (view w oneUnit) = ⟨0, "ok"⟩ := by
    show (if (view w oneUnit ⟨"a.cc"⟩).isSome = true then _ else _) = _
    rw [hview]
    rfl
  have hexec : (oneHost.executor b w).2.get? id = (b.jobs.get? id).map fun _ => ⟨0, "ok"⟩ :=
    SortedMap.get?_map _ _ _
  rw [hexec]
  constructor
  · intro h
    obtain ⟨line, hline, rfl⟩ := Option.map_eq_some_iff.mp h
    obtain ⟨u, hu, hid⟩ := Dispatch.mem_of_job hb (Option.isSome_iff_exists.mpr ⟨line, hline⟩)
    obtain rfl := hstale u hu
    exact ⟨oneUnit, hu, hid, houtcome⟩
  · rintro ⟨u, hu, rfl, ho⟩
    obtain rfl := hstale u hu
    rw [Dispatch.job_of_mem hd hb hu, houtcome] at *
    exact congrArg some ho

theorem one_faithful (ht : w.Tree)
    (hdb : w.node? ["db"] = some (.file (Utf8.encode (Json.pretty oneDb)) t x))
    (hcode : w.node? ["a.cc"] = some (.file code t' x'))
    (hlisting : w.node? ["a.cc.d"] = some (.file (Utf8.encode "a.o: a.cc") t'' x'')) :
    Faithful oneAnalyzer [oneUnit] oneRunner oneHost w := by
  obtain ⟨p, s, hp, hplan, hus, _⟩ := one_prepare hdb
  have hsame {w₁ : Workspace} {p' : Plan} {s' : Store} (h : oneRunner.prepare oneHost w = (w₁, .ok (p', s'))) :
      w₁ = w ∧ p' = p := by
    obtain ⟨hw, hresult⟩ := Prod.mk.inj (h.symm.trans hp)
    exact ⟨hw, (Prod.mk.inj (Except.ok.inj hresult)).1⟩
  have hone : ∀ u ∈ p.staleUnits, u = oneUnit := by
    intro u hu
    have hmem := (hplan.mem_staleUnits.mp hu).1
    rw [hus] at hmem
    exact List.mem_singleton.mp hmem
  have hread : Listing.read w (oneUnit.listing oneRunner.listingDir) =
      .ok (some (Listing.parse "a.o: a.cc")) :=
    listing_read_iff.mpr ⟨_, _, _, find_top (by decide) hlisting rfl rfl, Utf8.decode?_encode _, rfl⟩
  refine ⟨?_, fun w₁ p' s' h => ?_, fun w₁ p' s' h => ?_, fun w₁ p' s' h => ?_⟩
  · rw [one_prepare_workspace]
    exact .refl ht
  · rw [(hsame h).2, hus]
  · rw [(hsame h).1]
    exact fun _ _ _ _ => rfl
  · obtain ⟨rfl, rfl⟩ := hsame h
    refine ⟨?_, fun b hb => one_answers hone hplan.stale_nodup hcode hb, fun u hu => ?_, fun _ _ _ l n hf => ?_,
      fun _ _ _ _ => ?_⟩
    · rw [one_analyze_workspace]
      exact .refl ht
    · obtain rfl := hone u hu
      rw [one_analyze_workspace]
      exact hread
    · rw [one_analyze_workspace]
      exact hf
    · rw [one_analyze_workspace]

theorem one_tool (hdb : w.node? ["db"] = some (.file (Utf8.encode (Json.pretty oneDb)) t x))
    {S : Runner.Summary} (hS : (oneRunner.run oneHost w).summary = .ok S) : S.toolVersionId = "1" := by
  obtain ⟨p, s, hp, _, _, _, htool⟩ := one_prepare hdb
  obtain ⟨w₁, p', s', hp', _, _, _, htool'⟩ := Runner.run_ok hS
  obtain ⟨_, hresult⟩ := Prod.mk.inj (hp'.symm.trans hp)
  rw [htool', (Prod.mk.inj (Except.ok.inj hresult)).1, htool]

end

/-- the second run, which reuses the success of the first, reports what the first one did -/
theorem one_report_eq_scratch :
    ∃ (w : Workspace) (S S₀ : Runner.Summary), Reached oneAnalyzer oneRunner [oneUnit] w ∧
      (∃ p s, oneRunner.prepare oneHost w = (w, .ok (p, s)) ∧ p.cached.get? "a.cc" = some ⟨0, "ok"⟩) ∧
      (oneRunner.run oneHost w).summary = .ok S ∧
      (oneRunner.run oneHost oneWorkspace).summary = .ok S₀ ∧ S.report = S₀.report := by
  obtain ⟨hroot, hc, hdb, hcode, hlisting⟩ := one_nodes
  have hrunner : oneRunner.withRules [] = oneRunner := rfl
  obtain ⟨S₀, _, hS₀, _⟩ := one_first hdb hroot hc
  obtain ⟨s, w, hw, ⟨t, hroot'⟩, hcache, hget, hrules, htool, hdb', hcode', hlisting'⟩ := one_saved
  have hunsaved : Unsaved (top "c") oneWorkspace := by
    intro l hl
    rw [leadsTo_top_free (by decide) hc hl]
    exact hc
  have hf₀ : Faithful oneAnalyzer [oneUnit] (oneRunner.withRules []) oneHost oneWorkspace := by
    rw [hrunner]
    exact one_faithful one_tree hdb hcode hlisting
  have hreached : Reached oneAnalyzer oneRunner [oneUnit] w := by
    have hstart : Reached oneAnalyzer oneRunner [oneUnit] oneWorkspace := .start one_orderly hunsaved
    have hrun := hstart.run hf₀
    rw [hrunner, hw] at hrun
    exact hrun
  have hf : Faithful oneAnalyzer [oneUnit] (oneRunner.withRules []) oneHost w := by
    rw [hrunner]
    exact one_faithful hreached.trusted.2.tree hdb' hcode' hlisting'
  -- the second run succeeds, too
  obtain ⟨p, s', hp, hcached⟩ := one_next hdb' hcode' (by decide) hlisting' (by decide) hcache hget rfl hrules htool
  obtain ⟨⟨S, hS⟩, _⟩ := one_run hp (Store.save_top hroot' (by decide) (write_top (by decide) hcache))
  refine ⟨w, S, S₀, hreached, ⟨p, s', hp, hcached⟩, hS, hS₀, ?_⟩
  rw [← hrunner] at hS hS₀
  refine hreached.report_eq_scratch hf hS one_orderly hunsaved hf₀ hS₀ ?_ fun u hu f hmem => ?_
  · rw [one_tool hdb hS₀, one_tool hdb' hS]
  · obtain rfl := List.mem_singleton.mp hu
    obtain rfl := eq_of_mem_one hmem
    exact (content?_of_find (p := top "a.cc") (find_top (by decide) hcode rfl rfl)).trans
      (content?_of_find (p := top "a.cc") (find_top (by decide) hcode' rfl rfl)).symm

end IncrementalLint
