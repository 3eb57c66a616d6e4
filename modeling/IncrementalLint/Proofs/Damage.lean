import IncrementalLint.Proofs.Cache.Reload
import IncrementalLint.Proofs.Files.SameBut
import IncrementalLint.Proofs.TwoRuns

/-!
# Stores that are of no use

A file that holds no store, an empty store, or one with other tags is worth as much as no file: all
units are analyzed, and nothing of the file is left in what is reported and saved.

* `Store.Unusable`               the contents that are of no use;
* `Runner.replan`                the plan to analyze everything;
* `Runner.Ignores`               commands that do not look at a file;
* `Damaged.planFor`              plans with such a file, and with none;
* `Runner.unusable_store_costs_rerun`  what the two come to;
* `Runner.plan_invalidated_iff`  when a plan says that entries were dropped.
-/

namespace IncrementalLint

open Workspace

/-! ## contents -/

namespace Store

/-- the contents of a file that are of no use to a run with these tags -/
inductive Unusable (rules tool : String) (content : ByteArray) : Prop
  | notText (h : Utf8.decode? content = none)
  | notJson {text : String} (h : Utf8.decode? content = some text) (hv : Json.read? text = none)
  | otherShape {text : String} {v : Json} (h : Utf8.decode? content = some text)
      (hv : Json.read? text = some v) (hs : ofJson? 0 v = none)
  | noEntries {text : String} {s : Store} (h : Utf8.decode? content = some text)
      (hs : ofText? 0 text = some s) (he : s.isEmpty = true)
  | otherTags {text : String} {s : Store} (h : Utf8.decode? content = some text)
      (hs : ofText? 0 text = some s) (ht : s.ruleSetId ≠ rules ∨ s.toolVersionId ≠ tool)

section
variable {rules tool : String} {content : ByteArray} {s : Store}

theorem isOutdated_iff : s.isOutdated rules tool = true ↔
    s.isEmpty = false ∧ (s.ruleSetId ≠ rules ∨ s.toolVersionId ≠ tool) := by
  rw [isOutdated, Bool.and_eq_true, Bool.not_eq_true', Bool.or_eq_true, bne_iff_ne, bne_iff_ne]

theorem entries_of_isEmpty (h : s.isEmpty = true) : s.entries = .empty :=
  SortedMap.eq_of_entries (List.isEmpty_iff.mp h)

/-- entries do not outlast another tag -/
theorem validateTags_dropped (h : s.isEmpty = true ∨ s.ruleSetId ≠ rules ∨ s.toolVersionId ≠ tool) :
    (s.validateTags rules tool).1.entries = .empty := by
  show (if s.isOutdated rules tool then SortedMap.empty else s.entries) = .empty
  by_cases he : s.isEmpty = true
  · rw [entries_of_isEmpty he, ite_self]
  · rw [if_pos (isOutdated_iff.mpr ⟨Bool.eq_false_iff.mpr he, h.resolve_left he⟩)]

/-- nothing of such a file is used -/
theorem Unusable.dropped (hu : Unusable rules tool content) (T : Time) (x : Bool) :
    ((ofNode (.file content T x)).validateTags rules tool).1.entries = .empty := by
  refine validateTags_dropped ?_
  have htext {text : String} (h : Utf8.decode? content = some text) :
      ofNode (.file content T x) =
        ((ofText? 0 text).map fun s => { s with reference := some T }).getD {} := by
    rw [ofNode, show (Node.file content T x).text? = some text from h, Option.bind_some]
    exact congrArg (·.getD {}) (ofText?_time 0 T text)
  cases hu with
  | notText h =>
    rw [ofNode, show (Node.file content T x).text? = none from h]
    exact Or.inl rfl
  | notJson h hv =>
    rw [htext h, ofText?, hv]
    exact Or.inl rfl
  | otherShape h hv hs =>
    rw [htext h, ofText?, hv, Option.bind_some, hs]
    exact Or.inl rfl
  | noEntries h hs he =>
    rw [htext h, hs]
    exact Or.inl he
  | otherTags h hs ht =>
    rw [htext h, hs]
    exact Or.inr ht

end

end Store

/-! ## plans without a store -/

theorem Classification.ofUnits_empty {w : Workspace} {dir : Path} {s : Store} (hs : s.entries = .empty)
    (us : List SourceUnit) : ofUnits w dir s us = ⟨.empty, us.map fun u => ⟨u.id, .notCached⟩⟩ := by
  have hdecision (u : SourceUnit) : decisionFor w dir s u = .stale .notCached := by
    have hnone : s.get? u.id = none := by rw [Store.get?, hs, SortedMap.get?_empty]
    rw [decisionFor, decideUnit, hnone]
  have hreusable : reusable? w dir s = fun _ => none := by
    funext u
    rw [reusable?, hdecision]
  have hstale : stale? w dir s = fun u => some ⟨u.id, .notCached⟩ := by
    funext u
    rw [stale?, hdecision]
  rw [ofUnits, hreusable, hstale, List.filterMap_none, List.filterMap_eq_map']
  rfl

namespace Runner

/-- the plan to analyze everything -/
def replan (r : Runner) (version : String) (us : List SourceUnit) (invalidated : Bool) : Plan where
  units := us
  cached := .empty
  stale := us.map fun u => ⟨u.id, .notCached⟩
  invalidated
  ruleSetId := r.settings.analysis.ruleSetId
  toolVersionId := version

section
variable {r : Runner} {h : Host} {w v : Workspace} {version : String} {us : List SourceUnit} {l : Location}

theorem planFor_of_dropped (hus : r.enumerate w = .ok us)
    (hs : ((Store.loadOrEmpty w r.cachePath).validateTags r.settings.analysis.ruleSetId
      version).1.entries = .empty) :
    ∃ s, r.planFor version w = .ok (r.replan version us ((Store.loadOrEmpty w r.cachePath).isOutdated
      r.settings.analysis.ruleSetId version), s) := by
  unfold planFor classify
  rw [hus]
  dsimp only
  rw [Classification.ofUnits_empty hs]
  exact ⟨_, rfl⟩

theorem enumerate_toOption (hdb : (v.readText (r.resolve r.settings.compileDb.path)).toOption =
    (w.readText (r.resolve r.settings.compileDb.path)).toOption) :
    (r.enumerate v).toOption = (r.enumerate w).toOption := by
  unfold enumerate SourceUnit.enumerate
  dsimp only
  rcases cases_of_toOption hdb with ⟨e, e', hw, hv⟩ | ⟨text, hw, hv⟩
  · rw [hw, hv]
    rfl
  · rw [hw, hv]

/-! ## with a file of no use, and with none -/

/-- where plans are made: in one place the file of the store is missing, in the other it is of no use;
the database is another file -/
structure Damaged (r : Runner) (l : Location) (version : String) (w v : Workspace) : Prop where
  missing : w.node? l = none
  unusable : ∃ content T x, v.find r.cachePath = .ok (l, .file content T x) ∧
    Store.Unusable r.settings.analysis.ruleSetId version content
  database : ∀ n, v.find (r.resolve r.settings.compileDb.path) ≠ .ok (l, n)

namespace Damaged

variable (hd : r.Damaged l version w v) (hsame : SameBut l w v)
include hd hsame

/-- the units are the same -/
theorem enumerate : (r.enumerate v).toOption = (r.enumerate w).toOption := by
  refine enumerate_toOption ?_
  rw [readText_toOption, readText_toOption, hsame.find_toOption ?_ hd.database]
  intro n hf
  have hnode := node_of_find hf
  rw [hd.missing] at hnode
  contradiction

/-- where the file is missing, there is no store -/
theorem load_missing : Store.loadOrEmpty w r.cachePath = {} := by
  obtain ⟨content, T, x, hfile, _⟩ := hd.unusable
  rw [Store.loadOrEmpty_eq]
  cases hf : w.find r.cachePath with
  | error e => rfl
  | ok found =>
    obtain ⟨m, n⟩ := found
    have hnode := node_of_find hf
    by_cases hm : m = l
    · rw [hm, hd.missing] at hnode
      contradiction
    · exact absurd (found_unique hfile (hsame.find hm hf)).1 hm

/-- all is to be analyzed, in both places -/
theorem planFor :
    (∃ e e', r.planFor version w = .error e ∧ r.planFor version v = .error e') ∨
      ∃ us invalidated s s', r.planFor version w = .ok (r.replan version us false, s) ∧
        r.planFor version v = .ok (r.replan version us invalidated, s') := by
  obtain ⟨content, T, x, hfile, hunusable⟩ := hd.unusable
  have herror {u : Workspace} {e : RunError} (he : r.enumerate u = .error e) :
      r.planFor version u = .error e := by
    unfold Runner.planFor
    rw [he]
  rcases cases_of_toOption (hd.enumerate hsame) with ⟨e, e', hw, hv⟩ | ⟨us, hw, hv⟩
  · exact Or.inl ⟨e, e', herror hw, herror hv⟩
  · have hempty := hd.load_missing hsame
    have hdropped := hunusable.dropped T x
    rw [← Store.loadOrEmpty_of_find hfile] at hdropped
    have hnone : ((Store.loadOrEmpty w r.cachePath).validateTags r.settings.analysis.ruleSetId
        version).1.entries = .empty := by
      rw [hempty]
      exact Store.validateTags_dropped (Or.inl rfl)
    obtain ⟨s, hplan⟩ := planFor_of_dropped hw hnone
    obtain ⟨s', hplan'⟩ := planFor_of_dropped hv hdropped
    rw [hempty] at hplan
    exact Or.inr ⟨us, _, s, s', hplan, hplan'⟩

end Damaged

end

/-! ## commands that do not look -/

/-- neither the commands of a run nor its jobs go by what is in a file -/
structure Ignores (r : Runner) (h : Host) (l : Location) : Prop where
  generate : ∀ {w v w₁ v₁ a a'}, SameBut l w v → r.generate h w = (w₁, a) → r.generate h v = (v₁, a') →
    a' = a ∧ SameBut l w₁ v₁
  toolVersion : ∀ {w v w₁ v₁ a a'}, SameBut l w v → r.toolVersion h w = (w₁, a) →
    r.toolVersion h v = (v₁, a') → a' = a ∧ SameBut l w₁ v₁
  jobs : ∀ {p b w v}, (r.dispatch h p).batch? p.staleUnits = some b → SameBut l w v →
    (h.executor b v).2 = (h.executor b w).2

/-- two places to start from that differ in the file of the store, which is missing in one and of no
use in the other when plans are made -/
structure Differ (r : Runner) (h : Host) (l : Location) (w v : Workspace) : Prop where
  same : SameBut l w v
  plan : ∀ {version w₁ v₁}, r.toolVersion h w = (w₁, .ok version) →
    r.toolVersion h v = (v₁, .ok version) → r.Damaged l version w₁ v₁
  run : ∀ {version w₁ v₁}, r.front h w = (w₁, .ok version) → r.front h v = (v₁, .ok version) →
    r.Damaged l version w₁ v₁

/-- two plans to analyze everything, or none -/
def ReplansAlike (r : Runner) (plan plan' : Except RunError Plan) : Prop :=
  (∃ e e', plan = .error e ∧ plan' = .error e') ∨
    ∃ version us invalidated, plan = .ok (r.replan version us false) ∧
      plan' = .ok (r.replan version us invalidated)

/-- two runs that do the same, analyze everything, and say the same of it -/
structure RerunsAlike (r : Runner) (result result' : Result) : Prop extends r.Alike result result' where
  full : ∀ S, result.summary = .ok S ∨ result'.summary = .ok S →
    S.cached = 0 ∧ S.dispatched = S.report.total
  summaries : ∀ S S', result.summary = .ok S → result'.summary = .ok S' →
    S' = { S with invalidated := S'.invalidated }

/-- a file with a store that has entries, and a tag of which differs -/
def Drops (r : Runner) (w : Workspace) (rules tool : String) : Prop :=
  ∃ s, Store.load w r.cachePath = .ok s ∧ s.isEmpty = false ∧
    (s.ruleSetId ≠ rules ∨ s.toolVersionId ≠ tool)

section
variable {r : Runner} {h : Host} {l : Location} {w w₁ v : Workspace} {p : Plan} {S : Summary}
  {version : String}

theorem Ignores.front (hi : r.Ignores h l) {w₁ v₁ : Workspace} {a a' : Except RunError String}
    (hsame : SameBut l w v) (hw : r.front h w = (w₁, a)) (hv : r.front h v = (v₁, a')) :
    a' = a ∧ SameBut l w₁ v₁ := by
  unfold Runner.front at hw hv
  cases hgw : r.generate h w with
  | mk w₀ g =>
    cases hgv : r.generate h v with
    | mk v₀ g' =>
      obtain ⟨rfl, hsame₀⟩ := hi.generate hsame hgw hgv
      rw [hgw] at hw
      rw [hgv] at hv
      cases g' with
      | error e =>
        obtain ⟨rfl, rfl⟩ := Prod.mk.inj hw
        obtain ⟨rfl, rfl⟩ := Prod.mk.inj hv
        exact ⟨rfl, hsame₀⟩
      | ok _ => exact hi.toolVersion hsame₀ hw hv

namespace Differ

variable (hd : r.Differ h l w v) (hi : r.Ignores h l)
include hd hi

theorem replans : r.ReplansAlike (r.plan h w).2 (r.plan h v).2 := by
  unfold Runner.plan
  cases hw : r.toolVersion h w with
  | mk w₁ a =>
    cases hv : r.toolVersion h v with
    | mk v₁ a' =>
      obtain ⟨rfl, hsame⟩ := hi.toolVersion hd.same hw hv
      cases a' with
      | error e => exact Or.inl ⟨e, e, rfl, rfl⟩
      | ok version =>
        dsimp only
        rcases (hd.plan hw hv).planFor hsame with ⟨e, e', hplan, hplan'⟩ | ⟨us, invalidated, s, s', hplan, hplan'⟩
        · rw [hplan, hplan']
          exact Or.inl ⟨e, e', rfl, rfl⟩
        · rw [hplan, hplan']
          exact Or.inr ⟨version, us, invalidated, rfl, rfl⟩

/-- in front of the analysis, both fail, or both plan to analyze everything -/
theorem prepare : (∃ w₁ v₁ e e', r.prepare h w = (w₁, .error e) ∧ r.prepare h v = (v₁, .error e')) ∨
    ∃ w₁ v₁ version us invalidated s s',
      r.prepare h w = (w₁, .ok (r.replan version us false, s)) ∧
      r.prepare h v = (v₁, .ok (r.replan version us invalidated, s')) ∧
      r.Twins h w₁ v₁ (r.replan version us false) (r.replan version us invalidated) s s' := by
  rw [prepare_front, prepare_front]
  cases hw : r.front h w with
  | mk w₁ a =>
    cases hv : r.front h v with
    | mk v₁ a' =>
      obtain ⟨rfl, hsame⟩ := hi.front hd.same hw hv
      cases a' with
      | error e => exact Or.inl ⟨w₁, v₁, e, e, rfl, rfl⟩
      | ok version =>
        dsimp only
        rcases (hd.run hw hv).planFor hsame with ⟨e, e', hplan, hplan'⟩ | ⟨us, invalidated, s, s', hplan, hplan'⟩
        · rw [hplan, hplan']
          exact Or.inl ⟨w₁, v₁, e, e', rfl, rfl⟩
        · refine Or.inr ⟨w₁, v₁, version, us, invalidated, s, s', by rw [hplan], by rw [hplan'], ?_⟩
          exact ⟨(planFor_ok hplan).1, (planFor_ok hplan').1, .refl us, rfl, rfl, fun b hb => hi.jobs hb hsame⟩

theorem reruns : r.RerunsAlike (r.run h w) (r.run h v) := by
  rcases hd.prepare hi with ⟨w₁, v₁, e, e', hp, hp'⟩ | ⟨w₁, v₁, version, us, invalidated, s, s', hp, hp', ht⟩
  · have halike := alike_of_errors hp hp'
    rw [run_of_error hp, run_of_error hp'] at halike ⊢
    refine ⟨halike, fun S hS => ?_, fun S _ hS => ?_⟩
    · rcases hS with hS | hS
      · contradiction
      · contradiction
    · contradiction
  · have hfull {S : Summary} {u u₁ : Workspace} {b : Bool} {t : Store}
        (hp : r.prepare h u = (u₁, .ok (r.replan version us b, t))) (hS : (r.run h u).summary = .ok S) :
        S.cached = 0 ∧ S.dispatched = S.report.total := by
      have hcached : S.cached = 0 := by
        rw [summary_of_prepare hp hS]
        rfl
      have htotal := (accounted_of_prepare hp hS).counted.2.2.1
      rw [hcached, Nat.zero_add] at htotal
      exact ⟨hcached, htotal⟩
    refine ⟨ht.alike hp hp', fun S hS => hS.elim (hfull hp) (hfull hp'), fun S S' hS hS' => ?_⟩
    have hreport := ht.reports hp hp' rfl hS hS'
    rw [summary_of_prepare hp hS, summary_of_prepare hp' hS'] at hreport ⊢
    dsimp only at hreport ⊢
    rw [hreport]
    rfl

end Differ

/-! ## when entries are dropped -/

theorem isOutdated_loaded_iff {rules tool : String} :
    (Store.loadOrEmpty w r.cachePath).isOutdated rules tool = true ↔ r.Drops w rules tool := by
  unfold Drops Store.loadOrEmpty
  cases hload : Store.load w r.cachePath with
  | error e =>
    refine iff_of_false (fun hout => ?_) ?_
    · have hempty : ({} : Store).isEmpty = true := rfl
      rw [(Store.isOutdated_iff.mp hout).1] at hempty
      contradiction
    · rintro ⟨s, hs, _⟩
      contradiction
  | ok s =>
    refine Store.isOutdated_iff.trans ⟨fun hout => ⟨s, rfl, hout⟩, ?_⟩
    rintro ⟨s', hs', hout⟩
    obtain rfl := Except.ok.inj hs'
    exact hout

theorem plan_invalidated_iff (hp : r.plan h w = (w₁, .ok p)) :
    p.invalidated = true ↔ r.Drops w₁ p.ruleSetId p.toolVersionId := by
  unfold Runner.plan at hp
  cases hv : r.toolVersion h w with
  | mk w₂ a =>
    rw [hv] at hp
    cases a with
    | error e => exact absurd (Prod.mk.inj hp).2 (by simp)
    | ok version =>
      obtain ⟨rfl, hplan⟩ := Prod.mk.inj hp
      cases hmade : r.planFor version w₂ with
      | error e =>
        rw [hmade] at hplan
        contradiction
      | ok made =>
        rw [hmade] at hplan
        obtain ⟨p', s⟩ := made
        obtain rfl : p' = p := Except.ok.inj hplan
        rw [planFor_invalidated hmade, isOutdated_loaded_iff]

theorem run_invalidated_iff (hf : r.front h w = (w₁, .ok version)) (hS : (r.run h w).summary = .ok S) :
    S.invalidated = true ↔ r.Drops w₁ S.ruleSetId S.toolVersionId := by
  obtain ⟨w₂, p, s, hp, _⟩ := run_ok hS
  have hplan := hp
  rw [prepare_front, hf] at hplan
  obtain ⟨rfl, hmade⟩ := Prod.mk.inj hplan
  rw [summary_of_prepare hp hS]
  dsimp only
  rw [planFor_invalidated hmade, isOutdated_loaded_iff]

/-! ## what such a file costs -/

/-- a store of no use costs the analysis of everything, as a missing one does, and nothing else: the
two plans and the two runs are alike but for the note that entries were dropped, which is made exactly
if the file holds a store with entries and another tag -/
theorem unusable_store_costs_rerun (hi : r.Ignores h l) (hd : r.Differ h l w v) :
    r.ReplansAlike (r.plan h w).2 (r.plan h v).2 ∧ r.RerunsAlike (r.run h w) (r.run h v) ∧
      (∀ u u₁ p, r.plan h u = (u₁, .ok p) →
        (p.invalidated = true ↔ r.Drops u₁ p.ruleSetId p.toolVersionId)) ∧
      ∀ u u₁ version S, r.front h u = (u₁, .ok version) → (r.run h u).summary = .ok S →
        (S.invalidated = true ↔ r.Drops u₁ S.ruleSetId S.toolVersionId) :=
  ⟨hd.replans hi, hd.reruns hi, fun _ _ _ hp => plan_invalidated_iff hp,
    fun _ _ _ _ hf hS => run_invalidated_iff hf hS⟩

end

end Runner

/-! ## a project with the store of other rules -/

/-- a success under other rules -/
def oneOther : Store where
  entries := .ofList [("a.cc", ⟨0, "ok"⟩)]
  ruleSetId := "other"
  toolVersionId := "1"

def oneDamaged : Workspace := oneWorkspace.put ["c"] (.file (Utf8.encode oneOther.text) 3 false)

theorem one_damaged_node : oneDamaged.node? ["c"] = some (.file (Utf8.encode oneOther.text) 3 false) ∧
    oneDamaged.node? ["db"] = some (.file (Utf8.encode (Json.pretty oneDb)) 0 false) := by
  obtain ⟨_, _, hdb, _⟩ := one_nodes
  rw [oneDamaged, node?_put, node?_put, if_pos rfl, if_neg (by decide)]
  exact ⟨rfl, hdb⟩

theorem one_ignores (l : Location) : oneRunner.Ignores oneHost l := by
  refine ⟨fun {w v w₁ v₁ a a'} hsame hw hv => ?_, fun {w v w₁ v₁ a a'} hsame hw hv => ?_, fun _ _ => rfl⟩
  · obtain ⟨rfl, rfl⟩ := Prod.mk.inj hw
    obtain ⟨rfl, rfl⟩ := Prod.mk.inj hv
    exact ⟨rfl, hsame⟩
  · obtain ⟨rfl, rfl⟩ := Prod.mk.inj ((one_toolVersion w).symm.trans hw)
    obtain ⟨rfl, rfl⟩ := Prod.mk.inj ((one_toolVersion v).symm.trans hv)
    exact ⟨rfl, hsame⟩

theorem one_differ : oneRunner.Differ oneHost ["c"] oneWorkspace oneDamaged := by
  obtain ⟨_, hc, _⟩ := one_nodes
  obtain ⟨hother, hdb⟩ := one_damaged_node
  have hsame : SameBut ["c"] oneWorkspace oneDamaged := by
    refine ⟨rfl, rfl, fun m hm => ?_, fun n hn => ?_, fun n hn => ?_⟩
    · rw [oneDamaged, node?_put, if_neg hm]
    · exact absurd (hc.symm.trans hn) (by simp)
    · rw [hother] at hn
      exact ⟨_, _, _, (Option.some.inj hn).symm⟩
  have hdamaged : oneRunner.Damaged ["c"] "1" oneWorkspace oneDamaged := by
    refine ⟨hc, ⟨_, _, _, find_top (by decide) hother rfl rfl, ?_⟩, fun n hn => ?_⟩
    · exact .otherTags (Utf8.decode?_encode _) (Store.ofText?_text _ _) (Or.inl (by decide))
    · have hfound := find_top (by decide) hdb rfl rfl
      exact absurd (found_unique hfound hn).1 (by decide)
  have hfront (w : Workspace) : oneRunner.front oneHost w = (w, .ok "1") := one_toolVersion w
  refine ⟨hsame, fun hw hv => ?_, fun hw hv => ?_⟩
  · obtain ⟨rfl, hversion⟩ := Prod.mk.inj ((one_toolVersion _).symm.trans hw)
    obtain ⟨rfl, _⟩ := Prod.mk.inj ((one_toolVersion _).symm.trans hv)
    obtain rfl := Except.ok.inj hversion
    exact hdamaged
  · obtain ⟨rfl, hversion⟩ := Prod.mk.inj ((hfront _).symm.trans hw)
    obtain ⟨rfl, _⟩ := Prod.mk.inj ((hfront _).symm.trans hv)
    obtain rfl := Except.ok.inj hversion
    exact hdamaged

/-- the entry under other rules is dropped, and all goes on as if there were none -/
theorem one_unusable_store_costs_rerun :
    oneRunner.ReplansAlike (oneRunner.plan oneHost oneWorkspace).2 (oneRunner.plan oneHost oneDamaged).2 ∧
      oneRunner.RerunsAlike (oneRunner.run oneHost oneWorkspace) (oneRunner.run oneHost oneDamaged) ∧
      ∃ p, (oneRunner.plan oneHost oneDamaged).2 = .ok p ∧ p.units = [oneUnit] ∧ p.invalidated = true := by
  obtain ⟨hother, hdb⟩ := one_damaged_node
  obtain ⟨hplans, hruns, hdrops, _⟩ := Runner.unusable_store_costs_rerun (one_ignores ["c"]) one_differ
  obtain ⟨p, s, hplan, hus⟩ := Runner.exists_planFor (one_enumerate hdb) "1"
  have hp : oneRunner.plan oneHost oneDamaged = (oneDamaged, .ok p) := by
    unfold Runner.plan
    rw [one_toolVersion]
    dsimp only
    rw [hplan]
    rfl
  refine ⟨hplans, hruns, p, congrArg Prod.snd hp, hus, (hdrops _ _ p hp).mpr ?_⟩
  have hrules := (Runner.planFor_ok hplan).1.rules
  refine ⟨_, Store.load_of_file (find_top (by decide) hother rfl rfl), rfl, Or.inl ?_⟩
  rw [hrules]
  decide

end IncrementalLint
