import IncrementalLint.Proofs.Files.Spelling
import IncrementalLint.Proofs.Run

/-!
# A file that is touched

A file that gets another time goes on being found by the same paths, and holds what it held. So the
decision about a unit can change only if the unit goes by the file: because the file is its listing,
or because the listing names it, in whatever spelling. A time later than the store makes all of these
units stale.

* `Workspace.SameNode`       two paths lead to one node;
* `Touched`                  two workspaces that differ in the time of one file;
* `setModified_touched`      how they come about;
* `SourceUnit.GoesBy`        a unit goes by a file;
* `Touched.decisionFor_eq`   of other units, the decision stays;
* `Touched.cached_iff`       and these units are not reused;
* `Runner.classify_touched`  what becomes of a whole classification.
-/

namespace IncrementalLint

open Workspace

/-! ## one file touched -/

/-- two paths lead to one node -/
def Workspace.SameNode (w : Workspace) (p q : Path) : Prop := ∃ x, w.find p = .ok x ∧ w.find q = .ok x

/-- two workspaces that differ in the time of one file -/
structure Touched (w w' : Workspace) (p : Path) (t : Time) : Prop where
  text : ∀ q, (w'.readText q).toOption = (w.readText q).toOption
  here : ∀ q, w.SameNode q p → w'.modified q = .ok t
  elsewhere : ∀ q, ¬w.SameNode q p → (w'.modified q).toOption = (w.modified q).toOption

section
variable {w w' : Workspace} {p q : Path} {l : Location} {c : ByteArray} {t t₀ : Time} {x : Bool}

theorem sameBut_touch (hn : w.node? l = some (.file c t₀ x)) : SameBut l w (w.put l (.file c t x)) := by
  have hself : (w.put l (.file c t x)).node? l = some (.file c t x) := by rw [node?_put, if_pos rfl]
  refine ⟨rfl, rfl, fun m hm => ?_, fun n hn' => ⟨c, t₀, x, ?_⟩, fun n hn' => ⟨c, t, x, ?_⟩⟩
  · rw [node?_put, if_neg hm]
  · exact Option.some.inj (hn'.symm.trans hn)
  · exact Option.some.inj (hn'.symm.trans hself)

/-- what is found at the file, and what is found elsewhere -/
theorem find_touch (hn : w.node? l = some (.file c t₀ x)) (q : Path) :
    (w.find q = .ok (l, .file c t₀ x) ∧ (w.put l (.file c t x)).find q = .ok (l, .file c t x)) ∨
      ((∀ n, w.find q ≠ .ok (l, n)) ∧ ((w.put l (.file c t x)).find q).toOption = (w.find q).toOption) := by
  have hsame : SameBut l w (w.put l (.file c t x)) := sameBut_touch hn
  have hself : (w.put l (.file c t x)).node? l = some (.file c t x) := by rw [node?_put, if_pos rfl]
  by_cases hhere : ∃ n, w.find q = .ok (l, n)
  · obtain ⟨n, hf⟩ := hhere
    obtain rfl := Option.some.inj (hn.symm.trans (node_of_find hf))
    exact Or.inl ⟨hf, hsame.find_here hf hself⟩
  · rw [not_exists] at hhere
    refine Or.inr ⟨hhere, hsame.find_toOption hhere fun n hf => ?_⟩
    exact hhere _ (hsame.symm.find_here hf hn)

theorem touched_put (hf : w.find p = .ok (l, .file c t₀ x)) : Touched w (w.put l (.file c t x)) p t := by
  have hn := node_of_find hf
  refine ⟨fun q => ?_, fun q hq => ?_, fun q hq => ?_⟩
  · rw [readText_toOption, readText_toOption]
    rcases find_touch (t := t) hn q with ⟨hq, hq'⟩ | ⟨_, hq⟩
    · rw [hq, hq']
      rfl
    · rw [hq]
  · obtain ⟨y, hy, hy'⟩ := hq
    obtain rfl := Except.ok.inj (hf.symm.trans hy')
    rcases find_touch (t := t) hn q with ⟨_, hq'⟩ | ⟨hnot, _⟩
    · exact modified_eq_ok_iff.mpr ⟨_, _, hq', rfl⟩
    · exact absurd hy (hnot _)
  · rcases find_touch (t := t) hn q with ⟨hq', _⟩ | ⟨_, hq'⟩
    · exact absurd ⟨_, hq', hf⟩ hq
    · rw [modified_toOption, modified_toOption, hq']

theorem setModified_touched (hp : w.isFile p = true) (t : Time) :
    ∃ w', w.setModified p t = (w', .ok ()) ∧ Touched w w' p t := by
  unfold isFile at hp
  split at hp
  next l c t₀ x hf =>
    refine ⟨w.put l (.file c t x), ?_, touched_put hf⟩
    rw [setModified, hf]
    rfl
  next => contradiction

end

/-! ## units that go by it -/

/-- a file is the listing of a unit, or is named there as seen from the directory of the unit -/
def SourceUnit.GoesBy (u : SourceUnit) (w : Workspace) (listingDir file : Path) : Prop :=
  w.SameNode (u.listing listingDir) file ∨
    ∃ text, w.readText (u.listing listingDir) = .ok text ∧
      ∃ f ∈ (Listing.parse text).paths, w.SameNode (u.directory.join f) file

section
variable {w w' : Workspace} {p dir : Path} {s : Store} {u : SourceUnit} {t T : Time}

open Classification

/-- the decision about a unit that does not go by the file stays -/
theorem Touched.decisionFor_eq (h : Touched w w' p t) (hu : ¬u.GoesBy w dir p) :
    decisionFor w' dir s u = decisionFor w dir s u := by
  refine decideUnit_congr_listed (h.elsewhere _ fun hl => hu (Or.inl hl)) (h.text _) ?_ u.id s
  intro text htext f hf
  exact h.elsewhere _ fun hsame => hu (Or.inr ⟨text, htext, f, hf, hsame⟩)

/-- a unit that goes by the file is not reused, if the file is younger than the store now -/
theorem Touched.not_cached (h : Touched w w' p t) (hT : s.reference = some T) (ht : T < t)
    (hu : u.GoesBy w dir p) (o : Outcome) : decisionFor w' dir s u ≠ .cached o := by
  intro hd
  obtain ⟨_, _, T', l, n, text, hT', hf, hn, hold, hfiles⟩ := decideUnit_cached_iff_found.mp hd
  obtain rfl := Option.some.inj (hT.symm.trans hT')
  have hlate {q : Path} {k : Location} {m : Node} (hq : w.SameNode q p) (hk : w'.find q = .ok (k, m)) :
      T < m.modified := by
    obtain ⟨k', m', hk', rfl⟩ := modified_eq_ok_iff.mp (h.here q hq)
    obtain ⟨_, rfl⟩ := found_unique hk hk'
    exact ht
  rcases hu with hlisting | ⟨text', htext', f, hmem, hsame⟩
  · exact absurd (hlate hlisting hf) (Int.not_lt.mpr (Int.le_of_lt hold))
  · -- the file is named by the text that was there before: touching has not changed it
    have htext : w'.readText (u.listing dir) = .ok text := readText_eq_ok_iff.mpr ⟨l, n, hf, hn⟩
    have hsametext := h.text (u.listing dir)
    rw [htext, htext'] at hsametext
    obtain rfl := Option.some.inj hsametext
    obtain ⟨k, m, hk, hm⟩ := hfiles f hmem
    exact absurd (hlate hsame hk) (Int.not_lt.mpr hm)

theorem Touched.cached_iff (h : Touched w w' p t) (hT : s.reference = some T) (ht : T < t) {o : Outcome} :
    decisionFor w' dir s u = .cached o ↔ decisionFor w dir s u = .cached o ∧ ¬u.GoesBy w dir p := by
  constructor
  · intro hd
    have hu : ¬u.GoesBy w dir p := fun hgoes => h.not_cached hT ht hgoes o hd
    exact ⟨(h.decisionFor_eq hu).symm.trans hd, hu⟩
  · rintro ⟨hd, hu⟩
    exact (h.decisionFor_eq hu).trans hd

/-- when a file is touched, the units that go by it become stale, and no others change -/
theorem Runner.classify_touched {r : Runner} {us : List SourceUnit} (hd : (us.map (·.id)).Nodup)
    (hT : s.reference = some T) (hp : w.isFile p = true) (ht : T < t) :
    ∃ w', w.setModified p t = (w', .ok ()) ∧
      (∀ id o, (r.classify w' us s).cached.get? id = some o ↔
        (r.classify w us s).cached.get? id = some o ∧
          ∀ u ∈ us, u.id = id → ¬u.GoesBy w r.listingDir p) ∧
      (∀ u ∈ us, u.GoesBy w r.listingDir p → ∃ reason, ⟨u.id, reason⟩ ∈ (r.classify w' us s).stale) ∧
      ∀ u ∈ us, ¬u.GoesBy w r.listingDir p →
        decisionFor w' r.listingDir s u = decisionFor w r.listingDir s u ∧
          ∀ reason, ⟨u.id, reason⟩ ∈ (r.classify w' us s).stale ↔
            ⟨u.id, reason⟩ ∈ (r.classify w us s).stale := by
  obtain ⟨w', hset, htouched⟩ := setModified_touched hp t
  have hcached (v : Workspace) (id : String) (o : Outcome) :
      (r.classify v us s).cached.get? id = some o ↔
        ∃ u ∈ us, u.id = id ∧ decisionFor v r.listingDir s u = .cached o := get?_cached hd
  have hstale (v : Workspace) {u : SourceUnit} (hu : u ∈ us) (reason : StaleReason) :
      ⟨u.id, reason⟩ ∈ (r.classify v us s).stale ↔ decisionFor v r.listingDir s u = .stale reason :=
    mem_stale_iff hd hu
  refine ⟨w', hset, fun id o => ?_, fun u hu hgoes => ?_, fun u hu hnot => ?_⟩
  · rw [hcached, hcached]
    constructor
    · rintro ⟨u, hu, hid, h⟩
      obtain ⟨hbefore, hnot⟩ := (htouched.cached_iff hT ht).mp h
      refine ⟨⟨u, hu, hid, hbefore⟩, fun u' hu' hid' => ?_⟩
      obtain rfl := List.inj_on_of_nodup_map hd hu hu' (hid.trans hid'.symm)
      exact hnot
    · rintro ⟨⟨u, hu, hid, hbefore⟩, hnot⟩
      exact ⟨u, hu, hid, (htouched.cached_iff hT ht).mpr ⟨hbefore, hnot u hu hid⟩⟩
  · cases h : decisionFor w' r.listingDir s u with
    | cached o => exact absurd h (htouched.not_cached hT ht hgoes o)
    | stale reason => exact ⟨reason, (hstale w' hu reason).mpr h⟩
  · have hsame := htouched.decisionFor_eq (s := s) hnot
    refine ⟨hsame, fun reason => ?_⟩
    rw [hstale w' hu, hstale w hu, hsame]

end

/-! ## one of two units -/

def otherUnit : SourceUnit := ⟨"b.cc", ⟨"/b.cc"⟩, "cc", ⟨"/"⟩⟩

/-- the project with one unit, and another unit beside it -/
def twoWorkspace : Workspace :=
  (oneWorkspace.put ["b.cc"] (.file (Utf8.encode "") 0 false)).put ["b.cc.d"]
    (.file (Utf8.encode "b.o: b.cc") 0 false)

/-- successes of both, saved at time 5 -/
def twoStore : Store where
  entries := .ofList [("a.cc", ⟨0, "ok"⟩), ("b.cc", ⟨0, "fine"⟩)]
  reference := some 5

theorem two_finds :
    twoWorkspace.find ⟨"/a.cc"⟩ = .ok (["a.cc"], .file (Utf8.encode "") 0 false) ∧
      twoWorkspace.find ⟨"/a.cc.d"⟩ = .ok (["a.cc.d"], .file (Utf8.encode "a.o: a.cc") 0 false) ∧
      twoWorkspace.find ⟨"/b.cc"⟩ = .ok (["b.cc"], .file (Utf8.encode "") 0 false) ∧
      twoWorkspace.find ⟨"/b.cc.d"⟩ = .ok (["b.cc.d"], .file (Utf8.encode "b.o: b.cc") 0 false) := by
  have hfind {name text : String} (path : Path) (hpath : path = top name) (hname : Single name)
      (hn : twoWorkspace.node? [name] = some (.file (Utf8.encode text) 0 false)) :
      twoWorkspace.find path = .ok ([name], .file (Utf8.encode text) 0 false) := by
    rw [hpath]
    exact find_top hname hn rfl rfl
  obtain ⟨_, _, _, hcode, hlisting⟩ := one_nodes
  refine ⟨hfind _ (by decide) (by decide) ?_, hfind _ (by decide) (by decide) ?_,
    hfind _ (by decide) (by decide) ?_, hfind _ (by decide) (by decide) ?_⟩
  · simpa [twoWorkspace, node?_put] using hcode
  · simpa [twoWorkspace, node?_put] using hlisting
  · simp [twoWorkspace, node?_put]
  · simp [twoWorkspace, node?_put]

theorem other_cached :
    Classification.decisionFor twoWorkspace oneRunner.listingDir twoStore otherUnit = .cached ⟨0, "fine"⟩ := by
  obtain ⟨_, _, hcode, hlisting⟩ := two_finds
  refine decideUnit_cached_iff_found.mpr ⟨by decide, by decide, 5, _, _, _, rfl, hlisting,
    Utf8.decode?_encode _, by decide, fun f hf => ?_⟩
  rw [show PathSet.paths (Listing.parse "b.o: b.cc") = [⟨"b.cc"⟩] by decide] at hf
  obtain rfl := List.mem_singleton.mp hf
  exact ⟨_, _, hcode, by decide⟩

/-- another spelling of the path of `a.cc` -/
theorem two_find_spelled :
    twoWorkspace.find ⟨"/./a.cc"⟩ = .ok (["a.cc"], .file (Utf8.encode "") 0 false) :=
  find_of_alike (Path.alike_of_components (by decide)) (by decide) (by decide) two_finds.1

theorem other_apart : ¬otherUnit.GoesBy twoWorkspace oneRunner.listingDir ⟨"/./a.cc"⟩ := by
  obtain ⟨_, _, hcode, hlisting⟩ := two_finds
  have hother {q : Path} {l : Location} {n : Node} (hq : twoWorkspace.find q = .ok (l, n))
      (hl : l ≠ ["a.cc"]) : ¬twoWorkspace.SameNode q ⟨"/./a.cc"⟩ := by
    rintro ⟨y, hy, hy'⟩
    obtain rfl := Except.ok.inj (hy.symm.trans hq)
    exact hl (found_unique two_find_spelled hy').1
  rintro (hsame | ⟨text, htext, f, hf, hsame⟩)
  · exact hother hlisting (by decide) hsame
  · obtain ⟨l, n, hl, hn⟩ := readText_eq_ok_iff.mp htext
    obtain ⟨_, rfl⟩ := found_unique hlisting hl
    obtain rfl := Option.some.inj (hn.symm.trans (Utf8.decode?_encode "b.o: b.cc"))
    rw [show PathSet.paths (Listing.parse "b.o: b.cc") = [⟨"b.cc"⟩] by decide] at hf
    obtain rfl := List.mem_singleton.mp hf
    exact hother hcode (by decide) hsame

/-- `a.cc` is touched under another spelling of its path: only the unit whose listing names it is
affected -/
theorem one_of_two_touched :
    ∃ w', twoWorkspace.setModified ⟨"/./a.cc"⟩ 9 = (w', .ok ()) ∧
      (oneRunner.classify w' [oneUnit, otherUnit] twoStore).cached.get? "a.cc" = none ∧
      (oneRunner.classify w' [oneUnit, otherUnit] twoStore).cached.get? "b.cc" = some ⟨0, "fine"⟩ := by
  obtain ⟨hcode, hlisting, _, _⟩ := two_finds
  have hfile : twoWorkspace.isFile ⟨"/./a.cc"⟩ = true := by rw [isFile, two_find_spelled]
  have hd : ([oneUnit, otherUnit].map (·.id)).Nodup := by decide
  obtain ⟨w', hset, hcached, _, _⟩ :=
    Runner.classify_touched (r := oneRunner) (s := twoStore) (T := 5) (t := 9) hd rfl hfile (by decide)
  refine ⟨w', hset, ?_, ?_⟩
  · have hgoes : oneUnit.GoesBy twoWorkspace oneRunner.listingDir ⟨"/./a.cc"⟩ := by
      refine Or.inr ⟨"a.o: a.cc", ?_, ⟨"a.cc"⟩, by decide, _, hcode, two_find_spelled⟩
      exact readText_eq_ok_iff.mpr ⟨_, _, hlisting, Utf8.decode?_encode _⟩
    cases hget : (oneRunner.classify w' [oneUnit, otherUnit] twoStore).cached.get? "a.cc" with
    | none => rfl
    | some o => exact absurd hgoes (((hcached _ _).mp hget).2 oneUnit (by decide) rfl)
  · have hbefore : (oneRunner.classify twoWorkspace [oneUnit, otherUnit] twoStore).cached.get? "b.cc" =
        some ⟨0, "fine"⟩ :=
      (Classification.get?_cached hd).mpr ⟨otherUnit, by decide, rfl, other_cached⟩
    refine (hcached _ _).mpr ⟨hbefore, fun u hu hid => ?_⟩
    obtain rfl := List.inj_on_of_nodup_map hd hu (show otherUnit ∈ _ by decide) hid
    exact other_apart

end IncrementalLint
