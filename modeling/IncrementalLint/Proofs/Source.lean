import IncrementalLint.Proofs.Files.Spelling
import IncrementalLint.Proofs.Run

/-!
# Units whose own source changed

Whether a unit can be reused is decided by the files that its listing names. Its source is one of
them, as compilers write listings; nothing else makes a run look at it.

* `Listing.Names`                   a listing names a file: one of its paths leads there;
* `Listing.names_of_word`           it does where one of its words spells the path of the file;
* `Runner.stale_of_source_changed`  a unit whose listing names its source is stale once the source is
                                    missing, or younger than the store.
-/

namespace IncrementalLint

open Workspace

/-! ## what a listing names -/

/-- wherever `p` leads, `q` leads there, too -/
def Workspace.Denotes (w : Workspace) (p q : Path) : Prop :=
  ∀ l n, w.find p = .ok (l, n) → w.find q = .ok (l, n)

/-- one of the paths of a listing, as seen from a directory, denotes a file -/
def Listing.Names (w : Workspace) (dir : Path) (text : String) (file : Path) : Prop :=
  ∃ f ∈ (Listing.parse text).paths, w.Denotes (dir.join f) file

section
variable {w : Workspace} {s : Store} {T : Time} {u : SourceUnit} {dir file : Path} {text : String}

/-- a listing keeps one spelling of each path in it -/
theorem Listing.kept_spelling {word : List Char} (h : word ∈ Listing.words text.toList) :
    ∃ f ∈ (Listing.parse text).paths, f.Alike ⟨String.ofList word⟩ := by
  have hmem : ((⟨String.ofList word⟩ : Path).components, (⟨String.ofList word⟩ : Path)) ∈
      ((words text.toList).map fun w => (⟨String.ofList w⟩ : Path)).map fun p => (p.components, p) :=
    List.mem_map_of_mem (List.mem_map_of_mem h)
  obtain ⟨f, hf⟩ := SortedMap.exists_get?_ofList hmem
  refine ⟨f, ?_, ?_⟩
  · exact List.mem_map.mpr ⟨_, (SortedMap.mem_toList_iff _ _ _).mpr hf, rfl⟩
  · obtain ⟨g, _, hg⟩ := List.mem_map.mp (SortedMap.mem_of_get?_ofList hf)
    obtain ⟨hcomponents, rfl⟩ := Prod.mk.inj hg
    exact Path.alike_of_components hcomponents

/-- a word of a text that spells the path of a file, in whatever way, names it -/
theorem Listing.names_of_word {word : List Char} (h : word ∈ Listing.words text.toList)
    (hsame : (dir.join ⟨String.ofList word⟩).components = file.components) (hend : file.EndsInStep)
    (hshort : file.text.utf8ByteSize < maxPath) : Listing.Names w dir text file := by
  obtain ⟨f, hf, hspelling⟩ := Listing.kept_spelling h
  refine ⟨f, hf, fun l n hfind => ?_⟩
  have halike := (hspelling.join dir).trans (Path.alike_of_components hsame)
  exact find_of_alike halike hend hshort hfind

/-! ## decisions -/

theorem stale_decision_of_source (hT : s.reference = some T)
    (hnamed : ∀ text, w.readText (u.listing dir) = .ok text → Listing.Names w u.directory text u.path)
    (hchanged : ∀ t, w.modified u.path = .ok t → T < t) :
    ∃ reason, Classification.decisionFor w dir s u = .stale reason := by
  cases hd : Classification.decisionFor w dir s u with
  | stale reason => exact ⟨reason, rfl⟩
  | cached o =>
    obtain ⟨_, _, T', l, n, text, hT', hf, htext, _, hfiles⟩ := decideUnit_cached_iff_found.mp hd
    obtain rfl := Option.some.inj (hT.symm.trans hT')
    obtain ⟨f, hf, hdenotes⟩ := hnamed text (readText_eq_ok_iff.mpr ⟨l, n, hf, htext⟩)
    obtain ⟨k, m, hk, hm⟩ := hfiles f hf
    have hlate := hchanged m.modified (modified_eq_ok_iff.mpr ⟨k, m, hdenotes k m hk, rfl⟩)
    exact absurd hlate (Int.not_lt.mpr hm)

/-- a unit whose listing, if it can be read, names its source is stale, and not reused, once the
source is missing or was written after the store -/
theorem Runner.stale_of_source_changed {r : Runner} {us : List SourceUnit} (hus : r.enumerate w = .ok us)
    (hu : u ∈ us) (hT : s.reference = some T)
    (hnamed : ∀ text, w.readText (u.listing r.listingDir) = .ok text →
      Listing.Names w u.directory text u.path)
    (hchanged : ∀ t, w.modified u.path = .ok t → T < t) :
    (∃ reason, ⟨u.id, reason⟩ ∈ (r.classify w us s).stale) ∧
      (r.classify w us s).cached.get? u.id = none := by
  obtain ⟨reason, hd⟩ := stale_decision_of_source hT hnamed hchanged
  refine ⟨⟨reason, Classification.mem_stale.mpr ⟨u, hu, rfl, hd⟩⟩, ?_⟩
  cases hc : (r.classify w us s).cached.get? u.id with
  | none => rfl
  | some o =>
    have hnodup := Runner.enumerate_nodup hus
    obtain ⟨v, hv, hid, hd'⟩ := (Classification.get?_cached hnodup).mp hc
    obtain rfl := List.inj_on_of_nodup_map hnodup hv hu hid
    rw [hd] at hd'
    contradiction

end

/-! ## an edited source -/

/-- the one unit, edited at time 9, with some text for a listing -/
def oneTouched (listing : String) : Workspace :=
  (oneWorkspace.put ["a.cc"] (.file (Utf8.encode "") 9 false)).put ["a.cc.d"]
    (.file (Utf8.encode listing) 0 false)

/-- a success that was saved at time 5 -/
def oneStore : Store where
  entries := SortedMap.ofList [("a.cc", ⟨0, "ok"⟩)]
  reference := some 5

section
variable {listing : String}

theorem oneTouched_enumerate : oneRunner.enumerate (oneTouched listing) = .ok [oneUnit] := by
  refine one_enumerate (t := 0) (x := false) ?_
  simp [oneTouched, oneWorkspace, node?_put]

theorem oneTouched_source :
    (oneTouched listing).find ⟨"/a.cc"⟩ = .ok (["a.cc"], .file (Utf8.encode "") 9 false) := by
  have hcode : (oneTouched listing).node? ["a.cc"] = some (.file (Utf8.encode "") 9 false) := by
    simp [oneTouched, node?_put]
  rw [show (⟨"/a.cc"⟩ : Path) = top "a.cc" by decide]
  exact find_top (by decide) hcode rfl rfl

theorem oneTouched_listing : (oneTouched listing).find ⟨"/a.cc.d"⟩ =
    .ok (["a.cc.d"], .file (Utf8.encode listing) 0 false) := by
  have hlisting : (oneTouched listing).node? ["a.cc.d"] = some (.file (Utf8.encode listing) 0 false) := by
    simp [oneTouched, node?_put]
  rw [show (⟨"/a.cc.d"⟩ : Path) = top "a.cc.d" by decide]
  exact find_top (by decide) hlisting rfl rfl

theorem oneTouched_changed {t : Time} (h : (oneTouched listing).modified oneUnit.path = .ok t) : 5 < t := by
  obtain ⟨l, n, hf, rfl⟩ := modified_eq_ok_iff.mp h
  obtain ⟨_, rfl⟩ := found_unique oneTouched_source hf
  decide

end

theorem one_stale_of_source_changed :
    (∃ reason, ⟨"a.cc", reason⟩ ∈
        (oneRunner.classify (oneTouched "a.o: ./a.cc") [oneUnit] oneStore).stale) ∧
      (oneRunner.classify (oneTouched "a.o: ./a.cc") [oneUnit] oneStore).cached.get? "a.cc" = none := by
  refine Runner.stale_of_source_changed oneTouched_enumerate (List.mem_singleton.mpr rfl) rfl ?_
    fun t ht => oneTouched_changed ht
  intro text htext
  obtain ⟨l, n, hf, hn⟩ := readText_eq_ok_iff.mp htext
  obtain ⟨_, rfl⟩ := found_unique oneTouched_listing hf
  obtain rfl := Option.some.inj (hn.symm.trans (Utf8.decode?_encode "a.o: ./a.cc"))
  have hword : "./a.cc".toList ∈ Listing.words "a.o: ./a.cc".toList := by decide
  exact Listing.names_of_word hword (by decide) (by decide) (by decide)

/-- with a listing that does not name it, an edited unit is reused -/
theorem one_source_unlisted :
    ¬∀ (r : Runner) (w : Workspace) (us : List SourceUnit) (s : Store) (T : Time) (u : SourceUnit),
      r.enumerate w = .ok us → u ∈ us → u.directory.isAbsolute = true → s.reference = some T →
      (∀ t, w.modified u.path = .ok t → T < t) →
      ∃ reason, ⟨u.id, reason⟩ ∈ (r.classify w us s).stale := by
  intro h
  obtain ⟨reason, hstale⟩ := h oneRunner (oneTouched "") [oneUnit] oneStore 5 oneUnit oneTouched_enumerate
    (List.mem_singleton.mpr rfl) (by decide) rfl fun t ht => oneTouched_changed ht
  obtain ⟨u, hu, _, hd⟩ := Classification.mem_stale.mp hstale
  obtain rfl := List.mem_singleton.mp hu
  have hcached : Classification.decisionFor (oneTouched "") oneRunner.listingDir oneStore oneUnit =
      .cached ⟨0, "ok"⟩ := by
    refine decideUnit_cached_iff_found.mpr ⟨rfl, rfl, 5, _, _, "", rfl, oneTouched_listing,
      Utf8.decode?_encode _, by decide, fun f hf => ?_⟩
    rw [show PathSet.paths (Listing.parse "") = [] by decide] at hf
    contradiction
  rw [hcached] at hd
  contradiction

end IncrementalLint
