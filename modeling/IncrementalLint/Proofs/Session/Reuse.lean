import IncrementalLint.Proofs.Session.Invariant

/-!
# What a reused success says

A run that finds a unit reusable has looked at the times of the listing and of the files in it.

* `Reachable.settled`                what these times tell of the writes since the unit's job started;
* `Reachable.listing_made_by_jobs`   since then, only jobs have made the listing anew, if nobody edits
                                     it while a run is in progress (`Unedited`);
* `Reachable.written_in_window`      if besides no other unit's job makes it (`Unshared`) and the unit
                                     keeps its directory (`Steady`), the files in it were written only
                                     where a run in progress had looked at the unit and had not yet
                                     saved.

The session in the next section shows that neither can be sharpened: a listing may be older than the
job, and a file in it may be younger.  Without the conditions the second fails.  A file edited between
two runs, and named by the listing only once the second run has looked at it, is written outside of any
run, and the third run reuses the success.
-/

namespace IncrementalLint

open Workspace Classification

section
variable {cache dir : Path} {σ τ : Session} {p : Progress} {u : SourceUnit} {o : Outcome}

theorem Reachable.settled (h : Reachable cache dir σ) (hp : σ.current = some p)
    (hd : decisionFor σ.files dir p.store u = .cached o) :
    ∃ T l n text, σ.files.find (u.listing dir) = .ok (l, n) ∧ n.text? = some text ∧ n.modified < T ∧
      (∀ f ∈ (Listing.parse text).paths,
        ∃ k m, σ.files.find (u.directory.join f) = .ok (k, m) ∧ m.modified ≤ T) ∧
      ∃ recent older, σ.log = recent ++ .started u.id :: older ∧ ResultOf recent u.id o ∧
        Settled dir σ.files σ.log (some T) u.id older := by
  obtain ⟨hget, hpass, T, l, n, text, hr, hf, htext, hlt, hfiles⟩ := decideUnit_cached_iff_found.mp hd
  obtain ⟨T', hr', _, recent, older, hlog, hc, hs⟩ := (h.invariant.running p hp).store u.id o hget hpass
  obtain rfl := Option.some.inj (hr.symm.trans hr')
  exact ⟨T, l, n, text, hf, htext, hlt, hfiles, recent, older, hlog, hc.resultOf, hs⟩

/-- a node that is found is no older than the last entry about it -/
theorem Reachable.time_le (h : Reachable cache dir σ) {path : Path} {l : Location} {n : Node}
    (hf : σ.files.find path = .ok (l, n)) {newer rest : List Entry} {who : Writer} {t : Time}
    (hlog : σ.log = newer ++ .wrote l who t :: rest) : t ≤ n.modified := by
  have hm : .wrote l who t ∈ σ.log := by simp [hlog]
  exact (h.invariant.stamped l who t hm).2 n (node_of_find hf)

theorem Reachable.tail (h : Reachable cache dir σ) (hs : Step cache dir σ τ) : Reachable cache dir τ := by
  obtain ⟨σ₀, h₀, hsteps⟩ := h
  exact ⟨σ₀, h₀, hsteps.tail hs⟩

end

/-! ## a session with one unit, whose job makes no listing -/

/-- a run whose only job has started -/
def oneProgress : Progress where
  units := [oneUnit]
  store := { ruleSetId := "", toolVersionId := "1" }
  unchecked := []
  cached := .empty
  stale := [oneUnit]
  started := ["a.cc"]
  fresh := .empty

def oneLog : List Entry := [.started "a.cc", .checked oneUnit (.stale .notCached), .loaded]

theorem one_started : Reachable (top "c") ⟨"/"⟩ ⟨oneWorkspace, some oneProgress, oneLog⟩ := by
  obtain ⟨_, hc, _, _, _⟩ := one_nodes
  have hname : Single "c" := by decide
  have hload : Store.loadOrEmpty oneWorkspace (top "c") = {} := by
    rw [Store.loadOrEmpty_eq, find_top_none hname hc]
  have hfresh : Fresh (top "c") ⟨oneWorkspace, none, []⟩ := by
    refine ⟨rfl, rfl, fun l hl => ?_⟩
    rw [leadsTo_top_free hname hc hl]
    exact hc
  have hbegin : Reachable (top "c") ⟨"/"⟩ ⟨oneWorkspace, none, []⟩ := ⟨_, hfresh, .refl _⟩
  have hloaded : Reachable (top "c") ⟨"/"⟩
      ⟨oneWorkspace, some (.ofStore oneProgress.store [oneUnit]), [.loaded]⟩ := by
    have hstep : Step (top "c") ⟨"/"⟩ ⟨oneWorkspace, none, []⟩ ⟨oneWorkspace,
        some (.ofStore ((Store.loadOrEmpty oneWorkspace (top "c")).validateTags "" "1").1 [oneUnit]),
        [.loaded]⟩ := .load rfl (by decide)
    rw [hload] at hstep
    exact hbegin.tail hstep
  have hchecked := hloaded.tail (.check (u := oneUnit) rfl rfl)
  exact hchecked.tail (.start (p := { oneProgress with started := [] }) (u := oneUnit) rfl rfl
    List.mem_cons_self List.not_mem_nil)

/-- when the job has ended with a success and the run has saved it, the next run reuses it -/
theorem one_reused {w : Workspace} {log : List Entry} {code : ByteArray} {t t' : Time} {x : Bool}
    (h : Reachable (top "c") ⟨"/"⟩ ⟨w, some oneProgress, log⟩)
    (hroot : w.node? [] = some (.directory t')) (hc : w.node? ["c"] = none)
    (hcode : w.node? ["a.cc"] = some (.file code t x)) (ht : t ≤ w.clock)
    (hlisting : w.node? ["a.cc.d"] = some (.file (Utf8.encode "a.o: a.cc") 0 false))
    (hclock : 0 < w.clock) :
    ∃ σ p, Reachable (top "c") ⟨"/"⟩ σ ∧ σ.current = some p ∧
      decisionFor σ.files ⟨"/"⟩ p.store oneUnit = .cached ⟨0, "ok"⟩ ∧
      σ.log = .loaded :: .saved :: .wrote ["c"] .save w.clock :: .finished "a.cc" ⟨0, "ok"⟩ :: log ∧
      σ.files.find (top "a.cc.d") = .ok (["a.cc.d"], .file (Utf8.encode "a.o: a.cc") 0 false) ∧
      σ.files.find (top "a.cc") = .ok (["a.cc"], .file code t x) := by
  have hname : Single "c" := by decide
  let q : Progress := { oneProgress with fresh := SortedMap.insert .empty "a.cc" ⟨0, "ok"⟩ }
  let w' := w.add ["c"] (.file (Utf8.encode q.final.2.text) w.clock false)
  have hfinished := h.tail (.finish (o := ⟨0, "ok"⟩) rfl List.mem_cons_self rfl)
  have hsave : q.final.2.save w (top "c") = (w', .ok ()) :=
    Store.save_top hroot (by decide) (write_top_new hname hc)
  have hc' : w'.node? ["c"] = some (.file (Utf8.encode q.final.2.text) w.clock false) :=
    node?_add_self (by simp [Node.isDirectory])
  have hsaved := hfinished.tail (.save (p := q) rfl rfl hsave)
  rw [ofWrite_file (find_top hname hc' rfl rfl)] at hsaved
  have hloaded : Reachable (top "c") ⟨"/"⟩ ⟨w', some (.ofStore
      ((Store.loadOrEmpty w' (top "c")).validateTags "" "1").1 [oneUnit]),
      .loaded :: .saved :: .wrote ["c"] .save w.clock :: .finished "a.cc" ⟨0, "ok"⟩ :: log⟩ :=
    hsaved.tail (.load rfl (by decide))
  have hload : Store.loadOrEmpty w' (top "c") = { q.final.2 with reference := some w.clock } := by
    rw [Store.loadOrEmpty_of_find (find_top hname hc' rfl rfl), Store.ofNode_text]
  have hfinal : q.final.2.get? "a.cc" = some ⟨0, "ok"⟩ := by
    rw [Progress.final, get?_aggregate _ _ _ (by decide)]
    decide
  have hcode' : w'.node? ["a.cc"] = some (.file code t x) := node?_add_file (by decide) hcode
  have hlisting' := node?_add_file (n := .file (Utf8.encode q.final.2.text) w.clock false)
    (by decide : ["a.cc.d"] ≠ ["c"]) hlisting
  refine ⟨_, _, hloaded, rfl, ?_, rfl, find_top (by decide) hlisting' rfl rfl,
    find_top (by decide) hcode' rfl rfl⟩
  refine one_cached hcode' ht hlisting' hclock ?_ rfl ?_
  · show (Store.validateTags _ "" "1").1.get? "a.cc" = _
    rw [Store.get?_validateTags, hload]
    exact ⟨hfinal, (aggregate_tags _ _ _ oneProgress.store).1, (aggregate_tags _ _ _ oneProgress.store).2⟩
  · show (Store.loadOrEmpty w' (top "c")).reference = _
    rw [hload]

def oneEdited : Workspace := oneWorkspace.overwrite ["a.cc"] (.file (Utf8.encode "") 5 false)

/-- an edit of the unit's file, after its job has started -/
theorem one_edited : Reachable (top "c") ⟨"/"⟩
    ⟨oneEdited, some oneProgress, .wrote ["a.cc"] (.edit true) 5 :: oneLog⟩ := by
  obtain ⟨_, hc, _, hcode, _⟩ := one_nodes
  have hname : Single "a.cc" := by decide
  have hwrite : oneWorkspace.write (top "a.cc") (Utf8.encode "") = (oneEdited, .ok ()) :=
    write_top hname hcode
  have hfind : oneEdited.find (top "a.cc") = .ok (["a.cc"], .file (Utf8.encode "") 5 false) :=
    find_top hname node?_overwrite_self rfl rfl
  have hapart : Apart oneWorkspace (top "a.cc") (top "c") := by
    intro l hl hl'
    have hla := leadsTo_top_file hname hcode rfl rfl hl
    have hlc := leadsTo_top_free (by decide) hc hl'
    exact absurd (hla.symm.trans hlc) (by decide)
  have hedited : Reachable (top "c") ⟨"/"⟩ ⟨oneEdited, some oneProgress,
      Entry.ofWrite oneEdited (top "a.cc") (.edit true) ++ oneLog⟩ :=
    one_started.tail (.write hwrite hapart)
  rw [ofWrite_file hfind] at hedited
  exact hedited

theorem one_edited_reused :
    ∃ σ p, Reachable (top "c") ⟨"/"⟩ σ ∧ σ.current = some p ∧
      decisionFor σ.files ⟨"/"⟩ p.store oneUnit = .cached ⟨0, "ok"⟩ ∧
      σ.log = .loaded :: .saved :: .wrote ["c"] .save oneEdited.clock :: .finished "a.cc" ⟨0, "ok"⟩ ::
        .wrote ["a.cc"] (.edit true) 5 :: oneLog ∧
      σ.files.find (top "a.cc.d") = .ok (["a.cc.d"], .file (Utf8.encode "a.o: a.cc") 0 false) ∧
      σ.files.find (top "a.cc") = .ok (["a.cc"], .file (Utf8.encode "") 5 false) := by
  obtain ⟨hroot, hc, _, _, hlisting⟩ := one_nodes
  have hother {m : Location} (hm : m ≠ ["a.cc"]) : oneEdited.node? m = oneWorkspace.node? m := by
    show (oneWorkspace.put ["a.cc"] _).node? m = _
    rw [node?_put, if_neg hm]
  exact one_reused one_edited ((hother (by decide)).trans hroot) ((hother (by decide)).trans hc)
    node?_overwrite_self (by decide) ((hother (by decide)).trans hlisting) (by decide)

/-! ## the listing -/

section
variable {cache dir : Path} {σ : Session} {p : Progress} {u : SourceUnit} {o : Outcome}

/-- since the start of the job that a reused success is from, nobody but jobs has written the
listing, if nobody edits it while a run is in progress; and the job of this unit only in that run -/
theorem Reachable.listing_made_by_jobs (h : Reachable cache dir σ) (hp : σ.current = some p)
    (hd : decisionFor σ.files dir p.store u = .cached o) :
    ∃ l n recent older, σ.files.find (u.listing dir) = .ok (l, n) ∧
      σ.log = recent ++ .started u.id :: older ∧ ResultOf recent u.id o ∧
      (Unedited σ.log l → ∀ newer who t rest, recent = newer ++ .wrote l who t :: rest →
        ∃ v, who = .job v ∧ (v = u.id → .loaded ∉ rest)) := by
  obtain ⟨T, l, n, text, hf, _, hlt, _, recent, older, hlog, hresult, hs⟩ := h.settled hp hd
  refine ⟨l, n, recent, older, hf, hlog, hresult, fun hu newer who t rest hrecent => ?_⟩
  have hcut : σ.log = newer ++ .wrote l who t :: (rest ++ .started u.id :: older) := by
    rw [hlog, hrecent]
    simp
  have hle := h.time_le hf hcut
  exact hs.listing (leadsTo_of_find hf) hu hcut (before_some (Int.lt_of_le_of_lt hle hlt))

end

/-- the listing that a success is reused by need not be the job's own -/
theorem one_listing_older :
    ¬∀ (cache dir : Path) (σ : Session) (p : Progress) (u : SourceUnit) (o : Outcome),
      Reachable cache dir σ → (∀ l t, .wrote l (.edit true) t ∉ σ.log) → σ.current = some p →
      decisionFor σ.files dir p.store u = .cached o →
      ∃ l n newer t rest recent older, σ.files.find (u.listing dir) = .ok (l, n) ∧
        σ.log = recent ++ .started u.id :: older ∧ ResultOf recent u.id o ∧
        recent = newer ++ .wrote l (.job u.id) t :: rest := by
  intro h
  obtain ⟨hroot, hc, _, hcode, hlisting⟩ := one_nodes
  obtain ⟨σ, p, hσ, hp, hd, hlog, _⟩ :=
    one_reused one_started hroot hc hcode (by decide) hlisting (by decide)
  obtain ⟨l, n, newer, t, rest, recent, older, _, hcut, _, hrecent⟩ :=
    h _ _ σ p oneUnit _ hσ (by simp [hlog, oneLog]) hp hd
  have hmem : .wrote l (.job "a.cc") t ∈ σ.log := by
    rw [hcut, hrecent]
    simp [oneUnit]
  simp [hlog, oneLog] at hmem

theorem one_listing_made_by_jobs :
    ∃ σ p, Reachable (top "c") ⟨"/"⟩ σ ∧ σ.current = some p ∧
      decisionFor σ.files ⟨"/"⟩ p.store oneUnit = .cached ⟨0, "ok"⟩ ∧
      Unedited σ.log ["a.cc.d"] ∧ ∃ n recent older,
      σ.files.find (oneUnit.listing ⟨"/"⟩) = .ok (["a.cc.d"], n) ∧
      σ.log = recent ++ .started "a.cc" :: older ∧ ResultOf recent "a.cc" ⟨0, "ok"⟩ ∧
      ∀ newer who t rest, recent = newer ++ .wrote ["a.cc.d"] who t :: rest →
        ∃ v, who = .job v ∧ (v = "a.cc" → .loaded ∉ rest) := by
  obtain ⟨hroot, hc, _, hcode, hlisting⟩ := one_nodes
  obtain ⟨σ, p, hσ, hp, hd, hlog, hfind, _⟩ :=
    one_reused one_started hroot hc hcode (by decide) hlisting (by decide)
  obtain ⟨l, n, recent, older, hf, hcut, hresult, hjobs⟩ := hσ.listing_made_by_jobs hp hd
  obtain ⟨rfl, rfl⟩ := Prod.mk.inj (Except.ok.inj (hfind.symm.trans hf))
  have hu : Unedited σ.log ["a.cc.d"] := by
    intro t
    simp [hlog, oneLog]
  exact ⟨σ, p, hσ, hp, hd, hu, _, recent, older, hf, hcut, hresult, hjobs hu⟩

/-! ## the files in it -/

section
variable {cache dir : Path} {σ : Session} {p : Progress} {u : SourceUnit} {o : Outcome}

/-- since the start of the job that a reused success is from, each write of a file in the listing
came after a run in progress had looked at the unit, and before that run saved: if nobody edits the
listing while a run is in progress, no job of another unit makes it, and the unit is always checked
with one directory -/
theorem Reachable.written_in_window (h : Reachable cache dir σ) (hp : σ.current = some p)
    (hd : decisionFor σ.files dir p.store u = .cached o) :
    ∃ l n text recent older, σ.files.find (u.listing dir) = .ok (l, n) ∧ n.text? = some text ∧
      σ.log = recent ++ .started u.id :: older ∧ ResultOf recent u.id o ∧
      (Unedited σ.log l → Unshared σ.log l u.id → Steady σ.log u.id u.directory →
        ∀ f ∈ (Listing.parse text).paths, ∃ k m, σ.files.find (u.directory.join f) = .ok (k, m) ∧
          ∀ newer who t rest, recent = newer ++ .wrote k who t :: rest →
            Windowed u.id newer (rest ++ .started u.id :: older)) := by
  obtain ⟨T, l, n, text, hf, htext, hlt, hfiles, recent, older, hlog, hresult, hs⟩ := h.settled hp hd
  refine ⟨l, n, text, recent, older, hf, htext, hlog, hresult, fun hu hown hdir f hmem => ?_⟩
  obtain ⟨k, m, hfind, hle⟩ := hfiles f hmem
  refine ⟨k, m, hfind, fun newer who t rest hrecent => ?_⟩
  have hcut : σ.log = newer ++ .wrote k who t :: (rest ++ .started u.id :: older) := by
    rw [hlog, hrecent]
    simp
  have hle' := h.time_le hfind hcut
  obtain ⟨hclosed, hafter⟩ := hs.files (leadsTo_of_find hf) (node_of_find hf) htext (before_some hlt) hu
    hown hdir hmem (leadsTo_of_find hfind) hcut (upTo_some (Int.le_trans hle' hle))
  rcases hclosed with ⟨hnone, _⟩ | hsaves
  · contradiction
  · exact ⟨hsaves, hafter⟩

end

/-- a file may have been written since the start of the job whose success is reused -/
theorem one_file_younger :
    ¬∀ (cache dir : Path) (σ : Session) (p : Progress) (u : SourceUnit) (o : Outcome),
      Reachable cache dir σ → σ.current = some p → decisionFor σ.files dir p.store u = .cached o →
      ∃ l n text recent older, σ.files.find (u.listing dir) = .ok (l, n) ∧ n.text? = some text ∧
        σ.log = recent ++ .started u.id :: older ∧ ResultOf recent u.id o ∧
        ∀ f ∈ (Listing.parse text).paths, ∀ k m, σ.files.find (u.directory.join f) = .ok (k, m) →
          ∀ who t, .wrote k who t ∉ recent := by
  intro h
  obtain ⟨σ, p, hσ, hp, hd, hlog, hfind, hfind'⟩ := one_edited_reused
  obtain ⟨l, n, text, recent, older, hf, htext, hcut, _, hnone⟩ := h _ _ σ p oneUnit _ hσ hp hd
  obtain ⟨rfl, rfl⟩ := Prod.mk.inj (Except.ok.inj (hfind.symm.trans hf))
  obtain rfl := Option.some.inj ((Utf8.decode?_encode _).symm.trans htext)
  have hmem : (⟨"a.cc"⟩ : Path) ∈ (Listing.parse "a.o: a.cc").paths := by decide
  -- the edit comes after the only start of the job
  have hsplit : [.loaded, .saved, .wrote ["c"] .save oneEdited.clock, .finished "a.cc" ⟨0, "ok"⟩] ++
      .wrote ["a.cc"] (.edit true) 5 :: oneLog = recent ++ .started "a.cc" :: older := hlog.symm.trans hcut
  exact hnone _ hmem _ _ hfind' (.edit true) 5 (mem_of_split hsplit (by simp) (by simp))

theorem one_written_in_window :
    ∃ σ p, Reachable (top "c") ⟨"/"⟩ σ ∧ σ.current = some p ∧
      decisionFor σ.files ⟨"/"⟩ p.store oneUnit = .cached ⟨0, "ok"⟩ ∧
      Unedited σ.log ["a.cc.d"] ∧ Unshared σ.log ["a.cc.d"] "a.cc" ∧ Steady σ.log "a.cc" ⟨"/"⟩ ∧
      ∃ recent older, σ.log = recent ++ .started "a.cc" :: older ∧ ResultOf recent "a.cc" ⟨0, "ok"⟩ ∧
        .wrote ["a.cc"] (.edit true) 5 ∈ recent ∧
        ∀ newer who t rest, recent = newer ++ .wrote ["a.cc"] who t :: rest →
          Windowed "a.cc" newer (rest ++ .started "a.cc" :: older) := by
  obtain ⟨σ, p, hσ, hp, hd, hlog, hfind, hfind'⟩ := one_edited_reused
  obtain ⟨l, n, text, recent, older, hf, htext, hcut, hresult, hwindow⟩ := hσ.written_in_window hp hd
  obtain ⟨rfl, rfl⟩ := Prod.mk.inj (Except.ok.inj (hfind.symm.trans hf))
  obtain rfl := Option.some.inj ((Utf8.decode?_encode _).symm.trans htext)
  have hu : Unedited σ.log ["a.cc.d"] := fun t => by simp [hlog, oneLog]
  have hown : Unshared σ.log ["a.cc.d"] "a.cc" := fun v t hm => by simp [hlog, oneLog] at hm
  have hdir : Steady σ.log "a.cc" ⟨"/"⟩ := by
    intro u D hm _
    simp [hlog, oneLog] at hm
    simp [hm, oneUnit]
  have hmem : (⟨"a.cc"⟩ : Path) ∈ (Listing.parse "a.o: a.cc").paths := by decide
  obtain ⟨k, m, hk, hwritten⟩ := hwindow hu hown hdir _ hmem
  obtain ⟨rfl, _⟩ := Prod.mk.inj (Except.ok.inj (hfind'.symm.trans hk))
  have hsplit : [.loaded, .saved, .wrote ["c"] .save oneEdited.clock, .finished "a.cc" ⟨0, "ok"⟩] ++
      .wrote ["a.cc"] (.edit true) 5 :: oneLog = recent ++ .started "a.cc" :: older := hlog.symm.trans hcut
  exact ⟨σ, p, hσ, hp, hd, hu, hown, hdir, recent, older, hcut, hresult,
    mem_of_split hsplit (by simp) (by simp), hwritten⟩

end IncrementalLint
