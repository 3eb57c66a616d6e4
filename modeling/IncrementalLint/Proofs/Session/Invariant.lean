import IncrementalLint.Proofs.Cache.Decision
import IncrementalLint.Proofs.Session.Evidence

/-!
# What every session keeps

* `OnDisk`          each success on file is backed by evidence up to the time of the file;
* `InProgress`      so is each that a run has loaded, and what it is about to reuse, up to now;
* `Invariant.step`  no step changes that, so that it holds of all that can happen.
-/

namespace IncrementalLint

open Workspace

/-! ## on file -/

def OnDisk (cache dir : Path) (w : Workspace) (log : List Entry) : Prop :=
  ∀ l n id o, LeadsTo w cache l → w.node? l = some n →
    (Store.ofNode n).get? id = some o → o.passed = true →
      n.modified < w.clock ∧ Evidence dir w log (some n.modified) id o

section
variable {cache dir : Path} {w w' : Workspace} {es log : List Entry} {p : Progress} {s : Store}

theorem OnDisk.step (h : OnDisk cache dir w log) (he : Effect w w' es) (hs : .saved ∉ es)
    (hc : ∀ l who t, .wrote l who t ∈ es → ¬LeadsTo w cache l) : OnDisk cache dir w' (es ++ log) := by
  intro l n id o hl hn hget hpass
  have hl' := he.sameLinks.leadsTo_iff.mp hl
  rcases he.others hn with hn | hn | ⟨who, t, hm⟩
  · obtain ⟨hlt, hev⟩ := h l n id o hl' hn hget hpass
    exact ⟨Int.lt_of_lt_of_le hlt he.clock, hev.later he hlt hs⟩
  · rw [Store.ofNode_directory hn] at hget
    contradiction
  · exact absurd hl' (hc l who t hm)

theorem onDisk_save {c : Location} {T : Time} (hw : s.SavedAt w w' cache c T)
    (h : ∀ id o, s.get? id = some o → o.passed = true → Evidence dir w log none id o ∧ After id log) :
    OnDisk cache dir w' (.saved :: .wrote c .save T :: log) := by
  intro l n id o hl hn hget hpass
  obtain ⟨x, hfind⟩ := hw.find
  obtain rfl := (leadsTo_of_find hfind).unique hl
  obtain rfl := Option.some.inj ((node_of_find hfind).symm.trans hn)
  rw [Store.ofNode_text] at hget
  obtain ⟨hev, ha⟩ := h id o hget hpass
  exact ⟨hw.before, hev.save hw ha⟩

/-! ## in a run -/

/-- what backs a run in progress -/
structure InProgress (dir : Path) (w : Workspace) (log : List Entry) (p : Progress) : Prop where
  nodup : (p.units.map (·.id)).Nodup
  unchecked : (p.unchecked.map (·.id)).Nodup
  ahead : ∀ u ∈ p.unchecked, p.cached.get? u.id = none ∧ ∀ v ∈ p.stale, v.id ≠ u.id
  stale : ∀ v ∈ p.stale, p.cached.get? v.id = none
  store : ∀ id o, p.store.get? id = some o → o.passed = true →
    ∃ T, p.store.reference = some T ∧ T < w.clock ∧ Evidence dir w log (some T) id o
  cached : ∀ id o, p.cached.get? id = some o → Evidence dir w log none id o ∧ After id log
  started : ∀ id ∈ p.started, ∃ recent older, log = recent ++ .started id :: older ∧ Inside recent
  fresh : ∀ id o, p.fresh.get? id = some o →
    ∃ recent older, log = recent ++ .started id :: older ∧ Inside recent ∧ .finished id o ∈ recent

/-- while a run is in progress, what backs it lasts -/
theorem InProgress.step (h : InProgress dir w log p) (he : Effect w w' es) (hin : Inside es)
    (hjob : ∀ l v t, .wrote l (.job v) t ∈ es → p.cached.get? v = none) :
    InProgress dir w' (es ++ log) p where
  nodup := h.nodup
  unchecked := h.unchecked
  ahead := h.ahead
  stale := h.stale
  store id o hget hpass := by
    obtain ⟨T, hr, hT, hev⟩ := h.store id o hget hpass
    exact ⟨T, hr, Int.lt_of_lt_of_le hT he.clock, hev.later he hT hin.not_saved⟩
  cached id o hget := by
    obtain ⟨hev, ha⟩ := h.cached id o hget
    refine ⟨hev.during he hin (fun l v t hm hv => ?_) ha, ha.grow hin.not_loaded⟩
    exact absurd (hget.symm.trans (hv ▸ hjob l v t hm)) (by simp)
  started id hid := by
    obtain ⟨recent, older, hlog, hr⟩ := h.started id hid
    exact ⟨es ++ recent, older, by rw [hlog, List.append_assoc], hin.append hr⟩
  fresh id o hget := by
    obtain ⟨recent, older, hlog, hr, hf⟩ := h.fresh id o hget
    exact ⟨es ++ recent, older, by rw [hlog, List.append_assoc], hin.append hr, List.mem_append_right _ hf⟩

theorem inProgress_ofStore {us : List SourceUnit} (hd : (us.map (·.id)).Nodup)
    (h : OnDisk cache dir w log) {rules tool : String} (es : List Entry) (he : Effect w w es)
    (hsaved : .saved ∉ es) : InProgress dir w (es ++ log)
      (.ofStore ((Store.loadOrEmpty w cache).validateTags rules tool).1 us) where
  nodup := hd
  unchecked := hd
  ahead _ _ := ⟨rfl, fun _ hv => absurd hv (by simp [Progress.ofStore])⟩
  stale _ hv := absurd hv (by simp [Progress.ofStore])
  store id o hget hpass := by
    obtain ⟨hs, _⟩ := Store.get?_validateTags.mp hget
    show ∃ T, (Store.loadOrEmpty w cache).reference = some T ∧ _
    rw [Store.loadOrEmpty_eq] at hs ⊢
    cases hf : w.find cache with
    | error e =>
      rw [hf] at hs
      contradiction
    | ok x =>
      obtain ⟨l, n⟩ := x
      rw [hf] at hs
      obtain ⟨hlt, hev⟩ := h l n id o (leadsTo_of_find hf) (node_of_find hf) hs hpass
      exact ⟨n.modified, Store.reference_ofNode hs, hlt, hev.later he hlt hsaved⟩
  cached _ _ hget := absurd hget (by simp [Progress.ofStore])
  started _ hid := absurd hid (by simp [Progress.ofStore])
  fresh _ _ hget := absurd hget (by simp [Progress.ofStore])

theorem effect_none (w : Workspace) {e : Entry} (he : ∀ l who t, e ≠ .wrote l who t) : Effect w w [e] :=
  effect_of_edited (.refl w) fun l who t hm => he l who t (List.mem_singleton.mp hm).symm

theorem InProgress.entry (h : InProgress dir w log p) {e : Entry} (he : ∀ l who t, e ≠ .wrote l who t)
    (hin : e.Inside) : InProgress dir w (e :: log) p := by
  have hinside : Inside [e] := by
    intro e' hm
    obtain rfl := List.mem_singleton.mp hm
    exact hin
  have hstep := h.step (effect_none w he) hinside fun l v t hm =>
    absurd (List.mem_singleton.mp hm).symm (he l (.job v) t)
  exact hstep

/-- a check puts a unit on one of two sides, with what backs it -/
theorem InProgress.check (hs : Stamped w log) (h : InProgress dir w log p) {u : SourceUnit}
    {rest : List SourceUnit} (hu : p.unchecked = u :: rest) :
    InProgress dir w (.checked u (Classification.decisionFor w dir p.store u) :: log)
      (p.check u rest (Classification.decisionFor w dir p.store u)) := by
  have hentry := h.entry (e := .checked u (Classification.decisionFor w dir p.store u)) (by simp) trivial
  have hmem : u ∈ p.unchecked := hu ▸ List.mem_cons_self
  have hrest {v : SourceUnit} (hv : v ∈ rest) : v ∈ p.unchecked := hu ▸ List.mem_cons_of_mem _ hv
  have hnodup := h.unchecked
  rw [hu, List.map_cons, List.nodup_cons] at hnodup
  -- no unit comes twice, so that the side of one says nothing about another
  have hne {v : SourceUnit} (hv : v ∈ rest) : v.id ≠ u.id := fun hid =>
    hnodup.1 (hid ▸ List.mem_map_of_mem hv)
  cases hd : Classification.decisionFor w dir p.store u with
  | stale reason =>
    rw [hd] at hentry
    refine { hentry with unchecked := hnodup.2, ahead := fun v hv => ?_, stale := fun v hv => ?_ }
    · refine ⟨(h.ahead v (hrest hv)).1, fun x hx => ?_⟩
      rcases List.mem_append.mp hx with hx | hx
      · exact (h.ahead v (hrest hv)).2 x hx
      · obtain rfl := List.mem_singleton.mp hx
        exact (hne hv).symm
    · rcases List.mem_append.mp hv with hv | hv
      · exact h.stale v hv
      · obtain rfl := List.mem_singleton.mp hv
        exact (h.ahead v hmem).1
  | cached o =>
    rw [hd] at hentry
    obtain ⟨hget, hpass, T, l, n, text, hr, hf, htext, hm, hfiles⟩ := decideUnit_cached_iff_found.mp hd
    obtain ⟨T', hr', hT, recent, older, hlog, hcarried, hsettled⟩ := h.store u.id o hget hpass
    obtain rfl := Option.some.inj (hr.symm.trans hr')
    have hother {v : SourceUnit} (hv : v.id ≠ u.id) :
        (p.cached.insert u.id o).get? v.id = p.cached.get? v.id := by
      rw [SortedMap.get?_insert, if_neg]
      rwa [SortedMap.compare_eq_iff]
    refine { hentry with
      unchecked := hnodup.2, ahead := fun v hv => ?_, stale := fun v hv => ?_, cached := fun id o' hid => ?_ }
    · refine ⟨?_, (h.ahead v (hrest hv)).2⟩
      exact (hother (hne hv)).trans (h.ahead v (hrest hv)).1
    · exact (hother ((h.ahead u hmem).2 v hv)).trans (h.stale v hv)
    · have hid' : (p.cached.insert u.id o).get? id = some o' := hid
      rw [SortedMap.get?_insert] at hid'
      split at hid'
      next heq =>
        obtain rfl := (SortedMap.compare_eq_iff _ _).mp heq
        obtain rfl := Option.some.inj hid'
        refine ⟨⟨.checked u (.cached o) :: recent, older, by rw [hlog]; rfl, ?_, ?_⟩, after_of_opens rfl⟩
        · exact hcarried.check
        · exact hsettled.check hs hf htext hm hfiles
      next => exact hentry.cached id o' hid'

theorem InProgress.start (h : InProgress dir w log p) (u : SourceUnit) :
    InProgress dir w (.started u.id :: log) { p with started := u.id :: p.started } := by
  have hentry := h.entry (e := .started u.id) (by simp) trivial
  refine { hentry with started := fun id hid => ?_ }
  rcases List.mem_cons.mp hid with rfl | hid
  · exact ⟨[], log, rfl, by simp [Inside]⟩
  · exact hentry.started id hid

theorem InProgress.finish (h : InProgress dir w log p) {id : String} (hid : id ∈ p.started) (o : Outcome) :
    InProgress dir w (.finished id o :: log) { p with fresh := p.fresh.insert id o } := by
  have hentry := h.entry (e := .finished id o) (by simp) trivial
  refine { hentry with fresh := fun id' o' hget => ?_ }
  have hget' : (p.fresh.insert id o).get? id' = some o' := hget
  rw [SortedMap.get?_insert] at hget'
  split at hget'
  next heq =>
    obtain rfl := (SortedMap.compare_eq_iff _ _).mp heq
    obtain rfl := Option.some.inj hget'
    obtain ⟨recent, older, hlog, hin⟩ := h.started id' hid
    refine ⟨.finished id' o :: recent, older, by rw [hlog]; rfl, fun e he => ?_, List.mem_cons_self⟩
    rcases List.mem_cons.mp he with rfl | he
    · trivial
    · exact hin e he
  next => exact hentry.fresh id' o' hget'

theorem InProgress.final (h : InProgress dir w log p) {id : String} {o : Outcome}
    (hget : p.final.2.get? id = some o) (hpass : o.passed = true) :
    Evidence dir w log none id o ∧ After id log := by
  rw [Progress.final, get?_aggregate _ _ _ h.nodup] at hget
  split at hget
  next =>
    obtain rfl := Option.some.inj hget
    rcases outcomeFor_passed hpass with hfresh | ⟨_, hcached⟩
    · obtain ⟨recent, older, hlog, hin, hf⟩ := h.fresh id _ hfresh
      refine ⟨⟨recent, older, hlog, carried_of_inside hin hf, settled_of_started hlog hin⟩, ?_⟩
      exact ⟨recent, .started id, older, hlog, hin.not_loaded, rfl⟩
    · exact h.cached id _ hcached
  next => contradiction

end

/-! ## all together -/

/-- what every session keeps -/
structure Invariant (cache dir : Path) (σ : Session) : Prop where
  stamped : Stamped σ.files σ.log
  onDisk : OnDisk cache dir σ.files σ.log
  running : ∀ p, σ.current = some p → InProgress dir σ.files σ.log p

section
variable {cache dir : Path} {σ τ : Session}

/-- a step of others, and a step of a job -/
theorem Invariant.edit (h : Invariant cache dir σ) {w : Workspace} {es : List Entry}
    (he : Effect σ.files w es) (hs : .saved ∉ es)
    (hc : ∀ l who t, .wrote l who t ∈ es → ¬LeadsTo σ.files cache l)
    (hin : ∀ p, σ.current = some p → Inside es ∧
      ∀ l v t, .wrote l (.job v) t ∈ es → p.cached.get? v = none) :
    Invariant cache dir { σ with files := w, log := es ++ σ.log } where
  stamped := h.stamped.step he
  onDisk := h.onDisk.step he hs hc
  running p hp := (h.running p hp).step he (hin p hp).1 (hin p hp).2

theorem Invariant.quiet (h : Invariant cache dir σ) {w : Workspace} (he : Edited σ.files w fun _ => False) :
    Invariant cache dir { σ with files := w } := by
  have heffect : Effect σ.files w [] := effect_of_edited he (by simp)
  have hedit := h.edit heffect (by simp) (by simp) fun _ _ => ⟨by simp [Inside], by simp⟩
  exact hedit

/-- an entry that is about no file, and a change of the run in progress -/
theorem Invariant.entry (h : Invariant cache dir σ) {e : Entry} (he : ∀ l who t, e ≠ .wrote l who t)
    (hs : e ≠ .saved)
    {current : Option Progress} (hp : ∀ p, current = some p → InProgress dir σ.files (e :: σ.log) p) :
    Invariant cache dir { σ with current := current, log := e :: σ.log } where
  stamped := by
    have hstep := h.stamped.step (effect_none σ.files he)
    exact hstep
  onDisk := by
    have hstep := h.onDisk.step (effect_none σ.files he) (fun hm => hs (List.mem_singleton.mp hm).symm)
      fun l who t hm => absurd (List.mem_singleton.mp hm).symm (he l who t)
    exact hstep
  running := hp

theorem Invariant.stop (h : Invariant cache dir σ) : Invariant cache dir { σ with current := none } :=
  ⟨h.stamped, h.onDisk, fun _ hp => absurd hp (by simp)⟩

theorem Invariant.save (h : Invariant cache dir σ) {p : Progress} {w : Workspace}
    (hp : σ.current = some p) (hs : p.final.2.save σ.files cache = (w, .ok ())) :
    Invariant cache dir ⟨w, none, .saved :: (Entry.ofWrite w cache .save ++ σ.log)⟩ := by
  have hrun := h.running p hp
  rcases Store.save_ok_cases hs with ⟨c, T, hw⟩ | ⟨hg, l, n, hf, hd, hn⟩
  · obtain ⟨x, hfind⟩ := hw.find
    have he : Effect σ.files w [.saved, .wrote c .save T] := by
      refine ⟨hw.mono fun k hk => ⟨.save, T, by simp [hk]⟩, fun {k who t} hm => ?_⟩
      obtain ⟨rfl, rfl, rfl⟩ := by simpa using hm
      exact ⟨hw.after, hw.before, _, x, node_of_find hfind⟩
    rw [ofWrite_file hfind]
    exact ⟨h.stamped.step he, onDisk_save hw fun id o hget hpass => hrun.final hget hpass,
      fun _ hp => absurd hp (by simp)⟩
  · rw [ofWrite_other hf hn]
    have he : Effect σ.files w [.saved] := effect_of_edited hg.toEdited (by simp)
    refine ⟨h.stamped.step he, ?_,
      fun _ hp => absurd hp (by simp)⟩
    intro l' n' id o hl' hn' hget
    obtain rfl := (leadsTo_of_find hf).unique hl'
    obtain rfl := Option.some.inj ((node_of_find hf).symm.trans hn')
    rw [Store.ofNode_of_not_file hd hn] at hget
    contradiction

/-- no step changes what every session keeps -/
theorem Invariant.step (h : Invariant cache dir σ) (hs : Step cache dir σ τ) : Invariant cache dir τ := by
  cases hs with
  | write hw hc =>
    obtain ⟨he, hwho⟩ := effect_write (.edit σ.current.isSome) (.refl _) hw
    refine h.edit he saved_notMem_ofWrite (fun l who t hm => hc l (hwho l who t hm).2)
      fun p hp => ⟨fun e hm => ?_, ?_⟩
    · obtain ⟨l, t, rfl⟩ := mem_ofWrite hm
      show σ.current.isSome = true
      rw [hp]
      rfl
    · intro l v t hm
      exact absurd (hwho l (.job v) t hm).1 (by simp)
  | @makeDirectory path w hw =>
    have hg := createDirectory_grows σ.files path
    rw [hw] at hg
    exact h.quiet hg.toEdited
  | remove hloc hroot hn _ =>
    exact h.quiet (edited_remove hroot (locate_eq_ok_iff.mp hloc).2.found_node hn)
  | @load rules tool us hp hd =>
    refine h.entry (by simp) (by simp) fun p hp => ?_
    obtain rfl := Option.some.inj hp
    exact inProgress_ofStore hd h.onDisk [.loaded] (effect_none _ (by simp)) (by simp)
  | check hp hu =>
    refine h.entry (by simp) (by simp) fun p' hp' => ?_
    obtain rfl := Option.some.inj hp'
    exact (h.running _ hp).check h.stamped hu
  | start hp _ _ _ =>
    refine h.entry (by simp) (by simp) fun p' hp' => ?_
    obtain rfl := Option.some.inj hp'
    exact (h.running _ hp).start _
  | @list p u text w hp hu _ _ hw hc =>
    obtain ⟨w₁, hg, hw₁⟩ := saveText_ok hw
    obtain ⟨he, hwho⟩ := effect_write (.job u.id) hg hw₁
    refine h.edit he saved_notMem_ofWrite (fun l who t hm => hc l (hwho l who t hm).2)
      fun p' hp' => ⟨fun e hm => ?_, ?_⟩
    · obtain ⟨l, t, rfl⟩ := mem_ofWrite hm
      trivial
    · intro l v t hm
      obtain ⟨hv, _⟩ := hwho l (.job v) t hm
      obtain rfl := Writer.job.inj hv
      obtain rfl := Option.some.inj (hp.symm.trans hp')
      exact (h.running p hp).stale u hu
  | finish hp hid _ =>
    refine h.entry (by simp) (by simp) fun p' hp' => ?_
    obtain rfl := Option.some.inj hp'
    exact (h.running _ hp).finish hid _
  | save hp _ hs => exact h.save hp hs
  | saveFails hp hs => exact (h.quiet (Store.save_error_grows hs).toEdited).stop
  | stop => exact h.stop

theorem invariant_fresh (h : Fresh cache σ) : Invariant cache dir σ := by
  obtain ⟨hp, hlog, hnone⟩ := h
  refine ⟨?_, ?_, ?_⟩
  · rw [hlog]
    intro l who t hm
    exact absurd hm (by simp)
  · intro l n id o hl hn
    exact absurd ((hnone l hl).symm.trans hn) (by simp)
  · rw [hp]
    intro p h
    contradiction

theorem Reachable.invariant (h : Reachable cache dir σ) : Invariant cache dir σ := by
  obtain ⟨σ₀, h₀, hsteps⟩ := h
  induction hsteps with
  | refl => exact invariant_fresh h₀
  | tail _ hs ih => exact ih.step hs

end

end IncrementalLint
