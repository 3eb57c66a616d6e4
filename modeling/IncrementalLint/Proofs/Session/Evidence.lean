import IncrementalLint.Proofs.Session.Log

/-!
# What backs a success

A success that a store holds, or that a run is about to reuse, comes from a job whose start is in
the log. What has been written since that start can be told from the times of the files alone.

* `Effect`, `Stamped`      what a step writes has a time of its own, and the log knows it;
* `Settled`                what is known of the writes since the start of a job;
* `Settled.later`, `Settled.during`, `Settled.check`, `Settled.save`   how it lasts;
* `Evidence`               a success with the job that it comes from.
-/

namespace IncrementalLint

open Workspace

/-! ## what steps write -/

/-- what becomes of the files, with the entries for what is written -/
structure Effect (w w' : Workspace) (es : List Entry) : Prop
    extends Edited w w' (fun l => ∃ who t, .wrote l who t ∈ es) where
  wrote : ∀ {l : Location} {who : Writer} {t : Time}, .wrote l who t ∈ es →
    w.clock ≤ t ∧ t < w'.clock ∧ ∃ c x, w'.node? l = some (.file c t x)

/-- no file that was written is older than its last entry -/
def Stamped (w : Workspace) (log : List Entry) : Prop :=
  ∀ l who t, .wrote l who t ∈ log →
    t < w.clock ∧ ∀ n, w.node? l = some n → t ≤ n.modified

section
variable {w w' w₁ : Workspace} {es log : List Entry} {path : Path} {who : Writer}

theorem effect_of_edited (h : Edited w w' fun _ => False) (hes : ∀ l who t, .wrote l who t ∉ es) :
    Effect w w' es :=
  ⟨h.mono fun _ hf => hf.elim, fun he => absurd he (hes _ _ _)⟩

theorem ofWrite_file {l : Location} {c : ByteArray} {t : Time} {x : Bool}
    (hf : w.find path = .ok (l, .file c t x)) : Entry.ofWrite w path who = [.wrote l who t] := by
  rw [Entry.ofWrite, hf]

theorem ofWrite_other {l : Location} {n : Node} (hf : w.find path = .ok (l, n))
    (hn : ∀ c t x, n ≠ .file c t x) : Entry.ofWrite w path who = [] := by
  rw [Entry.ofWrite, hf]
  cases n with
  | file c t x => exact absurd rfl (hn c t x)
  | _ => rfl

theorem mem_ofWrite {e : Entry} (h : e ∈ Entry.ofWrite w path who) : ∃ l t, e = .wrote l who t := by
  unfold Entry.ofWrite at h
  split at h
  next l c t x _ => exact ⟨l, t, List.mem_singleton.mp h⟩
  next => exact absurd h List.not_mem_nil

theorem saved_notMem_ofWrite : .saved ∉ Entry.ofWrite w path who := fun h => by
  obtain ⟨l, t, he⟩ := mem_ofWrite h
  contradiction

/-- a file written, after directories were made for it -/
theorem effect_write (who : Writer) {content : ByteArray} (hg : Grows w w₁)
    (h : w₁.write path content = (w', .ok ())) :
    Effect w w' (Entry.ofWrite w' path who) ∧
      ∀ l who' t, .wrote l who' t ∈ Entry.ofWrite w' path who → who' = who ∧ LeadsTo w path l := by
  rcases write_ok h with ⟨l, x, hf, hw⟩ | ⟨rfl, l, n, hf, hd, hn⟩
  · have hedit := (hg.toEdited.mono fun _ h => h.elim).trans hw.toEdited
    rw [ofWrite_file hf]
    refine ⟨⟨hedit.mono fun k hk => ⟨who, w₁.clock, by simp [hk]⟩, fun {k who' t} he => ?_⟩,
      fun k who' t he => ?_⟩
    · obtain ⟨rfl, rfl, rfl⟩ := by simpa using he
      refine ⟨hg.clock, ?_, content, hw.node⟩
      rw [hw.tick]
      exact Int.lt_succ _
    · obtain ⟨rfl, rfl, rfl⟩ := by simpa using he
      exact ⟨rfl, hedit.sameLinks.leadsTo_iff.mp (leadsTo_of_find hf)⟩
  · rw [ofWrite_other hf hn]
    exact ⟨effect_of_edited hg.toEdited (by simp), by simp⟩

theorem Stamped.step (h : Stamped w log) (he : Effect w w' es) : Stamped w' (es ++ log) := by
  intro l who t ht
  rcases List.mem_append.mp ht with ht | ht
  · obtain ⟨_, hlt, c, x, hn⟩ := he.wrote ht
    refine ⟨hlt, fun n hn' => ?_⟩
    obtain rfl := Option.some.inj (hn.symm.trans hn')
    exact Int.le_refl t
  · obtain ⟨hlt, hle⟩ := h l who t ht
    refine ⟨Int.lt_of_lt_of_le hlt he.clock, fun n hn => ?_⟩
    rcases he.stamped hn with hn | ⟨hn, _⟩
    · exact hle n hn
    · exact Int.le_trans (Int.le_of_lt hlt) hn

end

/-! ## since the start of a job -/

def Before (bound : Option Time) (t : Time) : Prop := ∀ T, bound = some T → t < T

def UpTo (bound : Option Time) (t : Time) : Prop := ∀ T, bound = some T → t ≤ T

theorem before_none (t : Time) : Before none t := fun _ hT => absurd hT (by simp)

theorem before_some {t T : Time} (h : t < T) : Before (some T) t := fun _ hT => Option.some.inj hT ▸ h

theorem upTo_none (t : Time) : UpTo none t := fun _ hT => absurd hT (by simp)

theorem upTo_some {t T : Time} (h : t ≤ T) : UpTo (some T) t := fun _ hT => Option.some.inj hT ▸ h

/-- nobody edits a listing while a run is in progress -/
def Unedited (log : List Entry) (l : Location) : Prop := ∀ t, .wrote l (.edit true) t ∉ log

/-- no job of another unit makes a listing -/
def Unshared (log : List Entry) (l : Location) (id : String) : Prop :=
  ∀ v t, .wrote l (.job v) t ∈ log → v = id

/-- a unit is checked with one directory only -/
def Steady (log : List Entry) (id : String) (d : Path) : Prop :=
  ∀ u D, .checked u D ∈ log → u.id = id → u.directory = d

/-- what is known of the writes before a bound, from the start of a unit's job on: its listing was
made by jobs only, and by this one only if by the unit's own; and the files in the listing were
written between a run's look at the unit and its save only -/
structure Settled (dir : Path) (w : Workspace) (log : List Entry) (bound : Option Time) (id : String)
    (older : List Entry) : Prop where
  listing : ∀ {l : Location}, LeadsTo w (listingOf dir id) l → Unedited log l →
    ∀ {newer who t rest}, log = newer ++ .wrote l who t :: (rest ++ .started id :: older) →
      Before bound t → ∃ v, who = .job v ∧ (v = id → .loaded ∉ rest)
  files : ∀ {l : Location} {n : Node} {text : String}, LeadsTo w (listingOf dir id) l →
    w.node? l = some n → n.text? = some text → Before bound n.modified → Unedited log l →
    Unshared log l id → ∀ {d : Path}, Steady log id d → ∀ {f : Path}, f ∈ (Listing.parse text).paths →
    ∀ {k : Location}, LeadsTo w (d.join f) k →
    ∀ {newer who t rest}, log = newer ++ .wrote k who t :: (rest ++ .started id :: older) →
      UpTo bound t → Closed bound newer ∧ After id (rest ++ .started id :: older)

section
variable {dir : Path} {w w' : Workspace} {es log recent older : List Entry} {bound : Option Time}
  {T : Time} {id : String} {l : Location}

theorem Unedited.old (h : Unedited (es ++ log) l) : Unedited log l :=
  fun t ht => h t (List.mem_append_right _ ht)

theorem Unshared.old (h : Unshared (es ++ log) l id) : Unshared log l id :=
  fun v t ht => h v t (List.mem_append_right _ ht)

theorem Steady.old {d : Path} (h : Steady (es ++ log) id d) : Steady log id d :=
  fun u D hu => h u D (List.mem_append_right _ hu)

theorem not_directory_of_text {n : Node} {text : String} (h : n.text? = some text) :
    n.isDirectory = false := by
  cases n with
  | directory t => contradiction
  | _ => rfl

theorem Settled.later (he : Effect w w' es) (hT : T < w.clock) (h : Settled dir w log (some T) id older) :
    Settled dir w' (es ++ log) (some T) id older := by
  -- what is written from now on is younger than the bound, and so is nobody's concern
  have hnew {k : Location} {who : Writer} {t : Time} (hm : .wrote k who t ∈ es) : T < t :=
    Int.lt_of_lt_of_le hT (he.wrote hm).1
  have hlead {p : Path} {k : Location} : LeadsTo w' p k ↔ LeadsTo w p k := he.sameLinks.leadsTo_iff
  constructor
  · intro l hl hu newer who t rest hlog ht
    rcases split_append hlog with ⟨n, rfl, hold⟩ | ⟨n, hes, _⟩
    · exact h.listing (hlead.mp hl) hu.old hold ht
    · have hlt := hnew (hes ▸ List.mem_append_right _ List.mem_cons_self)
      exact absurd (ht T rfl) (Int.not_lt.mpr (Int.le_of_lt hlt))
  · intro l n text hl hn htext hm hu hs d hd f hf k hk newer who t rest hlog ht
    rcases split_append hlog with ⟨m, rfl, hold⟩ | ⟨m, hes, _⟩
    · have hn' := he.same hn (Int.lt_trans (hm T rfl) hT)
      obtain ⟨hc, ha⟩ := h.files (hlead.mp hl) hn' htext hm hu.old hs.old hd.old hf (hlead.mp hk) hold ht
      exact ⟨hc.grow (by simp), ha⟩
    · have hlt := hnew (hes ▸ List.mem_append_right _ List.mem_cons_self)
      exact absurd (ht T rfl) (Int.not_le.mpr hlt)

/-- while a run is in progress, nothing that it goes by gets lost -/
theorem Settled.during (he : Effect w w' es) (hin : Inside es)
    (hjob : ∀ l v t, .wrote l (.job v) t ∈ es → v ≠ id) (ha : After id log)
    (h : Settled dir w log none id older) : Settled dir w' (es ++ log) none id older := by
  have hlead {p : Path} {k : Location} : LeadsTo w' p k ↔ LeadsTo w p k := he.sameLinks.leadsTo_iff
  -- inside a run, a file that nobody edits is written by the jobs of other units only
  have hwho {k : Location} {who : Writer} {t : Time} (hm : .wrote k who t ∈ es)
      (hu : Unedited (es ++ log) k) : ∃ v, who = .job v ∧ v ≠ id := by
    have hinside := hin _ hm
    cases who with
    | edit during =>
      obtain rfl : during = true := hinside
      exact absurd (List.mem_append_left _ hm) (hu t)
    | job v => exact ⟨v, rfl, hjob k v t hm⟩
    | save => exact hinside.elim
  constructor
  · intro l hl hu newer who t rest hlog ht
    rcases split_append hlog with ⟨n, rfl, hold⟩ | ⟨n, hes, _⟩
    · exact h.listing (hlead.mp hl) hu.old hold (before_none t)
    · obtain ⟨v, rfl, hv⟩ := hwho (hes ▸ List.mem_append_right _ List.mem_cons_self) hu
      exact ⟨v, rfl, fun hid => absurd hid hv⟩
  · intro l n text hl hn htext _ hu hs d hd f hf k hk newer who t rest hlog _
    have hn' : w.node? l = some n := by
      rcases he.others hn with hn | hn | ⟨who', t', hm⟩
      · exact hn
      · exact absurd (not_directory_of_text htext) (by simp [hn])
      · obtain ⟨v, rfl, hv⟩ := hwho hm hu
        exact absurd (hs v t' (List.mem_append_left _ hm)) hv
    rcases split_append hlog with ⟨m, rfl, hold⟩ | ⟨m, hes, hpast⟩
    · obtain ⟨hc, ha'⟩ := h.files (hlead.mp hl) hn' htext (before_none _) hu.old hs.old hd.old hf
        (hlead.mp hk) hold (upTo_none t)
      exact ⟨hc.grow fun _ => hin.not_loaded, ha'⟩
    · have hload := hin.not_loaded
      rw [hes, List.mem_append, List.mem_cons, not_or, not_or] at hload
      refine ⟨Or.inl ⟨rfl, hload.1⟩, ?_⟩
      rw [hpast]
      exact ha.grow hload.2.2

/-- of a job that started in the run in progress, everything is known -/
theorem settled_of_started (hlog : log = recent ++ .started id :: older) (hin : Inside recent) :
    Settled dir w log none id older := by
  have hcut {newer rest : List Entry} {e : Entry}
      (h : log = newer ++ e :: (rest ++ .started id :: older)) : recent = newer ++ e :: rest := by
    rw [hlog] at h
    have hlog' : recent ++ .started id :: older = (newer ++ e :: rest) ++ .started id :: older :=
      h.trans (by simp)
    exact List.append_cancel_right hlog'
  constructor
  · intro l _ hu newer who t rest h _
    have hrecent := hcut h
    have hinside := hin (.wrote l who t) (by simp [hrecent])
    cases who with
    | edit during =>
      obtain rfl : during = true := hinside
      exact absurd (by simp [h]) (hu t)
    | job v => exact ⟨v, rfl, fun _ hl => hin.not_loaded (by simp [hrecent, hl])⟩
    | save => exact hinside.elim
  · intro l n text _ _ _ _ _ _ d _ f _ k _ newer who t rest h _
    have hrecent := hcut h
    refine ⟨Or.inl ⟨rfl, fun hl => hin.not_loaded (by simp [hrecent, hl])⟩, ?_⟩
    exact ⟨rest, .started id, older, rfl, fun hl => hin.not_loaded (by simp [hrecent, hl]), rfl⟩

/-- what is known of the past is all there is to know of the files that a unit is found reusable by -/
theorem Settled.check {n : Node} {text : String} {u : SourceUnit} {o : Outcome} (hs : Stamped w log)
    (hl : w.find (listingOf dir u.id) = .ok (l, n)) (htext : n.text? = some text)
    (hm : n.modified < T) (hfiles : ∀ f ∈ (Listing.parse text).paths,
      ∃ k m, w.find (u.directory.join f) = .ok (k, m) ∧ m.modified ≤ T)
    (h : Settled dir w log (some T) u.id older) :
    Settled dir w (.checked u (.cached o) :: log) none u.id older := by
  constructor
  · intro l' hl' hu newer who t rest hlog _
    obtain rfl := (leadsTo_of_find hl).unique hl'
    have hu' : Unedited ([.checked u (.cached o)] ++ log) l' := hu
    obtain ⟨m, rfl, hold⟩ := split_cons hlog (by simp)
    have hmem : .wrote l' who t ∈ log := by simp [hold]
    have hle := (hs _ _ _ hmem).2 n (node_of_find hl)
    exact h.listing hl' hu'.old hold (before_some (Int.lt_of_le_of_lt hle hm))
  · intro l' n' text' hl' hn' htext' _ hu hown d hd f hf k hk newer who t rest hlog _
    obtain rfl := (leadsTo_of_find hl).unique hl'
    obtain rfl := Option.some.inj ((node_of_find hl).symm.trans hn')
    obtain rfl := Option.some.inj (htext.symm.trans htext')
    obtain rfl := hd u (.cached o) List.mem_cons_self rfl
    have hu' : Unedited ([.checked u (.cached o)] ++ log) l' := hu
    have hown' : Unshared ([.checked u (.cached o)] ++ log) l' u.id := hown
    have hd' : Steady ([.checked u (.cached o)] ++ log) u.id u.directory := hd
    obtain ⟨k', m, hfind, hle⟩ := hfiles f hf
    obtain rfl := (leadsTo_of_find hfind).unique hk
    obtain ⟨m', rfl, hold⟩ := split_cons hlog (by simp)
    have hmem : .wrote k who t ∈ log := by simp [hold]
    have ht := (hs _ _ _ hmem).2 m (node_of_find hfind)
    obtain ⟨hc, ha⟩ := h.files hl' hn' htext (before_some hm) hu'.old hown'.old hd'.old hf hk hold
      (upTo_some (Int.le_trans ht hle))
    refine ⟨?_, ha⟩
    rcases hc with ⟨hb, _⟩ | ⟨a, b, rfl, hb⟩
    · contradiction
    · exact Or.inr ⟨.checked u (.cached o) :: a, b, rfl, hb⟩

/-- a save turns what is known in the run into what is known of the past -/
theorem Settled.save {s : Store} {cache : Path} {c : Location} (hw : s.SavedAt w w' cache c T)
    (ha : After id log) (h : Settled dir w log none id older) :
    Settled dir w' (.saved :: .wrote c .save T :: log) (some T) id older := by
  obtain ⟨x, hfind⟩ := hw.find
  have hlead {p : Path} {k : Location} : LeadsTo w' p k ↔ LeadsTo w p k := hw.sameLinks.leadsTo_iff
  have hcut {newer past : List Entry} {k : Location} {who : Writer} {t : Time}
      (hlog : .saved :: .wrote c .save T :: log = newer ++ .wrote k who t :: past) :
      (newer = [.saved] ∧ t = T ∧ past = log) ∨
        ∃ m, newer = .saved :: .wrote c .save T :: m ∧ log = m ++ .wrote k who t :: past := by
    have hlog' : [.saved, .wrote c .save T] ++ log = newer ++ .wrote k who t :: past := hlog
    rcases split_append hlog' with ⟨m, hm, hold⟩ | ⟨m, hes, hpast⟩
    · exact Or.inr ⟨m, hm, hold⟩
    · refine Or.inl ?_
      cases newer with
      | nil => simp at hes
      | cons a newer =>
        cases newer with
        | nil => simp_all
        | cons b newer => simp at hes
  constructor
  · intro l hl hu newer who t rest hlog ht
    have hu' : Unedited ([.saved, .wrote c .save T] ++ log) l := hu
    rcases hcut hlog with ⟨_, rfl, _⟩ | ⟨m, _, hold⟩
    · exact absurd (ht t rfl) (Int.lt_irrefl t)
    · exact h.listing (hlead.mp hl) hu'.old hold (before_none t)
  · intro l n text hl hn htext hm hu hs d hd f hf k hk newer who t rest hlog ht
    have hu' : Unedited ([.saved, .wrote c .save T] ++ log) l := hu
    have hs' : Unshared ([.saved, .wrote c .save T] ++ log) l id := hs
    have hd' : Steady ([.saved, .wrote c .save T] ++ log) id d := hd
    have hn' : w.node? l = some n := by
      rcases hw.others hn with hn | hn' | rfl
      · exact hn
      · exact absurd (not_directory_of_text htext) (by simp [hn'])
      · obtain rfl := Option.some.inj ((node_of_find hfind).symm.trans hn)
        exact absurd (hm T rfl) (Int.lt_irrefl T)
    rcases hcut hlog with ⟨rfl, rfl, hpast⟩ | ⟨m, rfl, hold⟩
    · rw [hpast]
      exact ⟨Or.inr ⟨[], [], rfl, by simp⟩, ha⟩
    · obtain ⟨hc, ha'⟩ := h.files (hlead.mp hl) hn' htext (before_none _) hu'.old hs'.old hd'.old
        hf (hlead.mp hk) hold (upTo_none t)
      exact ⟨hc.save (by simp) _, ha'⟩

/-! ## evidence -/

/-- a success comes from a job that the log knows, and all is known since its start -/
def Evidence (dir : Path) (w : Workspace) (log : List Entry) (bound : Option Time) (id : String)
    (o : Outcome) : Prop :=
  ∃ recent older, log = recent ++ .started id :: older ∧ Carried bound recent id o ∧
    Settled dir w log bound id older

variable {o : Outcome}

theorem Evidence.later (he : Effect w w' es) (hT : T < w.clock) (hs : .saved ∉ es)
    (h : Evidence dir w log (some T) id o) : Evidence dir w' (es ++ log) (some T) id o := by
  obtain ⟨recent, older, hlog, hc, hk⟩ := h
  exact ⟨es ++ recent, older, by rw [hlog, List.append_assoc], hc.later hs, hk.later he hT⟩

theorem Evidence.during (he : Effect w w' es) (hin : Inside es)
    (hjob : ∀ l v t, .wrote l (.job v) t ∈ es → v ≠ id) (ha : After id log)
    (h : Evidence dir w log none id o) : Evidence dir w' (es ++ log) none id o := by
  obtain ⟨recent, older, hlog, hc, hk⟩ := h
  exact ⟨es ++ recent, older, by rw [hlog, List.append_assoc], hc.during hin, hk.during he hin hjob ha⟩

theorem Evidence.save {s : Store} {cache : Path} {c : Location} (hw : s.SavedAt w w' cache c T)
    (ha : After id log) (h : Evidence dir w log none id o) :
    Evidence dir w' (.saved :: .wrote c .save T :: log) (some T) id o := by
  obtain ⟨recent, older, hlog, hc, hk⟩ := h
  refine ⟨.saved :: .wrote c .save T :: recent, older, by rw [hlog]; rfl, ?_, hk.save hw ha⟩
  exact hc.save (by simp) (by simp) T

end

end IncrementalLint
