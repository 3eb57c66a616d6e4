import IncrementalLint.Proofs.Session.Steps

/-!
# What a log tells

The log of a session, newest entry first, cut in two at one of its entries.

* `Inside`            entries that a run in progress may have seen;
* `After`             a run in progress has checked a unit, or started its job;
* `Saves`, `Closed`   a run that was in progress has saved since, or is still in progress;
* `Windowed`          what came between a run's look at a unit and its save;
* `ResultOf`          a job's result, saved by its run and reused by all that saved later;
* `split_append`      a log that has grown, cut in two.
-/

namespace IncrementalLint

/-- what can happen while a run is in progress -/
def Entry.Inside : Entry → Prop
  | .wrote _ (.edit during) _ => during = true
  | .wrote _ .save _ => False
  | .loaded => False
  | .saved => False
  | _ => True

def Inside (es : List Entry) : Prop := ∀ e ∈ es, e.Inside

/-- whether a run finds a unit reusable, or starts its job -/
def Entry.Opens (id : String) : Entry → Prop
  | .checked u (.cached _) => u.id = id
  | .started i => i = id
  | _ => False

/-- a run in progress has found a unit reusable, or started its job -/
def After (id : String) (log : List Entry) : Prop :=
  ∃ since e before, log = since ++ e :: before ∧ .loaded ∉ since ∧ e.Opens id

/-- the run that was in progress has saved -/
def Saves (newer : List Entry) : Prop := ∃ a b, newer = a ++ .saved :: b ∧ .loaded ∉ b

/-- it has saved; without a bound, it may still be in progress -/
def Closed (bound : Option Time) (newer : List Entry) : Prop :=
  (bound = none ∧ .loaded ∉ newer) ∨ Saves newer

/-- between a run's look at a unit and its save; `newer` and `older` are the entries around -/
def Windowed (id : String) (newer older : List Entry) : Prop := Saves newer ∧ After id older

/-- a run that has begun since has found an outcome reusable, and is the last that has begun -/
def Kept (id : String) (o : Outcome) (later : List Entry) : Prop :=
  .loaded ∈ later → ∃ since u before, later = since ++ .checked u (.cached o) :: before ∧
    .loaded ∉ since ∧ u.id = id

/-- an outcome is that of the job that started before these entries; the run of the job has saved
it, and every run that has saved since has reused it -/
def ResultOf (recent : List Entry) (id : String) (o : Outcome) : Prop :=
  ∃ later during, recent = later ++ .finished id o :: during ∧ .loaded ∉ during ∧ Saves later ∧
    ∀ a b, later = a ++ .saved :: b → Kept id o b

/-- the same of a run that may still be in progress -/
def Carried (bound : Option Time) (recent : List Entry) (id : String) (o : Outcome) : Prop :=
  ∃ later during, recent = later ++ .finished id o :: during ∧ .loaded ∉ during ∧
    Closed bound later ∧ (∀ a b, later = a ++ .saved :: b → Kept id o b) ∧
    (bound = none → Kept id o later)

section
variable {es log newer past recent : List Entry} {e x : Entry} {id : String} {o : Outcome}
  {bound : Option Time}

/-- a log that has grown, cut in two: the cut is among the old entries or among the new ones -/
theorem split_append (h : es ++ log = newer ++ x :: past) :
    (∃ n, newer = es ++ n ∧ log = n ++ x :: past) ∨ ∃ n, es = newer ++ x :: n ∧ past = n ++ log := by
  rcases List.append_eq_append_iff.mp h with ⟨n, hn, hlog⟩ | ⟨n, hn, hpast⟩
  · exact Or.inl ⟨n, hn, hlog⟩
  · cases n with
    | nil => exact Or.inl ⟨[], by simp_all, by simp_all⟩
    | cons y n =>
      obtain ⟨rfl, rfl⟩ := List.cons.inj hpast
      exact Or.inr ⟨n, hn, rfl⟩

theorem split_cons (h : e :: log = newer ++ x :: past) (hne : e ≠ x) :
    ∃ n, newer = e :: n ∧ log = n ++ x :: past := by
  cases newer with
  | nil => exact absurd (List.cons.inj h).1 hne
  | cons y n =>
    obtain ⟨rfl, hlog⟩ := List.cons.inj h
    exact ⟨n, rfl, hlog⟩

/-- what stands in front of an entry comes before it in every cut -/
theorem mem_of_split (h : newer ++ x :: past = recent ++ e :: log) (hn : e ∉ newer) (hne : e ≠ x) :
    x ∈ recent := by
  have h' : (newer ++ [x]) ++ past = recent ++ e :: log := by simpa using h
  rcases split_append h' with ⟨n, hrecent, _⟩ | ⟨n, hes, _⟩
  · simp [hrecent]
  · have hmem : e ∈ newer ++ [x] := hes ▸ List.mem_append_right _ List.mem_cons_self
    rcases List.mem_append.mp hmem with hmem | hmem
    · exact absurd hmem hn
    · exact absurd (List.mem_singleton.mp hmem) hne

theorem Inside.not_loaded (h : Inside es) : .loaded ∉ es := fun he => h _ he

theorem Inside.append {es' : List Entry} (h : Inside es) (h' : Inside es') : Inside (es ++ es') :=
  fun e he => (List.mem_append.mp he).elim (h e) (h' e)

theorem After.grow (h : After id log) (he : .loaded ∉ es) : After id (es ++ log) := by
  obtain ⟨since, e, before, rfl, hs, ho⟩ := h
  refine ⟨es ++ since, e, before, (List.append_assoc _ _ _).symm, ?_, ho⟩
  rw [List.mem_append, not_or]
  exact ⟨he, hs⟩

theorem after_of_opens (h : e.Opens id) : After id (e :: log) := ⟨[], e, log, rfl, by simp, h⟩

theorem Closed.grow (h : Closed bound newer) (hb : bound = none → .loaded ∉ es) :
    Closed bound (es ++ newer) := by
  rcases h with ⟨hn, hl⟩ | ⟨a, b, rfl, hl⟩
  · refine Or.inl ⟨hn, ?_⟩
    rw [List.mem_append, not_or]
    exact ⟨hb hn, hl⟩
  · exact Or.inr ⟨es ++ a, b, (List.append_assoc _ _ _).symm, hl⟩

theorem Closed.save (h : Closed bound newer) (hx : x ≠ .loaded) (bound' : Option Time) :
    Closed bound' (.saved :: x :: newer) := by
  rcases h with ⟨_, hl⟩ | ⟨a, b, rfl, hl⟩
  · refine Or.inr ⟨[], x :: newer, rfl, ?_⟩
    rw [List.mem_cons, not_or]
    exact ⟨hx.symm, hl⟩
  · exact Or.inr ⟨.saved :: x :: a, b, rfl, hl⟩

theorem Inside.not_saved (h : Inside es) : .saved ∉ es := fun he => h _ he

theorem Kept.grow {later : List Entry} (h : Kept id o later) (he : .loaded ∉ es) :
    Kept id o (es ++ later) := by
  intro hl
  rcases List.mem_append.mp hl with hl | hl
  · exact absurd hl he
  · obtain ⟨since, u, before, rfl, hs, hid⟩ := h hl
    refine ⟨es ++ since, u, before, (List.append_assoc _ _ _).symm, ?_, hid⟩
    rw [List.mem_append, not_or]
    exact ⟨he, hs⟩

/-- of entries without a save, every save was there before -/
theorem kept_append {later : List Entry} (h : ∀ a b, later = a ++ .saved :: b → Kept id o b)
    (he : .saved ∉ es) : ∀ a b, es ++ later = a ++ .saved :: b → Kept id o b := by
  intro a b hcut
  rcases split_append hcut with ⟨n, rfl, hold⟩ | ⟨n, hes, _⟩
  · exact h n b hold
  · exact absurd (hes ▸ List.mem_append_right _ List.mem_cons_self) he

theorem Carried.resultOf {T : Time} (h : Carried (some T) recent id o) : ResultOf recent id o := by
  obtain ⟨later, during, hrecent, hl, hc, hk, _⟩ := h
  rcases hc with ⟨hb, _⟩ | hs
  · contradiction
  · exact ⟨later, during, hrecent, hl, hs, hk⟩

theorem Carried.later {T : Time} (h : Carried (some T) recent id o) (he : .saved ∉ es) :
    Carried (some T) (es ++ recent) id o := by
  obtain ⟨later, during, rfl, hl, hc, hk, _⟩ := h
  exact ⟨es ++ later, during, (List.append_assoc _ _ _).symm, hl, hc.grow (by simp),
    kept_append hk he, by simp⟩

theorem Carried.during (h : Carried none recent id o) (hin : Inside es) :
    Carried none (es ++ recent) id o := by
  obtain ⟨later, during, rfl, hl, hc, hk, hlast⟩ := h
  exact ⟨es ++ later, during, (List.append_assoc _ _ _).symm, hl, hc.grow fun _ => hin.not_loaded,
    kept_append hk hin.not_saved, fun _ => (hlast rfl).grow hin.not_loaded⟩

/-- a run that finds the outcome reusable carries it on -/
theorem Carried.check {T : Time} {u : SourceUnit} (h : Carried (some T) recent u.id o) :
    Carried none (.checked u (.cached o) :: recent) u.id o := by
  obtain ⟨later, during, rfl, hl, ⟨a, b, rfl, hs⟩, hk⟩ := h.resultOf
  refine ⟨.checked u (.cached o) :: (a ++ .saved :: b), during, by simp, hl, ?_, ?_, fun _ _ => ?_⟩
  · exact Or.inr ⟨.checked u (.cached o) :: a, b, rfl, hs⟩
  · exact kept_append hk (by simp : Entry.saved ∉ [Entry.checked u (.cached o)])
  · exact ⟨[], u, _, rfl, by simp, rfl⟩

theorem Carried.save (h : Carried none recent id o) (hl : x ≠ .loaded) (hs : x ≠ .saved) (T : Time) :
    Carried (some T) (.saved :: x :: recent) id o := by
  obtain ⟨later, during, rfl, hd, hc, hk, hlast⟩ := h
  have hkept : Kept id o ([x] ++ later) := (hlast rfl).grow (by simpa using hl.symm)
  have hcuts := kept_append hk (by simpa using hs.symm : Entry.saved ∉ [x])
  refine ⟨.saved :: x :: later, during, rfl, hd, hc.save hl _, fun a b hcut => ?_, by simp⟩
  cases a with
  | nil =>
    obtain rfl := (List.cons.inj hcut).2
    exact hkept
  | cons y a => exact hcuts a b (List.cons.inj hcut).2

theorem carried_of_inside (h : Inside recent) (hm : .finished id o ∈ recent) :
    Carried none recent id o := by
  obtain ⟨later, during, rfl⟩ := List.append_of_mem hm
  have hload := h.not_loaded
  have hsave := h.not_saved
  rw [List.mem_append, List.mem_cons, not_or, not_or] at hload hsave
  refine ⟨later, during, rfl, hload.2.2, Or.inl ⟨rfl, hload.1⟩, fun a b hcut => ?_, fun _ hl => ?_⟩
  · exact absurd (by simp [hcut]) hsave.1
  · exact absurd hl hload.1

end

end IncrementalLint
