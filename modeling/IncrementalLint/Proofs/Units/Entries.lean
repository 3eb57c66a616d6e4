import IncrementalLint.Units
import Mathlib.Data.List.Basic

/-!
# Entries and their units

Of the entries that give one id, the first one decides: the unit is its unit, and there is none if it
has no command. What the filter takes does not change which entry is the first one.

* `CompileEntry.unit?`              the unit of an entry, whatever stands before it;
* `CompileEntry.leading`            the entries that come first with their id;
* `CompileEntry.select_eq_leading`  the units among entries are those of the leading ones;
* `CompileEntry.mem_select_iff`     the same, of one unit;
* `CompileEntry.select_increasing`  units stand in the order of the entries that decided;
* `Workspace.entries?`              the entries of a database file;
* `SourceUnit.enumerate_eq`         its units.
-/

namespace IncrementalLint

namespace CompileEntry

/-! ## one entry -/

/-- whether an entry gives an id -/
def gives (root : Path) (id : String) (e : CompileEntry) : Bool := e.id? root == some id

/-- the unit that an entry gives, whatever stands before it -/
def unit? (root : Path) (filter : UnitFilter) (e : CompileEntry) : Option SourceUnit :=
  (e.id? root).bind fun id => if filter.accepts id then e.commandLine?.map (e.unit id) else none

section
variable {root : Path} {filter f g : UnitFilter} {e : CompileEntry} {u : SourceUnit} {id : String}

theorem gives_iff : e.gives root id = true ↔ e.id? root = some id := beq_iff_eq

theorem unit?_eq_some_iff : e.unit? root filter = some u ↔ e.id? root = some u.id ∧
    filter.accepts u.id = true ∧ u.path = e.path ∧ e.commandLine? = some u.command ∧
      u.directory = e.directory := by
  rw [unit?, Option.bind_eq_some_iff]
  constructor
  · rintro ⟨id, hid, h⟩
    split at h
    next hf =>
      obtain ⟨command, hcommand, rfl⟩ := Option.map_eq_some_iff.mp h
      exact ⟨hid, hf, rfl, hcommand, rfl⟩
    next => contradiction
  · rintro ⟨hid, hf, hpath, hcommand, hdir⟩
    refine ⟨u.id, hid, ?_⟩
    rw [if_pos hf, hcommand, Option.map_some, unit, ← hpath, ← hdir]

theorem unit?_of_id (h : e.id? root = some id) : e.unit? root filter =
    if filter.accepts id then e.commandLine?.map (e.unit id) else none := by
  rw [unit?, h, Option.bind_some]

/-- a filter that takes less takes some of the units -/
theorem unit?_of_narrower (h : ∀ id, f.accepts id = true → g.accepts id = true) (e : CompileEntry) :
    e.unit? root f = (e.unit? root g).filter fun u => f.accepts u.id := by
  refine Option.ext fun u => ?_
  rw [Option.filter_eq_some_iff, unit?_eq_some_iff, unit?_eq_some_iff]
  constructor
  · rintro ⟨hid, hf, hrest⟩
    exact ⟨⟨hid, h _ hf, hrest⟩, hf⟩
  · rintro ⟨⟨hid, _, hrest⟩, hf⟩
    exact ⟨hid, hf, hrest⟩

end

/-! ## the entries that come first -/

/-- the entries below the root that come first with their id -/
def leading (root : Path) : List CompileEntry → List CompileEntry
  | [] => []
  | e :: es =>
    match e.id? root with
    | none => leading root es
    | some id => e :: (leading root es).filter fun x => !x.gives root id

/-- the first entry that gives an id -/
def first? (root : Path) (es : List CompileEntry) (id : String) : Option CompileEntry :=
  es.find? (gives root id)

section
variable {root : Path} {filter f g : UnitFilter} {e : CompileEntry} {es : List CompileEntry}
  {u : SourceUnit} {id : String}

theorem leading_cons_none (h : e.id? root = none) : leading root (e :: es) = leading root es := by
  rw [leading, h]

theorem leading_cons_some (h : e.id? root = some id) :
    leading root (e :: es) = e :: (leading root es).filter fun x => !x.gives root id := by
  rw [leading, h]

theorem mem_leading_iff : e ∈ leading root es ↔ ∃ id, e.id? root = some id ∧ first? root es id = some e := by
  induction es with
  | nil => simp [leading, first?]
  | cons a es ih =>
    cases ha : a.id? root with
    | none =>
      have hskip (id : String) : first? root (a :: es) id = first? root es id := by
        rw [first?, List.find?_cons_of_neg (by simp [gives, ha])]
        rfl
      simp only [leading_cons_none ha, ih, hskip]
    | some own =>
      rw [leading_cons_some ha, List.mem_cons, List.mem_filter, ih]
      constructor
      · rintro (rfl | ⟨⟨id, hid, hfirst⟩, hother⟩)
        · exact ⟨own, ha, List.find?_cons_of_pos (gives_iff.mpr ha)⟩
        · refine ⟨id, hid, ?_⟩
          have hne : ¬a.gives root id = true := by
            rw [gives_iff, ha]
            rintro h
            rw [gives, hid, h] at hother
            simp at hother
          rw [first?, List.find?_cons_of_neg hne]
          exact hfirst
      · rintro ⟨id, hid, hfirst⟩
        by_cases hown : own = id
        · subst hown
          rw [first?, List.find?_cons_of_pos (gives_iff.mpr ha)] at hfirst
          exact Or.inl (Option.some.inj hfirst).symm
        · rw [first?, List.find?_cons_of_neg (by simpa [gives, ha] using hown)] at hfirst
          exact Or.inr ⟨⟨id, hid, hfirst⟩, by simpa [gives, hid] using Ne.symm hown⟩

/-- the first entries of two ids stand where the entries do -/
theorem leading_increasing : (leading root es).Pairwise fun a b => ∀ id id', a.id? root = some id →
    b.id? root = some id' → es.findIdx (gives root id) < es.findIdx (gives root id') := by
  induction es with
  | nil => exact List.Pairwise.nil
  | cons a es ih =>
    cases ha : a.id? root with
    | none =>
      rw [leading_cons_none ha]
      refine ih.imp fun h id id' hid hid' => ?_
      have hskip (id : String) : (a :: es).findIdx (gives root id) = es.findIdx (gives root id) + 1 := by
        rw [List.findIdx_cons, gives, ha]
        rfl
      rw [hskip, hskip]
      exact Nat.succ_lt_succ (h id id' hid hid')
    | some own =>
      have hpos {id : String} (hne : own ≠ id) :
          (a :: es).findIdx (gives root id) = es.findIdx (gives root id) + 1 := by
        rw [List.findIdx_cons, show gives root id a = false by simpa [gives, ha] using hne]
        rfl
      have hother {x : CompileEntry} {id : String} (hx : (!x.gives root own) = true)
          (hid : x.id? root = some id) : own ≠ id := by
        rintro rfl
        rw [gives, hid] at hx
        simp at hx
      rw [leading_cons_some ha, List.pairwise_cons]
      constructor
      · intro b hb id id' hid hid'
        obtain rfl := Option.some.inj (ha.symm.trans hid)
        rw [hpos (hother (List.mem_filter.mp hb).2 hid'), List.findIdx_cons, gives_iff.mpr ha]
        exact Nat.succ_pos _
      · rw [List.pairwise_filter]
        refine ih.imp fun h hx hy id id' hid hid' => ?_
        rw [hpos (hother hx hid), hpos (hother hy hid')]
        exact Nat.succ_lt_succ (h id id' hid hid')

/-! ## the units among entries -/

/-- the units of the other entries are those with another id -/
theorem filterMap_other (es : List CompileEntry) :
    (es.filter fun x => !x.gives root id).filterMap (unit? root filter) =
      (es.filterMap (unit? root filter)).filter fun u => u.id != id := by
  rw [List.filterMap_filter, List.filter_filterMap]
  refine List.filterMap_congr fun e _ => Option.ext fun u => ?_
  rw [Option.filter_eq_some_iff, bne_iff_ne]
  constructor
  · intro h
    split at h
    next hother =>
      refine ⟨h, ?_⟩
      rintro rfl
      rw [gives, (unit?_eq_some_iff.mp h).1] at hother
      simp at hother
    next => contradiction
  · rintro ⟨h, hne⟩
    rw [if_pos, h]
    simpa [gives, (unit?_eq_some_iff.mp h).1] using hne

/-- the units whose id was not seen -/
def unseen (seen : List String) (us : List SourceUnit) : List SourceUnit :=
  us.filter fun u => !seen.contains u.id

theorem unseen_filter (seen : List String) (us : List SourceUnit) :
    unseen seen (us.filter fun u => u.id != id) = unseen (id :: seen) us := by
  rw [unseen, List.filter_filter]
  refine List.filter_congr fun u _ => ?_
  rw [List.contains_cons, Bool.not_or, Bool.and_comm, bne]

theorem unseen_again {seen : List String} (h : seen.contains id = true) (us : List SourceUnit) :
    unseen (id :: seen) us = unseen seen us := by
  refine List.filter_congr fun u _ => ?_
  by_cases hu : u.id = id
  · rw [hu, h, List.contains_cons, h, Bool.or_true]
  · rw [List.contains_cons, beq_eq_false_iff_ne.mpr hu, Bool.false_or]

/-- the units of the leading entries, less those whose id was seen -/
theorem selectFrom_eq (seen : List String) : selectFrom root filter seen es =
    unseen seen ((leading root es).filterMap (unit? root filter)) := by
  induction es generalizing seen with
  | nil => rfl
  | cons e es ih =>
    rw [selectFrom]
    cases he : e.id? root with
    | none =>
      rw [leading_cons_none he]
      exact ih seen
    | some id =>
      rw [leading_cons_some he, List.filterMap_cons, filterMap_other, unit?_of_id he]
      simp only [ih]
      generalize hus : (leading root es).filterMap (unit? root filter) = us
      by_cases hf : filter.accepts id = true
      · rw [if_pos hf, hf, Bool.not_true, Bool.false_or]
        by_cases hs : seen.contains id = true
        · rw [if_pos hs, ← unseen_again hs, ← unseen_filter]
          cases e.commandLine? with
          | none => rfl
          | some command => exact (List.filter_cons_of_neg (by simpa [unit] using hs)).symm
        · rw [if_neg hs, ← unseen_filter]
          cases e.commandLine? with
          | none => rfl
          | some command => exact (List.filter_cons_of_pos (by simpa [unit] using hs)).symm
      · -- an entry that is passed over need not be marked: no unit has an id that is not taken
        have hall : ∀ u ∈ us, (u.id != id) = true := by
          intro u hu
          obtain ⟨x, _, hx⟩ := List.mem_filterMap.mp (hus ▸ hu)
          rw [bne_iff_ne]
          rintro rfl
          exact hf (unit?_eq_some_iff.mp hx).2.1
        rw [if_neg hf, List.filter_eq_self.mpr hall, if_pos (by simp [hf])]

/-- the units among entries are those of the leading ones -/
theorem select_eq_leading : select root filter es = (leading root es).filterMap (unit? root filter) := by
  rw [select, selectFrom_eq, unseen]
  exact List.filter_eq_self.mpr fun _ _ => rfl

theorem mem_select_iff : u ∈ select root filter es ↔
    ∃ e, first? root es u.id = some e ∧ e.unit? root filter = some u := by
  rw [select_eq_leading, List.mem_filterMap]
  refine exists_congr fun e => ?_
  rw [mem_leading_iff]
  constructor
  · rintro ⟨⟨id, hid, hfirst⟩, hu⟩
    obtain rfl := Option.some.inj (hid.symm.trans (unit?_eq_some_iff.mp hu).1)
    exact ⟨hfirst, hu⟩
  · rintro ⟨hfirst, hu⟩
    exact ⟨⟨u.id, (unit?_eq_some_iff.mp hu).1, hfirst⟩, hu⟩

/-- an id comes with a unit if the filter takes it, and its first entry has a command -/
theorem exists_select_iff : (∃ u ∈ select root filter es, u.id = id) ↔
    filter.accepts id = true ∧ ∃ e, first? root es id = some e ∧ e.commandLine?.isSome = true := by
  constructor
  · rintro ⟨u, hu, rfl⟩
    obtain ⟨e, hfirst, h⟩ := mem_select_iff.mp hu
    obtain ⟨_, hf, _, hcommand, _⟩ := unit?_eq_some_iff.mp h
    exact ⟨hf, e, hfirst, by rw [hcommand, Option.isSome_some]⟩
  · rintro ⟨hf, e, hfirst, hsome⟩
    obtain ⟨command, hcommand⟩ := Option.isSome_iff_exists.mp hsome
    have hid := gives_iff.mp (List.find?_some hfirst)
    have hunit : e.unit? root filter = some (e.unit id command) := by
      rw [unit?_of_id hid, if_pos hf, hcommand, Option.map_some]
    exact ⟨e.unit id command, mem_select_iff.mpr ⟨e, hfirst, hunit⟩, rfl⟩

/-- units stand in the order of the entries that gave them -/
theorem select_increasing : (select root filter es).Pairwise fun u v =>
    es.findIdx (gives root u.id) < es.findIdx (gives root v.id) := by
  rw [select_eq_leading, List.pairwise_filterMap]
  refine leading_increasing.imp fun h u hu v hv => ?_
  exact h _ _ (unit?_eq_some_iff.mp hu).1 (unit?_eq_some_iff.mp hv).1

/-- no id comes twice -/
theorem select_nodup : ((select root filter es).map (·.id)).Nodup := by
  rw [List.Nodup, List.pairwise_map]
  refine select_increasing.imp fun hlt he => ?_
  rw [he] at hlt
  exact Nat.lt_irrefl _ hlt

/-- a filter that takes less selects some of the units, as they are and in their order -/
theorem select_of_narrower (h : ∀ id, f.accepts id = true → g.accepts id = true) :
    select root f es = (select root g es).filter fun u => f.accepts u.id := by
  rw [select_eq_leading, select_eq_leading, List.filter_filterMap]
  exact List.filterMap_congr fun e _ => unit?_of_narrower h e

end

end CompileEntry

/-! ## the units of a database file -/

/-- the entries of a database file; none if it cannot be read, or is no list of entries -/
def Workspace.entries? (w : Workspace) (db : Path) : Option (List CompileEntry) :=
  (w.readText db).toOption.bind fun text =>
    (Json.read? text).bind (Json.asList? CompileEntry.ofJson?)

namespace SourceUnit

section
variable {w : Workspace} {db root : Path} {filter : UnitFilter} {es : List CompileEntry}
  {us : List SourceUnit}

theorem enumerate_eq (h : w.entries? db = some es) : enumerate w db root filter =
    match CompileEntry.select root filter es with
    | [] => .error (.noUnits db)
    | us => .ok us := by
  unfold Workspace.entries? at h
  unfold enumerate
  cases hread : w.readText db with
  | error e =>
    rw [hread] at h
    contradiction
  | ok text =>
    rw [hread] at h
    have hparsed : (Json.read? text).bind (Json.asList? CompileEntry.ofJson?) = some es := h
    dsimp only
    generalize (Json.read? text).bind (Json.asList? CompileEntry.ofJson?) = parsed at hparsed ⊢
    subst hparsed
    rfl

/-- what no entries can be read from fails with one error, whatever is looked for -/
theorem enumerate_of_unreadable (h : w.entries? db = none) :
    ∃ e, e ≠ .noUnits db ∧ ∀ root filter, enumerate w db root filter = .error e := by
  unfold Workspace.entries? at h
  unfold enumerate
  cases hread : w.readText db with
  | error e => exact ⟨.unreadable db e, by simp, fun _ _ => rfl⟩
  | ok text =>
    rw [hread] at h
    dsimp only
    rw [show (Json.read? text).bind (Json.asList? CompileEntry.ofJson?) = none from h]
    exact ⟨.malformed db, by simp, fun _ _ => rfl⟩

theorem enumerate_eq_ok_iff : enumerate w db root filter = .ok us ↔
    us ≠ [] ∧ ∃ es, w.entries? db = some es ∧ CompileEntry.select root filter es = us := by
  cases h : w.entries? db with
  | none =>
    obtain ⟨e, _, he⟩ := enumerate_of_unreadable h
    simp [he]
  | some es =>
    rw [enumerate_eq h]
    cases hs : CompileEntry.select root filter es with
    | nil =>
      simp only [reduceCtorEq, Option.some.injEq, exists_eq_left', hs, false_iff, not_and]
      exact fun hne he => hne he.symm
    | cons u rest =>
      simp only [Except.ok.injEq, Option.some.injEq, exists_eq_left', hs]
      refine (and_iff_right_of_imp ?_).symm
      rintro rfl
      exact List.cons_ne_nil _ _

theorem enumerate_eq_noUnits_iff (h : w.entries? db = some es) :
    enumerate w db root filter = .error (.noUnits db) ↔ CompileEntry.select root filter es = [] := by
  rw [enumerate_eq h]
  cases CompileEntry.select root filter es with
  | nil => simp
  | cons u rest => simp

end

end SourceUnit

end IncrementalLint
