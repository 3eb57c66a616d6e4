import IncrementalLint.Proofs.Cache.Saved
import IncrementalLint.Proofs.Files.Top
import IncrementalLint.Proofs.Units.Entries

/-!
# What a database is searched for

A filter chooses among the units that every filter would find: which entry stands for a file is settled
before it is asked. And no file is missed whose first entry can be run; one whose first entry has no
command is, whatever other entries it has.

* `Workspace.ofEntries`           a workspace whose database lists given entries;
* `UnitFilter.Narrower`           a filter that takes no more than another one;
* `SourceUnit.restrict`           what a filter leaves of the units found;
* `SourceUnit.enumerate_filtered` units are found, then filtered;
* `SourceUnit.enumerate_covers`   which files are units;
* `later_command_missed`          a file with a command that is none.
-/

namespace IncrementalLint

open Workspace

/-! ## a database written down -/

namespace CompileEntry

def toJson (e : CompileEntry) : Json :=
  .object [("directory", .string e.directory.text), ("file", .string e.file.text),
    ("command", (e.command.map Json.string).getD .null),
    ("arguments", (e.arguments.map fun as => Json.array (as.map Json.string)).getD .null)]

theorem ofJson?_toJson (e : CompileEntry) : ofJson? e.toJson = some e := by
  have hfields : Json.Fields.ofJson? ["directory", "file", "command", "arguments"] e.toJson = some ⟨[
      ("directory", .string e.directory.text), ("file", .string e.file.text),
      ("command", (e.command.map Json.string).getD .null),
      ("arguments", (e.arguments.map fun as => Json.array (as.map Json.string)).getD .null)]⟩ := rfl
  have hcommand : Json.asOption? Json.asString? ((e.command.map Json.string).getD .null) = some e.command := by
    cases e.command <;> rfl
  have harguments : Json.asOption? (Json.asList? Json.asString?)
      ((e.arguments.map fun as => Json.array (as.map Json.string)).getD .null) = some e.arguments := by
    cases e.arguments with
    | none => rfl
    | some as =>
      show (Json.asList? Json.asString? (.array (as.map Json.string))).map some = _
      have hstring (a : String) : Json.asString? (.string a) = some a := rfl
      rw [Json.asList?_map hstring, Option.map_some]
  simp only [ofJson?, hfields, Option.bind_eq_bind, Option.bind_some]
  simp only [Json.Fields.required?, Json.Fields.withDefault?, Json.Fields.find?, List.find?, String.reduceBEq,
    Option.map_some, Option.elim_some, Option.bind_some, Json.asString?, hcommand, harguments]
  rfl

theorem plain_toJson (e : CompileEntry) : Json.plain e.toJson = true := by
  have hcommand : Json.plain ((e.command.map Json.string).getD .null) = true := by
    cases e.command <;> rfl
  have harguments : Json.plain ((e.arguments.map fun as => Json.array (as.map Json.string)).getD .null) = true := by
    cases e.arguments with
    | none => rfl
    | some as => exact Json.plain_map (fun _ => rfl) as
  simp only [toJson, Json.plain, Json.plainMembers, hcommand, harguments, Bool.and_self]

end CompileEntry

/-- a workspace whose database, `/db`, lists entries -/
def Workspace.ofEntries (es : List CompileEntry) : Workspace :=
  (⟨.empty, 5, []⟩ : Workspace).put ["db"]
    (.file (Utf8.encode (Json.pretty (.array (es.map CompileEntry.toJson)))) 0 false)

theorem Workspace.entries?_ofEntries (es : List CompileEntry) : (ofEntries es).entries? (top "db") = some es := by
  have hnode : (ofEntries es).node? ["db"] =
      some (.file (Utf8.encode (Json.pretty (.array (es.map CompileEntry.toJson)))) 0 false) := by
    rw [ofEntries, node?_put, if_pos rfl]
  have hread : (ofEntries es).readText (top "db") = .ok (Json.pretty (.array (es.map CompileEntry.toJson))) :=
    readText_eq_ok_iff.mpr ⟨_, _, find_top (by decide) hnode rfl rfl, Utf8.decode?_encode _⟩
  rw [entries?, hread]
  show (Json.read? (Json.pretty (.array (es.map CompileEntry.toJson)))).bind _ = _
  rw [Json.read?_pretty (Json.plain_map CompileEntry.plain_toJson es), Option.bind_some,
    Json.asList?_map CompileEntry.ofJson?_toJson]

/-! ## filters -/

namespace UnitFilter

/-- takes every file -/
def everything : UnitFilter where
  extensions := [""]
  excludeSuffixes := []
  excludePrefixes := []

theorem everything_accepts (id : String) : everything.accepts id = true := by
  simp [everything, accepts, Text.endsWith]

/-- with fewer extensions and more exclusions than another one -/
structure Narrower (f g : UnitFilter) : Prop where
  extensions : f.extensions ⊆ g.extensions
  excludeSuffixes : g.excludeSuffixes ⊆ f.excludeSuffixes
  excludePrefixes : g.excludePrefixes ⊆ f.excludePrefixes

theorem accepts_iff {f : UnitFilter} {id : String} : f.accepts id = true ↔
    (∃ x ∈ f.extensions, Text.endsWith id x = true) ∧ (∀ x ∈ f.excludeSuffixes, Text.endsWith id x = false) ∧
      ∀ x ∈ f.excludePrefixes, Text.startsWith id x = false := by
  simp [accepts, and_assoc]

theorem Narrower.accepts {f g : UnitFilter} (h : f.Narrower g) {id : String} (hf : f.accepts id = true) :
    g.accepts id = true := by
  obtain ⟨⟨x, hx, hend⟩, hsuffixes, hprefixes⟩ := accepts_iff.mp hf
  exact accepts_iff.mpr ⟨⟨x, h.extensions hx, hend⟩, fun y hy => hsuffixes y (h.excludeSuffixes hy),
    fun y hy => hprefixes y (h.excludePrefixes hy)⟩

end UnitFilter

namespace SourceUnit

/-- what a filter leaves of the units found in a database -/
def restrict (db : Path) (f : UnitFilter) :
    Except CompileDbError (List SourceUnit) → Except CompileDbError (List SourceUnit)
  | .error e => .error e
  | .ok us =>
    match us.filter fun u => f.accepts u.id with
    | [] => .error (.noUnits db)
    | us => .ok us

section
variable {w : Workspace} {db root : Path} {f g : UnitFilter} {us : List SourceUnit}

theorem restrict_eq_ok_iff {found : Except CompileDbError (List SourceUnit)} :
    restrict db f found = .ok us ↔
      us ≠ [] ∧ ∃ all, found = .ok all ∧ us = all.filter fun u => f.accepts u.id := by
  cases found with
  | error e => simp [restrict]
  | ok all =>
    rw [restrict]
    cases h : all.filter fun u => f.accepts u.id with
    | nil =>
      simp only [reduceCtorEq, Except.ok.injEq, exists_eq_left', h, false_iff, not_and]
      exact fun hne he => hne he
    | cons u rest =>
      simp only [Except.ok.injEq, exists_eq_left', h]
      refine ⟨?_, fun h => h.2.symm⟩
      rintro rfl
      exact ⟨List.cons_ne_nil _ _, rfl⟩

theorem enumerate_of_accepts (h : ∀ id, f.accepts id = true → g.accepts id = true) :
    enumerate w db root f = restrict db f (enumerate w db root g) := by
  cases hes : w.entries? db with
  | none =>
    obtain ⟨e, _, he⟩ := enumerate_of_unreadable hes
    rw [he, he, restrict]
  | some es =>
    rw [enumerate_eq hes, enumerate_eq hes, CompileEntry.select_of_narrower h]
    cases CompileEntry.select root g es with
    | nil => rfl
    | cons u rest => rfl

/-- what a filter finds is what it leaves of everything; a filter that takes more finds more, and the
units that both find stand there alike -/
theorem enumerate_filtered (w : Workspace) (db root : Path) (f : UnitFilter) :
    enumerate w db root f = restrict db f (enumerate w db root .everything) ∧
      ∀ g, f.Narrower g → enumerate w db root f = restrict db f (enumerate w db root g) ∧
        ∀ us, enumerate w db root f = .ok us →
          ∃ us', enumerate w db root g = .ok us' ∧ us.Sublist us' ∧ us = us'.filter fun u => f.accepts u.id := by
  refine ⟨enumerate_of_accepts fun id _ => UnitFilter.everything_accepts id, fun g hg => ?_⟩
  have hrestrict : enumerate w db root f = restrict db f (enumerate w db root g) :=
    enumerate_of_accepts fun _ => hg.accepts
  refine ⟨hrestrict, fun us hus => ?_⟩
  obtain ⟨_, us', hus', rfl⟩ := restrict_eq_ok_iff.mp (hrestrict.symm.trans hus)
  exact ⟨us', hus', List.filter_sublist, rfl⟩

end

end SourceUnit

theorem enumerate_ofEntries {es : List CompileEntry} {root : Path} {f : UnitFilter} {u : SourceUnit}
    {us : List SourceUnit} (h : CompileEntry.select root f es = u :: us) :
    SourceUnit.enumerate (ofEntries es) (top "db") root f = .ok (u :: us) := by
  rw [SourceUnit.enumerate_eq (entries?_ofEntries es), h]

/-- a header, and a file that is listed twice -/
def headerEntries : List CompileEntry :=
  [⟨⟨"/p"⟩, ⟨"a.hh"⟩, some "cc", none⟩, ⟨⟨"/p"⟩, ⟨"a.cc"⟩, some "cc", none⟩,
    ⟨⟨"/p"⟩, ⟨"./a.cc"⟩, some "c++", none⟩]

/-- what is found without the headers is found among them, too -/
theorem header_filtered :
    ({} : UnitFilter).Narrower { extensions := [".cc", ".hh"] } ∧
      SourceUnit.enumerate (ofEntries headerEntries) (top "db") ⟨"/p"⟩ {} =
        .ok [⟨"a.cc", ⟨"/p/a.cc"⟩, "cc", ⟨"/p"⟩⟩] ∧
      ∃ us, SourceUnit.enumerate (ofEntries headerEntries) (top "db") ⟨"/p"⟩
          { extensions := [".cc", ".hh"] } = .ok us ∧
        [⟨"a.cc", ⟨"/p/a.cc"⟩, "cc", ⟨"/p"⟩⟩].Sublist us := by
  have hnarrower : ({} : UnitFilter).Narrower { extensions := [".cc", ".hh"] } :=
    ⟨by decide, by decide, by decide⟩
  have hfound : SourceUnit.enumerate (ofEntries headerEntries) (top "db") ⟨"/p"⟩ {} =
      .ok [⟨"a.cc", ⟨"/p/a.cc"⟩, "cc", ⟨"/p"⟩⟩] := enumerate_ofEntries (by decide)
  obtain ⟨_, hall⟩ := (SourceUnit.enumerate_filtered (ofEntries headerEntries) (top "db") ⟨"/p"⟩ {}).2 _ hnarrower
  obtain ⟨us, hus, hsub, _⟩ := hall _ hfound
  exact ⟨hnarrower, hfound, us, hus, hsub⟩

/-! ## files with a command -/

/-- a command, or arguments to make one of -/
def CompileEntry.HasCommand (e : CompileEntry) : Prop :=
  e.command ≠ none ∨ ∃ a as, e.arguments = some (a :: as)

theorem CompileEntry.hasCommand_iff {e : CompileEntry} : e.commandLine?.isSome = true ↔ e.HasCommand := by
  obtain ⟨_, _, command, arguments⟩ := e
  cases command with
  | some c => simp [commandLine?, HasCommand]
  | none =>
    cases arguments with
    | none => simp [commandLine?, HasCommand]
    | some as => cases as <;> simp [commandLine?, HasCommand]

section
variable {w : Workspace} {db root : Path} {f : UnitFilter} {es : List CompileEntry}

/-- a file is a unit if the filter takes it, and its first entry has a command; and the search fails if
there is no such file -/
theorem SourceUnit.enumerate_covers (hes : w.entries? db = some es) :
    (∀ id, (∃ us, enumerate w db root f = .ok us ∧ ∃ u ∈ us, u.id = id) ↔
      f.accepts id = true ∧ ∃ e, CompileEntry.first? root es id = some e ∧ e.HasCommand) ∧
    (enumerate w db root f = .error (.noUnits db) ↔
      ∀ id e, f.accepts id = true → CompileEntry.first? root es id = some e → ¬e.HasCommand) := by
  have hselect (id : String) : (∃ u ∈ CompileEntry.select root f es, u.id = id) ↔
      f.accepts id = true ∧ ∃ e, CompileEntry.first? root es id = some e ∧ e.HasCommand := by
    rw [CompileEntry.exists_select_iff]
    simp only [CompileEntry.hasCommand_iff]
  constructor
  · intro id
    rw [← hselect]
    constructor
    · rintro ⟨us, hus, hid⟩
      obtain ⟨_, es', hes', rfl⟩ := enumerate_eq_ok_iff.mp hus
      obtain rfl := Option.some.inj (hes.symm.trans hes')
      exact hid
    · rintro ⟨u, hu, hid⟩
      exact ⟨_, enumerate_eq_ok_iff.mpr ⟨List.ne_nil_of_mem hu, es, hes, rfl⟩, u, hu, hid⟩
  · rw [enumerate_eq_noUnits_iff hes, List.eq_nil_iff_forall_not_mem]
    constructor
    · intro hnone id e hf hfirst hcommand
      obtain ⟨u, hu, _⟩ := (hselect id).mpr ⟨hf, e, hfirst, hcommand⟩
      exact hnone u hu
    · intro hnone u hu
      obtain ⟨hf, e, hfirst, hcommand⟩ := (hselect u.id).mp ⟨u, hu, rfl⟩
      exact hnone u.id e hf hfirst hcommand

end

/-- two entries of one file, the first one without a command, and one of another file -/
def bareEntries : List CompileEntry :=
  [⟨⟨"/p"⟩, ⟨"a.cc"⟩, none, none⟩, ⟨⟨"/p"⟩, ⟨"a.cc"⟩, some "cc", none⟩,
    ⟨⟨"/p"⟩, ⟨"b.cc"⟩, none, some ["cc"]⟩]

theorem bare_covers : (ofEntries bareEntries).entries? (top "db") = some bareEntries ∧
    (∃ us, SourceUnit.enumerate (ofEntries bareEntries) (top "db") ⟨"/p"⟩ {} = .ok us ∧
      ∃ u ∈ us, u.id = "b.cc") ∧
    ¬∃ us, SourceUnit.enumerate (ofEntries bareEntries) (top "db") ⟨"/p"⟩ {} = .ok us ∧
      ∃ u ∈ us, u.id = "a.cc" := by
  have hentries := entries?_ofEntries bareEntries
  have hcovers := (@SourceUnit.enumerate_covers _ _ ⟨"/p"⟩ {} _ hentries).1
  refine ⟨hentries, (hcovers "b.cc").mpr ⟨by decide, ⟨⟨"/p"⟩, ⟨"b.cc"⟩, none, some ["cc"]⟩, by decide, ?_⟩, ?_⟩
  · exact Or.inr ⟨_, _, rfl⟩
  · intro hfound
    obtain ⟨_, e, hfirst, hcommand⟩ := (hcovers "a.cc").mp hfound
    obtain rfl : ⟨⟨"/p"⟩, ⟨"a.cc"⟩, none, none⟩ = e := Option.some.inj (Eq.trans (by decide) hfirst)
    simp [CompileEntry.HasCommand] at hcommand

/-- a file that has a command in a later entry only is no unit -/
theorem later_command_missed :
    ¬∀ (w : Workspace) (db root : Path) (f : UnitFilter) (es : List CompileEntry) (e : CompileEntry)
      (id : String), w.entries? db = some es → e ∈ es → e.id? root = some id → f.accepts id = true →
      e.HasCommand → ∃ us, SourceUnit.enumerate w db root f = .ok us ∧ ∃ u ∈ us, u.id = id := by
  intro h
  obtain ⟨us, hus, u, hu, hid⟩ := h (ofEntries bareEntries) (top "db") ⟨"/p"⟩ {} bareEntries
    ⟨⟨"/p"⟩, ⟨"a.cc"⟩, some "cc", none⟩ "a.cc" (entries?_ofEntries _) (by decide) (by decide) (by decide)
    (Or.inl (by decide))
  have hfound : SourceUnit.enumerate (ofEntries bareEntries) (top "db") ⟨"/p"⟩ {} =
      .ok [⟨"b.cc", ⟨"/p/b.cc"⟩, "cc", ⟨"/p"⟩⟩] := enumerate_ofEntries (by decide)
  obtain rfl := Except.ok.inj (hfound.symm.trans hus)
  obtain rfl := List.mem_singleton.mp hu
  exact absurd hid (by decide)

end IncrementalLint
