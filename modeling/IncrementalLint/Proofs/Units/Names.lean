import IncrementalLint.Proofs.Files.Descent
import IncrementalLint.Proofs.Units.Selection

/-!
# Names of units

The id of a unit is what its path has below the root, spelled plainly. Together with the root it spells
the path again, so that ids stand for paths one to one, and the entries of one file for one id.

* `PathText.Steps`                 pieces that a text can have for its steps;
* `PathText.components_spell`      components, spelled out, are the components of their spelling;
* `Path.components_join_below`     what lies below a directory, joined to it again;
* `CompileEntry.components_path`   the same, of an entry and its id;
* `CompileEntry.ids_eq_iff`        two ids are the same if the paths are;
* `SourceUnit.enumerate_named`     what the units of a database are named for.
-/

namespace IncrementalLint

/-! ## texts put together from steps -/

namespace PathText

/-- pieces that a text can have for its steps -/
def Steps (xs : List (List Char)) : Prop := ∀ x ∈ xs, '/' ∉ x ∧ isIdle x = false

theorem steps_steps (cs : List Char) : Steps (steps cs) := by
  intro x hx
  obtain ⟨hmem, hidle⟩ := List.mem_filter.mp hx
  exact ⟨notMem_of_mem_splitAt hmem, by simpa using hidle⟩

theorem text_componentOf (x : List Char) : (componentOf x).text.toList = x := by
  unfold componentOf
  split
  next h => exact h.symm
  next => exact String.toList_ofList

theorem texts_componentOf (xs : List (List Char)) :
    ((xs.map componentOf).map fun c => c.text.toList) = xs := by
  rw [List.map_map]
  exact List.map_id'' text_componentOf xs

theorem toList_joinWith (cs : List Component) :
    (Text.joinWith "/" (cs.map Component.text)).toList = join (cs.map fun c => c.text.toList) := by
  rw [Text.joinWith, String.toList_intercalate, List.map_map]
  rfl

theorem takeWhile_of_noSlash {x rest : List Char} (h : '/' ∉ x)
    (hrest : rest.takeWhile (· != '/') = []) : (x ++ rest).takeWhile (· != '/') = x := by
  rw [List.takeWhile_append_of_pos, hrest, List.append_nil]
  intro c hc
  rw [bne_iff_ne]
  rintro rfl
  exact h hc

section
variable {xs : List (List Char)}

theorem Steps.steps_join (h : Steps xs) : steps (join xs) = xs := by
  rw [PathText.steps_join fun x hx => (h x hx).1]
  exact List.filter_eq_self.mpr fun x hx => by simp [(h x hx).2]

theorem Steps.relative (h : Steps xs) : isAbsolute (join xs) = false := by
  rw [← Bool.not_eq_true, isAbsolute_iff]
  rintro ⟨rest, hrest⟩
  cases xs with
  | nil => contradiction
  | cons x xs =>
    obtain ⟨hslash, hidle⟩ := h x List.mem_cons_self
    cases x with
    | nil => contradiction
    | cons c x =>
      have hc : c = '/' := by cases xs <;> simp_all
      exact hslash (hc ▸ List.mem_cons_self)

theorem Steps.not_startsHere (h : Steps xs) : startsHere (join xs) = false := by
  cases xs with
  | nil => rfl
  | cons x xs =>
    obtain ⟨hslash, hidle⟩ := h x List.mem_cons_self
    have hfront : (join (x :: xs)).takeWhile (· != '/') = x := by
      cases xs with
      | nil =>
        rw [join_singleton]
        simpa using takeWhile_of_noSlash hslash (@List.takeWhile_nil Char (· != '/'))
      | cons y ys =>
        rw [join_cons_cons]
        exact takeWhile_of_noSlash hslash (List.takeWhile_cons_of_neg (by simp))
    rw [startsHere, hfront, beq_eq_false_iff_ne]
    rintro rfl
    contradiction

theorem Steps.components_join (h : Steps xs) : components (join xs) = xs.map componentOf := by
  rw [components_eq, h.relative, h.not_startsHere, h.steps_join]
  rfl

/-- what names nothing in front of steps leaves them as they are -/
theorem Steps.steps_join_cons {x : List Char} (hx : steps x = []) (h : Steps xs) : steps (join (x :: xs)) = xs := by
  cases xs with
  | nil => rw [join_singleton, hx]
  | cons y ys => rw [join_cons_cons, steps_append_slash, hx, h.steps_join, List.nil_append]

end

/-- components, spelled out, are the components of their spelling -/
theorem components_spell (cs : List Char) :
    components (join ((components cs).map fun c => c.text.toList)) = components cs := by
  have hsteps := steps_steps cs
  rw [components_eq cs, List.map_append, texts_componentOf]
  by_cases ha : isAbsolute cs = true
  · have habs : isAbsolute (join (['/'] :: steps cs)) = true := by
      cases steps cs <;> rfl
    rw [if_pos ha]
    show components (join (['/'] :: steps cs)) = _
    rw [components_eq, habs, hsteps.steps_join_cons (by decide)]
    rfl
  · rw [if_neg ha]
    by_cases hh : startsHere cs = true
    · have hrel : isAbsolute (join (['.'] :: steps cs)) = false := by
        cases steps cs <;> rfl
      have hhere : startsHere (join (['.'] :: steps cs)) = true := by
        cases steps cs <;> rfl
      rw [if_pos hh]
      show components (join (['.'] :: steps cs)) = _
      rw [components_eq, hrel, hhere, hsteps.steps_join_cons (by decide)]
      rfl
    · rw [if_neg hh]
      exact hsteps.components_join

/-- only the empty text has no components -/
theorem eq_nil_of_components {cs : List Char} (h : components cs = []) : cs = [] := by
  rw [components_eq, List.append_eq_nil_iff, List.map_eq_nil_iff] at h
  obtain ⟨hhead, hsteps⟩ := h
  cases hs : Chars.splitAt isSlash cs with
  | nil => exact absurd hs (Chars.splitAt_ne_nil _ _)
  | cons x xs =>
    have hcs : join (x :: xs) = cs := by rw [← hs, join_splitAt]
    have hidle : isIdle x = true := by
      rw [steps, hs, List.filter_eq_nil_iff] at hsteps
      simpa using hsteps x List.mem_cons_self
    obtain rfl | rfl : x = [] ∨ x = ['.'] := by simpa [isIdle] using hidle
    -- a text that starts with an idle piece is empty, or starts at the root or with a `.`
    · cases xs with
      | nil => exact hcs.symm
      | cons y ys =>
        rw [← hcs] at hhead
        contradiction
    · have hhere : startsHere cs = true := by
        rw [← hcs]
        cases xs <;> rfl
      rw [hhere] at hhead
      split at hhead <;> contradiction

/-- components behind others are steps -/
theorem steps_of_components {cs : List Char} {front rest : List Component}
    (h : components cs = front ++ rest) (hfront : front ≠ []) :
    ∃ xs, Steps xs ∧ rest = xs.map componentOf := by
  rw [components_eq, List.append_eq_append_iff] at h
  rcases h with ⟨mid, _, hrest⟩ | ⟨mid, hhead, hrest⟩
  · obtain ⟨ys, xs, hsteps, _, hxs⟩ := List.map_eq_append_iff.mp hrest
    refine ⟨xs, fun x hx => steps_steps cs x ?_, hxs.symm⟩
    rw [hsteps]
    exact List.mem_append_right _ hx
  · have hlength : (front ++ mid).length ≤ 1 := by
      rw [← hhead]
      split
      · exact Nat.le_refl 1
      · split <;> simp
    have hpos := List.length_pos_iff.mpr hfront
    rw [List.length_append] at hlength
    have hmid : mid = [] := List.length_eq_zero_iff.mp (by omega)
    rw [hmid, List.nil_append] at hrest
    exact ⟨steps cs, steps_steps cs, hrest⟩

end PathText

/-! ## paths below a directory -/

namespace Path

/-- what lies below a path starts like that one -/
theorem startsHere_join {p q : Path} (h : ¬(q.isAbsolute || p.text.isEmpty) = true) :
    PathText.startsHere (p.join q).text.toList = PathText.startsHere p.text.toList := by
  have hslash (cs rest : List Char) :
      PathText.startsHere (cs ++ '/' :: rest) = PathText.startsHere cs := by
    unfold PathText.startsHere
    congr 1
    induction cs with
    | nil => simp
    | cons c cs ih => by_cases hc : c = '/' <;> simp_all
  rw [join, if_neg h]
  split
  next hlast =>
    obtain ⟨cs, hcs⟩ := List.getLast?_eq_some_iff.mp hlast
    rw [String.toList_append, hcs, List.append_assoc, List.singleton_append, hslash, hslash]
  next =>
    rw [String.toList_append, String.toList_append, List.append_assoc]
    exact hslash _ _

theorem components_join_steps {p : Path} {xs : List (List Char)} (h : PathText.Steps xs)
    (hp : p.text ≠ "") : (p.join ⟨String.ofList (PathText.join xs)⟩).components =
      p.components ++ xs.map PathText.componentOf := by
  have hbelow : ¬((⟨String.ofList (PathText.join xs)⟩ : Path).isAbsolute || p.text.isEmpty) = true := by
    rw [isAbsolute, String.toList_ofList, h.relative, Bool.false_or, String.isEmpty_iff]
    exact hp
  obtain ⟨habs, hsteps⟩ := join_below hbelow
  rw [String.toList_ofList, h.steps_join] at hsteps
  rw [components, PathText.components_eq, startsHere_join hbelow, hsteps, List.map_append, ← List.append_assoc]
  unfold isAbsolute at habs
  rw [habs, components, PathText.components_eq p.text.toList]

/-- what a path has below a directory, joined to it again -/
theorem components_join_below {p dir : Path} {cs : List Component} (h : p.below? dir = some cs) :
    (dir.join ⟨Text.joinWith "/" (cs.map Component.text)⟩).components = p.components := by
  have hp : p.components = dir.components ++ cs := dropFront?_eq_some_iff.mp h
  have hspell : Text.joinWith "/" (cs.map Component.text) =
      String.ofList (PathText.join (cs.map fun c => c.text.toList)) := by
    rw [← String.toList_inj, String.toList_ofList, PathText.toList_joinWith]
  rw [hspell]
  by_cases hdir : dir.text = ""
  · have hnone : dir.components = [] := by
      rw [components, hdir]
      rfl
    rw [hnone, List.nil_append] at hp
    rw [join_alone (by rw [hdir]; simp), ← hp]
    exact (congrArg PathText.components String.toList_ofList).trans (PathText.components_spell _)
  · have hne : dir.components ≠ [] := fun hnone =>
      hdir (String.toList_eq_nil_iff.mp (PathText.eq_nil_of_components hnone))
    obtain ⟨xs, hsteps, rfl⟩ := PathText.steps_of_components hp hne
    rw [PathText.texts_componentOf, components_join_steps hsteps hdir, hp]

end Path

/-! ## ids of entries -/

namespace CompileEntry

section
variable {e e' : CompileEntry} {root : Path} {id id' : String}

/-- an entry has an id if its path starts with the components of the root -/
theorem id?_isSome_iff : (e.id? root).isSome = true ↔ root.components <+: e.path.components := by
  rw [id?, Option.isSome_map, Option.isSome_iff_exists]
  exact exists_congr fun cs => Path.dropFront?_eq_some_iff.trans eq_comm

/-- an id, seen from the root, is the path of the entry -/
theorem components_path (h : e.id? root = some id) : (root.join ⟨id⟩).components = e.path.components := by
  obtain ⟨cs, hcs, rfl⟩ := Option.map_eq_some_iff.mp h
  exact Path.components_join_below hcs

/-- two ids are the same if the paths are, whatever their spelling -/
theorem ids_eq_iff (h : e.id? root = some id) (h' : e'.id? root = some id') :
    id = id' ↔ e.path.components = e'.path.components := by
  constructor
  · rintro rfl
    rw [← components_path h, components_path h']
  · intro hpath
    rw [id?, Path.below?, hpath] at h
    exact Option.some.inj (h.symm.trans h')

end

end CompileEntry

/-! ## the units of a database -/

/-- ids and paths of units stand for one another: no id comes twice, an id seen from the root is the path
of its unit, and entries below the root have one id if they have one path. All else of a unit is from the
first entry with its id, and the units stand in the order of these entries -/
theorem SourceUnit.enumerate_named {w : Workspace} {db root : Path} {f : UnitFilter} {us : List SourceUnit}
    (h : enumerate w db root f = .ok us) :
    (us.map (·.id)).Nodup ∧
      (∀ u ∈ us, (root.join ⟨u.id⟩).components = u.path.components) ∧
      ∃ es, w.entries? db = some es ∧
        (∀ e ∈ es, ∀ e' ∈ es, root.components <+: e.path.components →
          root.components <+: e'.path.components → ∃ id id', e.id? root = some id ∧
            e'.id? root = some id' ∧ (id = id' ↔ e.path.components = e'.path.components)) ∧
        (∀ u ∈ us, ∃ e, CompileEntry.first? root es u.id = some e ∧ u.path = e.path ∧
          e.commandLine? = some u.command ∧ u.directory = e.directory) ∧
        us.Pairwise fun u v =>
          es.findIdx (CompileEntry.gives root u.id) < es.findIdx (CompileEntry.gives root v.id) := by
  obtain ⟨_, es, hes, rfl⟩ := enumerate_eq_ok_iff.mp h
  refine ⟨CompileEntry.select_nodup, fun u hu => ?_, es, hes, fun e _ e' _ he he' => ?_, fun u hu => ?_,
    CompileEntry.select_increasing⟩
  · obtain ⟨e, _, hunit⟩ := CompileEntry.mem_select_iff.mp hu
    obtain ⟨hid, _, hpath, _⟩ := CompileEntry.unit?_eq_some_iff.mp hunit
    rw [hpath]
    exact CompileEntry.components_path hid
  · obtain ⟨id, hid⟩ := Option.isSome_iff_exists.mp (CompileEntry.id?_isSome_iff.mpr he)
    obtain ⟨id', hid'⟩ := Option.isSome_iff_exists.mp (CompileEntry.id?_isSome_iff.mpr he')
    exact ⟨id, id', hid, hid', CompileEntry.ids_eq_iff hid hid'⟩
  · obtain ⟨e, hfirst, hunit⟩ := CompileEntry.mem_select_iff.mp hu
    obtain ⟨_, _, hpath, hcommand, hdir⟩ := CompileEntry.unit?_eq_some_iff.mp hunit
    exact ⟨e, hfirst, hpath, hcommand, hdir⟩

/-- two files, one of them in three spellings -/
def spelledEntries : List CompileEntry :=
  [⟨⟨"/p"⟩, ⟨"b.cc"⟩, some "cc", none⟩, ⟨⟨"/p/"⟩, ⟨"a//c.cc"⟩, some "c1", none⟩,
    ⟨⟨"/p"⟩, ⟨"./a/c.cc"⟩, some "c2", none⟩, ⟨⟨"/q"⟩, ⟨"/p/a/./c.cc"⟩, some "c3", none⟩]

theorem spelled_named : SourceUnit.enumerate (Workspace.ofEntries spelledEntries) (Workspace.top "db") ⟨"/p"⟩ {} =
      .ok [⟨"b.cc", ⟨"/p/b.cc"⟩, "cc", ⟨"/p"⟩⟩, ⟨"a/c.cc", ⟨"/p/a//c.cc"⟩, "c1", ⟨"/p/"⟩⟩] ∧
    ((⟨"/p"⟩ : Path).join ⟨"a/c.cc"⟩).components = (⟨"/p/a//c.cc"⟩ : Path).components := by
  have hfound : SourceUnit.enumerate (Workspace.ofEntries spelledEntries) (Workspace.top "db") ⟨"/p"⟩ {} =
      .ok [⟨"b.cc", ⟨"/p/b.cc"⟩, "cc", ⟨"/p"⟩⟩, ⟨"a/c.cc", ⟨"/p/a//c.cc"⟩, "c1", ⟨"/p/"⟩⟩] :=
    enumerate_ofEntries (by decide)
  obtain ⟨_, hjoin, _⟩ := SourceUnit.enumerate_named hfound
  exact ⟨hfound, hjoin ⟨"a/c.cc", ⟨"/p/a//c.cc"⟩, "c1", ⟨"/p/"⟩⟩ (List.mem_cons_of_mem _ List.mem_cons_self)⟩

end IncrementalLint
