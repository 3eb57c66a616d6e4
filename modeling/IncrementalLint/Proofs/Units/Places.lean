import IncrementalLint.Proofs.Agreement
import IncrementalLint.Proofs.Units.Names

/-!
# Places of units and listings

Where there are no links, the place of a file can be read off its path: `.` stays, and `..` goes up. Units
without `..` lie below the root, and their listings below the directory of listings, each at a place of
its own. An entry that goes up breaks this: its id keeps the `..`, so that it counts as another file.

* `Route.location_eq`            without links, a route ends where its pieces say;
* `Path.location`                where a path leads if there are no links;
* `LinkFree.location`            there it leads, then;
* `PathText.Steps.listing_eq`    the pieces of the name of a listing;
* `SourceUnit.Placed`            a unit and its listing, where the id leads;
* `SourceUnit.enumerate_placed`  the places of the units of a database;
* `upward_collides`              two units that are one file.
-/

namespace IncrementalLint

/-- the piece that goes up -/
def PathText.up : List Char := ['.', '.']

namespace Workspace

/-! ## paths without links -/

def LinkFree (w : Workspace) : Prop := ∀ l target, w.node? l ≠ some (.link target)

theorem SameLinks.linkFree {w w' : Workspace} (hs : SameLinks w w') (h : LinkFree w) : LinkFree w' :=
  fun l target hn => h l target (hs.links.mp hn)

/-- where pieces lead from a directory if there are no links -/
def resolve (here : Location) (ps : List String) : Location :=
  (Shell.Builtin.descend here.reverse ps).reverse

section
variable {here : Location} {piece : String} {rest : List String}

@[simp] theorem resolve_nil : resolve here [] = here := List.reverse_reverse here

theorem resolve_idle (hp : piece = "" ∨ piece = ".") : resolve here (piece :: rest) = resolve here rest := by
  rw [resolve, Shell.Builtin.descend, List.foldl_cons, if_pos (by simpa using hp)]
  rfl

theorem resolve_up : resolve here (".." :: rest) = resolve here.dropLast rest := by
  rw [resolve, Shell.Builtin.descend, List.foldl_cons, if_neg (by decide), if_pos (by decide), List.tail_reverse]
  rfl

theorem resolve_name (hp : Ordinary piece) : resolve here (piece :: rest) = resolve (here ++ [piece]) rest := by
  rw [resolve, Shell.Builtin.descend, List.foldl_cons, if_neg (by simp [hp.1, hp.2.1]),
    if_neg (by simp [hp.2.2.1]), resolve, List.reverse_append]
  rfl

theorem resolve_idles (h : rest.all (· = "") = true) : resolve here rest = here := by
  induction rest with
  | nil => exact resolve_nil
  | cons piece rest ih =>
    simp only [List.all_cons, Bool.and_eq_true, decide_eq_true_eq] at h
    rw [resolve_idle (Or.inl h.1), ih h.2]

end

theorem resolve_append (here : Location) (ps qs : List String) :
    resolve here (ps ++ qs) = resolve (resolve here ps) qs := by
  rw [resolve, resolve, resolve, List.reverse_reverse, Shell.Builtin.descend, List.foldl_append]
  rfl

theorem resolve_filter (here : Location) (ps : List (List Char)) :
    resolve here ((ps.filter fun x => !PathText.isIdle x).map String.ofList) =
      resolve here (ps.map String.ofList) := by
  induction ps generalizing here with
  | nil => rfl
  | cons x ps ih =>
    by_cases hx : PathText.isIdle x = true
    · rw [List.filter_cons_of_neg (by simp [hx]), ih, List.map_cons, resolve_idle (idle_piece hx)]
    · rw [List.filter_cons_of_pos (by simp [hx]), List.map_cons, List.map_cons, ← List.singleton_append,
        resolve_append, ih, ← resolve_append, List.singleton_append]

/-- only the steps of a text matter -/
theorem resolve_pieces (here : Location) (text : String) :
    resolve here (pieces text) = resolve here ((PathText.steps text.toList).map String.ofList) :=
  (resolve_filter here _).symm

theorem up_mem_pieces_iff {text : String} : ".." ∈ pieces text ↔ PathText.up ∈ PathText.steps text.toList := by
  rw [pieces, PathText.steps, List.mem_filter, and_iff_left (by decide)]
  exact List.mem_map_of_injective (a := PathText.up) fun _ _ h => String.ofList_injective h

/-- steps that do not go up lead down -/
theorem resolve_of_noUp (here : Location) {xs : List (List Char)} (h : PathText.Steps xs)
    (hup : PathText.up ∉ xs) : resolve here (xs.map String.ofList) = here ++ xs.map String.ofList := by
  have hfilter : (xs.filter fun x => !PathText.isIdle x) = xs :=
    List.filter_eq_self.mpr fun x hx => by simp [(h x hx).2]
  rw [resolve, Shell.Builtin.descend_of_noUp _ hup, hfilter, List.reverse_append, List.reverse_reverse,
    List.reverse_reverse]

/-- without links, a route ends where its pieces lead -/
theorem Route.location_eq {w : Workspace} {follow : Bool} {links : Nat} {here : Location} {ps : List String}
    {place : Place} (hw : LinkFree w) (h : Route w follow links here ps place) :
    place.location = resolve here ps := by
  induction h with
  | here _ => rw [resolve_nil, Place.location]
  | idle hp _ ih => rw [ih, resolve_idle hp]
  | up _ ih => rw [ih, resolve_up]
  | free hp _ hrest => rw [resolve_name hp, resolve_idles hrest, Place.location]
  | into hp _ _ ih => rw [ih, resolve_name hp]
  | atLink _ hn _ => exact absurd hn (hw _ _)
  | through _ hn _ _ _ => exact absurd hn (hw _ _)
  | last hp _ _ _ => rw [resolve_name hp, resolve_nil, Place.location]

end Workspace

open Workspace

/-- where an absolute path leads if there are no links -/
def Path.location (p : Path) : Location := resolve [] (pieces p.text)

theorem Workspace.LinkFree.location {w : Workspace} {p : Path} {l : Location} (hw : LinkFree w)
    (hp : p.isAbsolute = true) (h : LeadsTo w p l) : l = p.location := by
  obtain ⟨v, place, hs, hv, rfl⟩ := h
  obtain ⟨_, hroute⟩ := locate_eq_ok_iff.mp hv
  rw [start, if_pos hp] at hroute
  exact hroute.location_eq (hs.linkFree hw)

namespace Path

theorem Alike.location {p q : Path} (h : p.Alike q) : p.location = q.location := by
  rw [Path.location, Path.location, resolve_pieces, h.2, ← resolve_pieces]

/-- what lies below a directory lies where its pieces lead from there -/
theorem location_join {p q : Path} (h : ¬(q.isAbsolute || p.text.isEmpty) = true) :
    (p.join q).location = resolve p.location (pieces q.text) := by
  rw [location, resolve_pieces, (join_below h).2, List.map_append, resolve_append, ← resolve_pieces,
    ← resolve_pieces, location]

end Path

/-! ## names of listings -/

namespace PathText

/-- the pieces of the name of a listing -/
def listing (xs : List (List Char)) : List (List Char) := Chars.splitAt isSlash (join xs ++ ".d".toList)

theorem join_listing (xs : List (List Char)) : join (listing xs) = join xs ++ ".d".toList := join_splitAt _

theorem listing_ne_nil (xs : List (List Char)) : listing xs ≠ [] := Chars.splitAt_ne_nil _ _

theorem join_eq_of_listing {xs ys : List (List Char)} (h : listing xs = listing ys) : join xs = join ys := by
  have hjoin := congrArg join h
  rw [join_listing, join_listing] at hjoin
  exact List.append_cancel_right hjoin

section
variable {xs : List (List Char)}

/-- all pieces of the name of a listing but the last one are steps of the unit -/
theorem Steps.listing_eq (h : Steps xs) : ∃ front last,
    (∀ x ∈ front, x ∈ xs) ∧ '/' ∉ last ∧ listing xs = front ++ [last ++ ".d".toList] := by
  have hback : '/' ∉ ".d".toList := by decide
  obtain ⟨front, last, hxs, hlisting⟩ := splitAt_append_end hback (join xs)
  refine ⟨front, last, fun x hx => ?_, ?_, hlisting⟩
  · cases xs with
    | nil =>
      have hnone : front = [] := by
        have hlength := congrArg List.length hxs
        rw [join_nil, List.length_append, List.length_singleton] at hlength
        exact List.length_eq_zero_iff.mp (Nat.succ.inj hlength).symm
      rw [hnone] at hx
      contradiction
    | cons y ys =>
      rw [splitAt_join (List.cons_ne_nil _ _) fun x hx => (h x hx).1] at hxs
      rw [hxs]
      exact List.mem_append_left _ hx
  · have hmem : last ∈ Chars.splitAt isSlash (join xs) := by
      rw [hxs]
      exact List.mem_append_right _ List.mem_cons_self
    exact notMem_of_mem_splitAt hmem

/-- what the last piece of a listing is not -/
theorem append_ne {last x : List Char} (hx : 'd' ∉ x) : last ++ ".d".toList ≠ x := by
  rintro rfl
  exact hx (List.mem_append_right _ (by decide))

theorem Steps.listing (h : Steps xs) : Steps (listing xs) := by
  obtain ⟨front, last, hfront, hlast, hlisting⟩ := h.listing_eq
  rw [hlisting]
  intro x hx
  rcases List.mem_append.mp hx with hx | hx
  · exact h x (hfront x hx)
  · obtain rfl := List.mem_singleton.mp hx
    refine ⟨fun hm => (List.mem_append.mp hm).elim hlast (by decide), ?_⟩
    rw [isIdle, Bool.or_eq_false_iff, beq_eq_false_iff_ne, beq_eq_false_iff_ne]
    exact ⟨append_ne (by decide), append_ne (by decide)⟩

/-- the name of a listing goes up only if its unit does -/
theorem Steps.up_notMem_listing (h : Steps xs) (hup : up ∉ xs) : up ∉ PathText.listing xs := by
  obtain ⟨front, last, hfront, _, hlisting⟩ := h.listing_eq
  rw [hlisting, List.mem_append, List.mem_singleton, not_or]
  exact ⟨fun hm => hup (hfront up hm), (append_ne (by decide)).symm⟩

end

end PathText

/-! ## places of one unit -/

/-- below an absolute root, an id is its steps put together -/
theorem CompileEntry.plain_id {e : CompileEntry} {root : Path} {id : String} (hroot : root.isAbsolute = true)
    (h : e.id? root = some id) : id.toList = PathText.join (PathText.steps id.toList) := by
  obtain ⟨cs, hcs, rfl⟩ := Option.map_eq_some_iff.mp h
  obtain ⟨rest, hrest⟩ := Path.components_of_isAbsolute hroot
  have hne : root.components ≠ [] := by
    rw [hrest]
    exact List.cons_ne_nil _ _
  obtain ⟨xs, hsteps, rfl⟩ := PathText.steps_of_components (Path.dropFront?_eq_some_iff.mp hcs) hne
  rw [PathText.toList_joinWith, PathText.texts_componentOf, hsteps.steps_join]

namespace SourceUnit

/-- a unit and its listing, where the id leads from the root and from the directory of listings -/
structure Placed (root dir : Path) (u : SourceUnit) : Prop where
  plain : u.id.toList = PathText.join (PathText.steps u.id.toList)
  absolute : u.path.isAbsolute = true
  path : u.path.location = resolve root.location (pieces u.id)
  listing : (u.listing dir).location = resolve dir.location (pieces (u.id ++ ".d"))

theorem placed_of_entry {root dir : Path} {e : CompileEntry} {u : SourceUnit} (hroot : root.isAbsolute = true)
    (hdir : dir.isAbsolute = true) (hid : e.id? root = some u.id) (hpath : u.path = e.path) :
    Placed root dir u := by
  have hplain := CompileEntry.plain_id hroot hid
  have hsteps := PathText.steps_steps u.id.toList
  have hne {p : Path} (hp : p.isAbsolute = true) : ¬p.text.isEmpty = true := fun he => by
    rw [Path.isAbsolute, String.isEmpty_iff.mp he] at hp
    contradiction
  have hrelative : (⟨u.id⟩ : Path).isAbsolute = false := by
    rw [Path.isAbsolute, hplain]
    exact hsteps.relative
  have hname : (⟨u.id ++ ".d"⟩ : Path).isAbsolute = false := by
    rw [Path.isAbsolute, String.toList_append, hplain, ← PathText.join_listing]
    exact hsteps.listing.relative
  have halike : u.path.Alike (root.join ⟨u.id⟩) := by
    rw [hpath]
    exact Path.alike_of_components (CompileEntry.components_path hid).symm
  refine ⟨hplain, ?_, ?_, ?_⟩
  · rw [halike.1, Path.isAbsolute_join hroot]
  · rw [halike.location, Path.location_join (by simp [hrelative, hne hroot])]
  · rw [SourceUnit.listing, Path.location_join (by simp [hname, hne hdir])]

section
variable {root dir : Path} {u v : SourceUnit}

theorem Placed.path_of_noUp (h : Placed root dir u) (hup : ".." ∉ pieces u.id) :
    u.path.location = root.location ++ (PathText.steps u.id.toList).map String.ofList := by
  rw [h.path, resolve_pieces, resolve_of_noUp _ (PathText.steps_steps _) (mt up_mem_pieces_iff.mpr hup)]

theorem Placed.listing_of_noUp (h : Placed root dir u) (hup : ".." ∉ pieces u.id) :
    (u.listing dir).location =
      dir.location ++ (PathText.listing (PathText.steps u.id.toList)).map String.ofList := by
  have hsteps := PathText.steps_steps u.id.toList
  have hname : pieces (u.id ++ ".d") = (PathText.listing (PathText.steps u.id.toList)).map String.ofList := by
    rw [pieces, String.toList_append, PathText.listing, ← h.plain]
  rw [h.listing, hname, resolve_of_noUp _ hsteps.listing]
  exact hsteps.up_notMem_listing (mt up_mem_pieces_iff.mpr hup)

theorem Placed.id_eq_of_path (hu : Placed root dir u) (hv : Placed root dir v) (huup : ".." ∉ pieces u.id)
    (hvup : ".." ∉ pieces v.id) (h : u.path.location = v.path.location) : u.id = v.id := by
  rw [hu.path_of_noUp huup, hv.path_of_noUp hvup, List.append_cancel_left_eq] at h
  have hsteps := List.map_injective_iff.mpr (fun _ _ h => String.ofList_injective h) h
  rw [← String.toList_inj, hu.plain, hsteps, ← hv.plain]

theorem Placed.id_eq_of_listing (hu : Placed root dir u) (hv : Placed root dir v)
    (huup : ".." ∉ pieces u.id) (hvup : ".." ∉ pieces v.id)
    (h : (u.listing dir).location = (v.listing dir).location) : u.id = v.id := by
  rw [hu.listing_of_noUp huup, hv.listing_of_noUp hvup, List.append_cancel_left_eq] at h
  have hlisting := List.map_injective_iff.mpr (fun _ _ h => String.ofList_injective h) h
  rw [← String.toList_inj, hu.plain, hv.plain, PathText.join_eq_of_listing hlisting]

theorem Placed.id_eq_empty (hu : Placed root dir u) (huup : ".." ∉ pieces u.id)
    (hroot : u.path.location = root.location) : u.id = "" := by
  rw [hu.path_of_noUp huup, List.append_right_eq_self, List.map_eq_nil_iff] at hroot
  rw [← String.toList_inj, hu.plain, hroot]
  rfl

theorem Placed.listing_ne (hu : Placed root dir u) (huup : ".." ∉ pieces u.id) :
    (u.listing dir).location ≠ dir.location := by
  rw [hu.listing_of_noUp huup]
  intro he
  exact PathText.listing_ne_nil _ (List.map_eq_nil_iff.mp (List.append_right_eq_self.mp he))

end

/-! ## the units of a database -/

section
variable {w : Workspace} {db root dir : Path} {f : UnitFilter} {us : List SourceUnit}

/-- the id of a unit leads to the unit from the root, and to its listing from the directory of listings.
Where ids do not go up, units lie below the root and listings below their directory, each at a place of
its own; and these are the places of their files if there are no links -/
theorem enumerate_placed (h : enumerate w db root f = .ok us) (hroot : root.isAbsolute = true)
    (hdir : dir.isAbsolute = true) :
    (∀ u ∈ us, u.path.location = resolve root.location (pieces u.id) ∧
      (u.listing dir).location = resolve dir.location (pieces (u.id ++ ".d"))) ∧
    (∀ u ∈ us, ".." ∉ pieces u.id → root.location <+: u.path.location ∧
      (u.path.location = root.location → u.id = "") ∧ dir.location <+: (u.listing dir).location ∧
      (u.listing dir).location ≠ dir.location) ∧
    (us.Pairwise fun u v => ".." ∉ pieces u.id → ".." ∉ pieces v.id →
      u.path.location ≠ v.path.location ∧ (u.listing dir).location ≠ (v.listing dir).location) ∧
    ∀ u ∈ us, ∀ v, LinkFree v → ∀ l, (LeadsTo v u.path l → l = u.path.location) ∧
      (LeadsTo v (u.listing dir) l → l = (u.listing dir).location) := by
  obtain ⟨_, es, _, rfl⟩ := enumerate_eq_ok_iff.mp h
  have hplaced : ∀ u ∈ CompileEntry.select root f es, Placed root dir u := by
    intro u hu
    obtain ⟨e, _, hunit⟩ := CompileEntry.mem_select_iff.mp hu
    obtain ⟨hid, _, hpath, _⟩ := CompileEntry.unit?_eq_some_iff.mp hunit
    exact placed_of_entry hroot hdir hid hpath
  refine ⟨fun u hu => ⟨(hplaced u hu).path, (hplaced u hu).listing⟩, fun u hu hup => ?_, ?_,
    fun u hu v hv l => ⟨fun hl => ?_, fun hl => ?_⟩⟩
  · have hu := hplaced u hu
    exact ⟨⟨_, (hu.path_of_noUp hup).symm⟩, hu.id_eq_empty hup, ⟨_, (hu.listing_of_noUp hup).symm⟩,
      hu.listing_ne hup⟩
  · refine (List.pairwise_map.mp CompileEntry.select_nodup).imp_of_mem fun {u v} hu hv hne hup hvp => ?_
    have hu := hplaced u hu
    have hv := hplaced v hv
    exact ⟨fun he => hne (hu.id_eq_of_path hv hup hvp he), fun he => hne (hu.id_eq_of_listing hv hup hvp he)⟩
  · exact hv.location (hplaced u hu).absolute hl
  · exact hv.location (Path.isAbsolute_join hdir) hl

end

end SourceUnit

/-- a file in two spellings, another one, and one outside the root -/
def upwardEntries : List CompileEntry :=
  [⟨⟨"/p/build"⟩, ⟨"../src/a.cc"⟩, some "cc", none⟩, ⟨⟨"/p"⟩, ⟨"src/a.cc"⟩, some "c++", none⟩,
    ⟨⟨"/p"⟩, ⟨"b.cc"⟩, some "cc", none⟩, ⟨⟨"/p/build"⟩, ⟨"../../o/c.cc"⟩, some "cc", none⟩]

def upwardUnits : List SourceUnit :=
  [⟨"build/../src/a.cc", ⟨"/p/build/../src/a.cc"⟩, "cc", ⟨"/p/build"⟩⟩,
    ⟨"src/a.cc", ⟨"/p/src/a.cc"⟩, "c++", ⟨"/p"⟩⟩, ⟨"b.cc", ⟨"/p/b.cc"⟩, "cc", ⟨"/p"⟩⟩,
    ⟨"build/../../o/c.cc", ⟨"/p/build/../../o/c.cc"⟩, "cc", ⟨"/p/build"⟩⟩]

theorem enumerate_upward :
    SourceUnit.enumerate (ofEntries upwardEntries) (top "db") ⟨"/p"⟩ {} = .ok upwardUnits :=
  enumerate_ofEntries (by decide)

/-- the two units without `..` have places of their own, and so do their listings -/
theorem upward_placed :
    SourceUnit.enumerate (ofEntries upwardEntries) (top "db") ⟨"/p"⟩ {} = .ok upwardUnits ∧
    (⟨"/p"⟩ : Path).location <+: (⟨"/p/src/a.cc"⟩ : Path).location ∧
    (⟨"/p/src/a.cc"⟩ : Path).location ≠ (⟨"/p/b.cc"⟩ : Path).location ∧
    (⟨"/d/src/a.cc.d"⟩ : Path).location ≠ (⟨"/d/b.cc.d"⟩ : Path).location := by
  obtain ⟨_, hbelow, hpairs, _⟩ :=
    @SourceUnit.enumerate_placed _ _ _ ⟨"/d"⟩ _ _ enumerate_upward (by decide) (by decide)
  obtain ⟨hsrc, _⟩ := hbelow ⟨"src/a.cc", ⟨"/p/src/a.cc"⟩, "c++", ⟨"/p"⟩⟩ (by decide) (by decide)
  have hpair : [⟨"src/a.cc", ⟨"/p/src/a.cc"⟩, "c++", ⟨"/p"⟩⟩, ⟨"b.cc", ⟨"/p/b.cc"⟩, "cc", ⟨"/p"⟩⟩].Sublist
      upwardUnits := by decide
  obtain ⟨hpath, hlisting⟩ := List.pairwise_pair.mp (hpairs.sublist hpair) (by decide) (by decide)
  exact ⟨enumerate_upward, hsrc, hpath, hlisting⟩

theorem linkFree_ofEntries (es : List CompileEntry) : LinkFree (ofEntries es) := by
  intro l target hn
  rw [ofEntries, node?_put, node?_empty] at hn
  split at hn
  · exact Node.noConfusion (Option.some.inj hn)
  · split at hn
    · exact Node.noConfusion (Option.some.inj hn)
    · contradiction

/-- with entries that go up, one file is two units with one listing -/
theorem upward_collides :
    ¬∀ (w : Workspace) (db root dir : Path) (f : UnitFilter) (es : List CompileEntry) (us : List SourceUnit),
      LinkFree w → w.entries? db = some es →
      (∀ e ∈ es, e.directory.isAbsolute = true ∧ ".." ∉ pieces e.directory.text) →
      root.isAbsolute = true → ".." ∉ pieces root.text → dir.isAbsolute = true → ".." ∉ pieces dir.text →
      SourceUnit.enumerate w db root f = .ok us →
      (∀ u ∈ us, root.location <+: u.path.location ∧ dir.location <+: (u.listing dir).location) ∧
        us.Pairwise fun u v => u.path.location ≠ v.path.location ∧
          (u.listing dir).location ≠ (v.listing dir).location := by
  intro h
  obtain ⟨_, hpairs⟩ := h (ofEntries upwardEntries) (top "db") ⟨"/p"⟩ ⟨"/d"⟩ {} upwardEntries upwardUnits
    (linkFree_ofEntries _) (entries?_ofEntries _) (by decide) (by decide) (by decide) (by decide) (by decide)
    enumerate_upward
  have hpair : [⟨"build/../src/a.cc", ⟨"/p/build/../src/a.cc"⟩, "cc", ⟨"/p/build"⟩⟩,
      ⟨"src/a.cc", ⟨"/p/src/a.cc"⟩, "c++", ⟨"/p"⟩⟩].Sublist upwardUnits := by decide
  exact (List.pairwise_pair.mp (hpairs.sublist hpair)).1 (by decide)

/-- the last one lies outside the root, and its listing outside the directory of listings -/
example : ∃ u ∈ upwardUnits, u.path.location = ["o", "c.cc"] ∧ (u.listing ⟨"/d"⟩).location = ["o", "c.cc.d"] := by
  decide

end IncrementalLint
