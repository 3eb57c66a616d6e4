import IncrementalLint.Proofs.Files.Parents
import Mathlib.Data.List.Basic

/-!
# Spellings of one path

Paths of the same components lead to the same node: the pieces that stand idly in a spelling, `.` and
the empty ones between separators, matter to a walk only where they stand at the end.

* `PathText.steps`        the pieces of a spelling that name something;
* `PathText.same_steps`   the components of a path settle its steps;
* `Path.Alike.join`       spellings of one path, seen from one directory;
* `Route.behind`          what a walk can do at its end, it can do behind any pieces;
* `find_eq_of_alike`      spellings that lead somewhere lead to one node;
* `find_of_alike`         a spelling that ends in a step leads where another one leads.
-/

namespace IncrementalLint

/-! ## steps -/

namespace PathText

/-- the pieces of a text that name something -/
def steps (cs : List Char) : List (List Char) := (Chars.splitAt isSlash cs).filter fun x => !isIdle x

theorem steps_nil : steps [] = [] := rfl

theorem steps_append_slash (a b : List Char) : steps (a ++ '/' :: b) = steps a ++ steps b := by
  rw [steps, splitAt_append_slash, List.filter_append]
  rfl

theorem bodyComponents_eq (cs : List Char) : bodyComponents cs = (steps cs).map componentOf := rfl

/-- behind the root or the leading `.`, the components are the steps -/
theorem components_eq (cs : List Char) :
    components cs = (if isAbsolute cs then [.root] else if startsHere cs then [.current] else []) ++
      (steps cs).map componentOf := by
  unfold components
  simp only [bodyComponents_eq]
  by_cases ha : isAbsolute cs = true
  · obtain ⟨r, rfl⟩ := isAbsolute_iff.mp ha
    have hsteps : steps ('/' :: r) = steps r := steps_append_slash [] r
    rw [if_pos ha, if_pos ha, hsteps]
    rfl
  · rw [if_neg ha, if_neg ha]
    by_cases hh : startsHere cs = true
    · rw [if_pos hh, if_pos hh]
      cases cs with
      | nil => contradiction
      | cons c cs =>
        obtain ⟨rfl, rfl | ⟨r, rfl⟩⟩ := body_of_startsHere hh
        · rfl
        · have hsteps : steps ('.' :: '/' :: r) = steps r := steps_append_slash ['.'] r
          have hbody : steps ('/' :: r) = steps r := steps_append_slash [] r
          rw [hsteps, List.drop_one, List.tail_cons, hbody]
          rfl
    · rw [if_neg hh, if_neg hh]
      rfl

/-- whether a component is a step, not where a path starts -/
def isStep : Component → Bool
  | .parent => true
  | .name _ => true
  | _ => false

theorem isStep_componentOf (x : List Char) : isStep (componentOf x) = true := by
  unfold componentOf
  split <;> rfl

theorem componentOf_injective : Function.Injective componentOf := by
  intro x y h
  unfold componentOf at h
  split at h <;> split at h
  · simp_all
  · contradiction
  · contradiction
  · exact String.ofList_injective (Component.name.inj h)

theorem filter_components (cs : List Char) : (components cs).filter isStep = (steps cs).map componentOf := by
  have hsteps : ((steps cs).map componentOf).filter isStep = (steps cs).map componentOf := by
    rw [List.filter_eq_self]
    intro c hc
    obtain ⟨x, _, rfl⟩ := List.mem_map.mp hc
    exact isStep_componentOf x
  rw [components_eq, List.filter_append, hsteps]
  split
  · rfl
  · split <;> rfl

theorem isAbsolute_eq (cs : List Char) : isAbsolute cs = ((components cs).head? == some .root) := by
  rw [components_eq]
  by_cases ha : isAbsolute cs = true
  · simp [ha]
  · rw [if_neg ha, Bool.not_eq_true _ |>.mp ha]
    split
    · rfl
    · cases h : steps cs with
      | nil => rfl
      | cons x xs =>
        have hx := isStep_componentOf x
        cases hc : componentOf x <;> simp_all [isStep]

/-- texts of the same components start alike, and have the same steps -/
theorem same_steps {cs ds : List Char} (h : components cs = components ds) :
    isAbsolute cs = isAbsolute ds ∧ steps cs = steps ds := by
  refine ⟨by rw [isAbsolute_eq, isAbsolute_eq, h], ?_⟩
  have hmap : (steps cs).map componentOf = (steps ds).map componentOf := by
    rw [← filter_components, ← filter_components, h]
  exact List.map_injective_iff.mpr componentOf_injective hmap

/-- a character of a text that is no separator stands in one of its pieces -/
theorem mem_splitAt_iff {c : Char} (hc : isSlash c = false) {cs : List Char} :
    c ∈ cs ↔ ∃ x ∈ Chars.splitAt isSlash cs, c ∈ x := by
  induction cs with
  | nil => simp [Chars.splitAt]
  | cons d cs ih =>
    rw [List.mem_cons, ih, Chars.splitAt]
    split
    next hd =>
      have hne : c ≠ d := fun h => by simp [h, hd] at hc
      simp [hne]
    next =>
      cases hs : Chars.splitAt isSlash cs with
      | nil => exact absurd hs (Chars.splitAt_ne_nil _ _)
      | cons x xs => simp [or_assoc]

theorem mem_steps_iff {c : Char} (hc : isSlash c = false) (hdot : c ≠ '.') {cs : List Char} :
    c ∈ cs ↔ ∃ x ∈ steps cs, c ∈ x := by
  rw [mem_splitAt_iff hc]
  refine exists_congr fun x => ?_
  rw [steps, List.mem_filter, and_assoc]
  refine and_congr_right fun _ => (and_iff_right_of_imp fun hx => ?_).symm
  have hidle : x ≠ [] ∧ x ≠ ['.'] := by
    constructor
    · rintro rfl
      contradiction
    · rintro rfl
      exact hdot (List.mem_singleton.mp hx)
  simp [isIdle, hidle.1, hidle.2]

end PathText

/-! ## spellings -/

/-- the same start, and the same steps -/
def Path.Alike (p q : Path) : Prop :=
  p.isAbsolute = q.isAbsolute ∧ PathText.steps p.text.toList = PathText.steps q.text.toList

/-- whether a path ends with a step: no `.`, and no separator at its end -/
def Path.EndsInStep (p : Path) : Prop :=
  ∀ x ∈ (Chars.splitAt PathText.isSlash p.text.toList).getLast?, PathText.isIdle x = false

instance (p : Path) : Decidable p.EndsInStep :=
  inferInstanceAs (Decidable (∀ x ∈ (Chars.splitAt _ _).getLast?, PathText.isIdle x = false))

namespace Path

theorem alike_of_components {p q : Path} (h : p.components = q.components) : p.Alike q :=
  PathText.same_steps h

theorem join_alone {p q : Path} (h : (q.isAbsolute || p.text.isEmpty) = true) : p.join q = q := by
  rw [join, if_pos h]

/-- a path below another one starts where that one starts, and goes on with its own steps -/
theorem join_below {p q : Path} (h : ¬(q.isAbsolute || p.text.isEmpty) = true) :
    (p.join q).isAbsolute = p.isAbsolute ∧ PathText.steps (p.join q).text.toList =
      PathText.steps p.text.toList ++ PathText.steps q.text.toList := by
  have hne : p.text.toList ≠ [] := by
    intro he
    refine h ?_
    rw [String.toList_eq_nil_iff.mp he, Bool.or_eq_true]
    exact Or.inr rfl
  have habs (r : List Char) : PathText.isAbsolute (p.text.toList ++ r) = p.isAbsolute := by
    unfold isAbsolute
    cases htext : p.text.toList with
    | nil => exact absurd htext hne
    | cons c cs => by_cases hc : c = '/' <;> simp [PathText.isAbsolute, hc]
  rw [join, if_neg h]
  split
  next hlast =>
    obtain ⟨cs, hcs⟩ := List.getLast?_eq_some_iff.mp hlast
    have htext : (p.text ++ q.text).toList = cs ++ '/' :: q.text.toList := by
      rw [String.toList_append, hcs, List.append_assoc]
      rfl
    refine ⟨?_, ?_⟩
    · rw [← habs q.text.toList, ← String.toList_append]
      rfl
    · rw [htext, PathText.steps_append_slash, hcs, PathText.steps_append_slash, PathText.steps_nil,
        List.append_nil]
  next =>
    have htext : (p.text ++ "/" ++ q.text).toList = p.text.toList ++ '/' :: q.text.toList := by
      rw [String.toList_append, String.toList_append, List.append_assoc]
      rfl
    refine ⟨?_, ?_⟩
    · rw [← habs ('/' :: q.text.toList), ← htext]
      rfl
    · rw [htext, PathText.steps_append_slash]

theorem Alike.trans {p q r : Path} (h : p.Alike q) (h' : q.Alike r) : p.Alike r :=
  ⟨h.1.trans h'.1, h.2.trans h'.2⟩

/-- seen from one directory, spellings of one path are spellings of one path -/
theorem Alike.join {p q : Path} (dir : Path) (h : p.Alike q) : (dir.join p).Alike (dir.join q) := by
  by_cases hp : (p.isAbsolute || dir.text.isEmpty) = true
  · have hq := hp
    rw [h.1] at hq
    rwa [join_alone hp, join_alone hq]
  · have hq := hp
    rw [h.1] at hq
    obtain ⟨habs, hsteps⟩ := join_below hp
    obtain ⟨habs', hsteps'⟩ := join_below hq
    refine ⟨habs.trans habs'.symm, ?_⟩
    rw [hsteps, hsteps', h.2]

end Path

namespace Workspace

section
variable {w : Workspace} {links : Nat} {here l : Location} {n : Node}

/-! ## routes -/

/-- what a walk can do at its end, it can do behind any pieces -/
theorem Route.behind {back back' : List String} (hback : back ≠ [])
    (hto : ∀ {links : Nat} {here : Location}, Route w true links here back (.found l n) →
      Route w true links here back' (.found l n))
    {front : List String} (h : Route w true links here (front ++ back) (.found l n)) :
    Route w true links here (front ++ back') (.found l n) := by
  generalize hps : front ++ back = ps at h
  generalize hplace : Place.found l n = place at h hto
  -- the induction is on the route: a link on the way puts its target in front of what is left
  induction h generalizing front with
  | here _ => exact absurd (List.append_eq_nil_iff.mp hps).2 hback
  | idle hx h ih =>
    cases front with
    | nil =>
      obtain rfl : back = _ := hps
      exact hto (.idle hx h)
    | cons y front =>
      obtain ⟨rfl, hrest⟩ := List.cons.inj hps
      exact .idle hx (ih hrest hplace hto)
  | up h ih =>
    cases front with
    | nil =>
      obtain rfl : back = _ := hps
      exact hto (.up h)
    | cons y front =>
      obtain ⟨rfl, hrest⟩ := List.cons.inj hps
      exact .up (ih hrest hplace hto)
  | free _ _ _ => contradiction
  | into hx hn h ih =>
    cases front with
    | nil =>
      obtain rfl : back = _ := hps
      exact hto (.into hx hn h)
    | cons y front =>
      obtain ⟨rfl, hrest⟩ := List.cons.inj hps
      exact .into hx hn (ih hrest hplace hto)
  | atLink _ _ hf => contradiction
  | @through _ _ x target rest _ hx hn hf h ih =>
    cases front with
    | nil =>
      obtain rfl : back = _ := hps
      exact hto (.through hx hn hf h)
    | cons y front =>
      obtain ⟨rfl, hrest⟩ := List.cons.inj hps
      refine .through hx hn (Or.inr rfl) ?_
      have hfront : (pieces target ++ front) ++ back = pieces target ++ rest := by
        rw [List.append_assoc]
        exact congrArg _ hrest
      have hroute := ih hfront hplace hto
      rwa [List.append_assoc] at hroute
  | last hx hn hd hl =>
    cases front with
    | nil =>
      obtain rfl : back = _ := hps
      exact hto (.last hx hn hd hl)
    | cons y front => exact absurd (List.append_eq_nil_iff.mp (List.cons.inj hps).2).2 hback

theorem idle_piece {x : List Char} (h : PathText.isIdle x = true) :
    String.ofList x = "" ∨ String.ofList x = "." := by
  unfold PathText.isIdle at h
  rcases (Bool.or_eq_true _ _).mp h with he | he
  · rw [eq_of_beq he]
    exact Or.inl rfl
  · rw [eq_of_beq he]
    exact Or.inr rfl

/-- a route does not need what stands idly on it -/
theorem Route.drop_idles (front : List String) (back : List (List Char))
    (h : Route w true links here (front ++ back.map String.ofList) (.found l n)) :
    Route w true links here
      (front ++ (back.filter fun x => !PathText.isIdle x).map String.ofList) (.found l n) := by
  induction back generalizing front with
  | nil => exact h
  | cons x back ih =>
    rw [List.map_cons] at h
    by_cases hx : PathText.isIdle x = true
    · rw [List.filter_cons_of_neg (by simp [hx])]
      exact ih front (h.behind (by simp) fun hr => hr.of_idle (idle_piece hx))
    · rw [List.filter_cons_of_pos (by simp [hx]), List.map_cons]
      have hfront := ih (front ++ [String.ofList x])
      simp only [List.append_assoc, List.singleton_append] at hfront
      exact hfront h

/-- what stands idly on a route may stand there, but not at the end -/
theorem Route.add_idles (front : List String) (back : List (List Char))
    (hend : ∀ x ∈ back.getLast?, PathText.isIdle x = false)
    (h : Route w true links here
      (front ++ (back.filter fun x => !PathText.isIdle x).map String.ofList) (.found l n)) :
    Route w true links here (front ++ back.map String.ofList) (.found l n) := by
  induction back generalizing front with
  | nil => exact h
  | cons x back ih =>
    rw [List.map_cons]
    by_cases hx : PathText.isIdle x = true
    · have hback : back ≠ [] := by
        rintro rfl
        exact absurd (hend x rfl) (by simp [hx])
      rw [List.filter_cons_of_neg (by simp [hx])] at h
      have hroute := ih front (fun y hy => hend y (by rwa [List.getLast?_cons_of_ne_nil hback])) h
      exact hroute.behind (by simpa using hback) fun hr => .idle (idle_piece hx) hr
    · rw [List.filter_cons_of_pos (by simp [hx]), List.map_cons] at h
      have hfront := ih (front ++ [String.ofList x]) ?_
      · simp only [List.append_assoc, List.singleton_append] at hfront
        exact hfront h
      · intro y hy
        cases back with
        | nil => contradiction
        | cons z back => exact hend y hy

end

/-! ## where spellings lead -/

section
variable {w : Workspace} {p q : Path} {x y : Location × Node}

theorem route_of_find {l : Location} {n : Node} (h : w.find p = .ok (l, n)) :
    Route w true maxLinks (w.start p) ((PathText.steps p.text.toList).map String.ofList) (.found l n) := by
  have hroute := (locate_eq_ok_iff.mp (find_eq_ok_iff.mp h)).2
  exact hroute.drop_idles [] _

/-- spellings of one path that lead somewhere lead to one node -/
theorem find_eq_of_alike (h : p.Alike q) (hp : w.find p = .ok x) (hq : w.find q = .ok y) : x = y := by
  obtain ⟨l, n⟩ := x
  obtain ⟨k, m⟩ := y
  have hroute := route_of_find hp
  have hroute' := route_of_find hq
  rw [start, h.1, h.2] at hroute
  have hplace := hroute.walk_eq.symm.trans hroute'.walk_eq
  obtain ⟨rfl, rfl⟩ := Place.found.inj (Except.ok.inj hplace)
  rfl

/-- a spelling that ends in a step leads where another one of the same path leads -/
theorem find_of_alike (h : p.Alike q) (hend : q.EndsInStep) (hshort : q.text.utf8ByteSize < maxPath)
    (hp : w.find p = .ok x) : w.find q = .ok x := by
  obtain ⟨l, n⟩ := x
  have hroute := route_of_find hp
  obtain ⟨⟨hnul, _, _⟩, _⟩ := locate_eq_ok_iff.mp (find_eq_ok_iff.mp hp)
  refine find_eq_ok_iff.mpr (locate_eq_ok_iff.mpr ⟨⟨?_, ?_, hshort⟩, ?_⟩)
  · rw [← Bool.not_eq_true, List.contains_iff_mem] at hnul ⊢
    rwa [PathText.mem_steps_iff (by decide) (by decide), ← h.2,
      ← PathText.mem_steps_iff (by decide) (by decide)]
  · intro hempty
    have hlast := hend [] (by rw [hempty]; rfl)
    contradiction
  · rw [start, h.1, h.2] at hroute
    exact Route.add_idles [] _ hend hroute

end

end Workspace

end IncrementalLint
