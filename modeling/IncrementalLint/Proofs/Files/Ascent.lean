import IncrementalLint.Proofs.Files.Descent
import Mathlib.Data.List.Induction
import Mathlib.Data.List.TakeWhile

/-!
# A path without its last components

Going up from a path drops its last component, whatever else its spelling holds: the separators and the
idle pieces at the end go with it, and the rest stays spelled as it was. It ends at the root, or at the
empty path.

* `PathText.components_below`   the components of a text, piece by piece from its end;
* `PathText.length_components_le`   the front of a text has no more of them;
* `PathText.Tight`              a text that is spelled no longer than its components need;
* `Path.parent?_eq_some`        what going up once comes to;
* `Path.Dropped`                a path without its last components;
* `Path.dropped_succ_iff`       dropping one more is going up once more;
* `Path.existsUnique_dropped_iff`   how many components can be dropped.
-/

namespace IncrementalLint

namespace PathText

/-! ## texts, piece by piece from the end -/

/-- a text is one piece, or ends in a piece behind a separator -/
theorem pieces_induction {motive : List Char → Prop} (alone : ∀ x, '/' ∉ x → motive x)
    (below : ∀ a x, '/' ∉ x → motive a → motive (a ++ '/' :: x)) (cs : List Char) : motive cs := by
  have hall (ps : List (List Char)) (hps : ∀ x ∈ ps, '/' ∉ x) : motive (join ps) := by
    induction ps using List.reverseRecOn with
    | nil => exact alone [] List.not_mem_nil
    | append_singleton ps x ih =>
      have hx := hps x (List.mem_append_right ps List.mem_cons_self)
      by_cases hne : ps = []
      · rw [hne, List.nil_append, join_singleton]
        exact alone x hx
      · rw [join_append hne (List.cons_ne_nil x []), join_singleton]
        exact below _ x hx (ih fun y hy => hps y (List.mem_append_left [x] hy))
  rw [← join_splitAt cs]
  exact hall _ fun x hx => notMem_of_mem_splitAt hx

theorem steps_alone {x : List Char} (h : '/' ∉ x) : steps x = if isIdle x then [] else [x] := by
  rw [steps, Workspace.splitAt_of_noSlash h, List.filter_singleton]
  cases isIdle x <;> rfl

theorem startsHere_below (a b : List Char) : startsHere (a ++ '/' :: b) = startsHere a := by
  unfold startsHere
  congr 1
  induction a with
  | nil => rfl
  | cons c a ih => rw [List.cons_append, List.takeWhile_cons, List.takeWhile_cons, ih]

theorem isAbsolute_below {a : List Char} (h : a ≠ []) (b : List Char) :
    isAbsolute (a ++ b) = isAbsolute a := by
  obtain ⟨c, a, rfl⟩ := List.exists_cons_of_ne_nil h
  by_cases hc : c = '/' <;> simp [isAbsolute, hc]

/-- the components in front of a separator, and those behind it -/
theorem components_below (a b : List Char) : components (a ++ '/' :: b) =
    (if a = [] then [.root] else components a) ++ (steps b).map componentOf := by
  rw [components_eq, startsHere_below, steps_append_slash, List.map_append]
  by_cases ha : a = []
  · rw [ha]
    rfl
  · rw [isAbsolute_below ha, if_neg ha, components_eq a, List.append_assoc]

theorem components_alone {x : List Char} (h : '/' ∉ x) : components x =
    if x = [] then [] else if x = ['.'] then [.current] else [componentOf x] := by
  have habs : isAbsolute x = false := by
    refine Bool.eq_false_iff.mpr fun ha => ?_
    obtain ⟨r, rfl⟩ := isAbsolute_iff.mp ha
    exact h List.mem_cons_self
  have hhere : startsHere x = (x == ['.']) := by
    have hwhole : x.takeWhile (· != '/') = x := by
      refine List.takeWhile_eq_self_iff.mpr fun c hc => bne_iff_ne.mpr ?_
      exact fun hslash => h (hslash ▸ hc)
    rw [startsHere, hwhole]
  rw [components_eq, habs, hhere, steps_alone h]
  by_cases hnil : x = []
  · rw [hnil]
    rfl
  · by_cases hdot : x = ['.']
    · rw [hdot]
      rfl
    · simp [hnil, hdot, isIdle]

theorem components_eq_nil_iff {cs : List Char} : components cs = [] ↔ cs = [] := by
  refine ⟨fun h => ?_, fun h => by rw [h]; rfl⟩
  induction cs using pieces_induction with
  | alone x hx =>
    rw [components_alone hx] at h
    by_contra hne
    rw [if_neg hne] at h
    split at h <;> contradiction
  | below a x _ ih =>
    rw [components_below, List.append_eq_nil_iff] at h
    by_cases ha : a = []
    · simp [ha] at h
    · rw [if_neg ha] at h
      exact absurd (ih h.1) ha

/-! ## the front of a text -/

theorem isIdle_of_front {x y : List Char} (h : y <+: x) (hx : isIdle x = true) : isIdle y = true := by
  have hx : x = [] ∨ x = ['.'] := by simpa [isIdle] using hx
  rcases hx with rfl | rfl
  · rw [List.prefix_nil.mp h]
    rfl
  · rcases List.prefix_cons_iff.mp h with rfl | ⟨t, rfl, ht⟩
    · rfl
    · rw [List.prefix_nil.mp ht]
      rfl

/-- the front of a text with a last piece: it ends before that piece, or in it -/
theorem prefix_below {r a x : List Char} (h : r <+: a ++ '/' :: x) :
    r <+: a ∨ ∃ y, y <+: x ∧ r = a ++ '/' :: y := by
  rcases List.prefix_or_prefix_of_prefix h (List.prefix_append a _) with hr | ⟨t, rfl⟩
  · exact Or.inl hr
  · rcases List.prefix_cons_iff.mp ((List.prefix_append_right_inj a).mp h) with rfl | ⟨y, rfl, hy⟩
    · rw [List.append_nil]
      exact Or.inl List.prefix_rfl
    · exact Or.inr ⟨y, hy, rfl⟩

/-- the front of a text has no more components -/
theorem length_components_le {a b : List Char} (h : a <+: b) :
    (components a).length ≤ (components b).length := by
  induction b using pieces_induction generalizing a with
  | alone x hx =>
    have ha : '/' ∉ a := fun hm => hx (h.subset hm)
    rw [components_alone ha, components_alone hx]
    by_cases hnil : x = []
    · obtain rfl : a = [] := by rwa [hnil, List.prefix_nil] at h
      exact Nat.zero_le _
    · rw [if_neg hnil]
      split <;> split <;> simp <;> split <;> simp
  | below b x hx ih =>
    rcases prefix_below h with ha | ⟨y, hy, rfl⟩
    · refine Nat.le_trans (ih ha) ?_
      rw [components_below, List.length_append]
      split
      next hb => simp [hb, components_alone]
      next => exact Nat.le_add_right _ _
    · have hy' : '/' ∉ y := fun hm => hx (hy.subset hm)
      rw [components_below, components_below, List.length_append, List.length_append, steps_alone hx,
        steps_alone hy']
      refine Nat.add_le_add_left ?_ _
      cases hidle : isIdle x with
      | true => simp [isIdle_of_front hy hidle]
      | false => split <;> simp

/-! ## spelled no longer than needed -/

/-- no shorter front of the text has all of its components -/
def Tight (cs : List Char) : Prop := ∀ r, r <+: cs → components r = components cs → r = cs

theorem tight_of_short {cs : List Char} (h : cs.length ≤ 1) : Tight cs := by
  intro r hr hc
  rcases Nat.lt_or_ge r.length cs.length with hlt | hge
  · obtain rfl : r = [] := List.length_eq_zero_iff.mp (by omega)
    exact (components_eq_nil_iff.mp hc.symm).symm
  · exact hr.eq_of_length_le hge

theorem tight_alone {x : List Char} (h : '/' ∉ x) (hidle : isIdle x = false) : Tight x := by
  intro r hr hc
  have hr' : '/' ∉ r := fun hm => h (hr.subset hm)
  have hx : x ≠ [] ∧ x ≠ ['.'] := by simpa [isIdle] using hidle
  rw [components_alone h, components_alone hr', if_neg hx.1, if_neg hx.2] at hc
  split at hc
  · contradiction
  · split at hc
    · have hstep := isStep_componentOf x
      rw [← List.singleton_inj.mp hc] at hstep
      contradiction
    · exact componentOf_injective (List.singleton_inj.mp hc)

theorem tight_below (a : List Char) {x : List Char} (hslash : '/' ∉ x) (hidle : isIdle x = false) :
    Tight (a ++ '/' :: x) := by
  intro r hr hc
  rcases prefix_below hr with ha | ⟨y, hy, rfl⟩
  · have hle := length_components_le ha
    rw [hc, components_below, steps_alone hslash, hidle, List.length_append] at hle
    split at hle
    next hnil => simp [hnil, components_alone] at hle
    next => exact absurd hle (Nat.not_succ_le_self _)
  · have hy' : '/' ∉ y := fun hm => hslash (hy.subset hm)
    rw [components_below, components_below, steps_alone hslash, steps_alone hy', hidle,
      List.append_cancel_left_eq] at hc
    cases hyidle : isIdle y with
    | true => simp [hyidle] at hc
    | false =>
      rw [hyidle] at hc
      rw [componentOf_injective (List.singleton_inj.mp hc)]

/-! ## the last step of a text -/

/-- behind the head of a text, its components are steps -/
theorem components_splitHead (cs : List Char) : components cs =
    components (splitHead cs).1 ++ (steps (splitHead cs).2).map componentOf := by
  rcases splitHead_cases cs with ⟨ha, hh, hs⟩ | ⟨r, rfl, hs⟩ | ⟨r, rfl, hs, rfl | ⟨r, rfl⟩⟩
  · rw [hs, components_eq cs, ha, hh]
    rfl
  · rw [hs]
    exact components_below [] r
  · rw [hs]
    rfl
  · have hsteps : steps ('/' :: r) = steps r := steps_append_slash [] r
    rw [hs, hsteps]
    exact components_below ['.'] r

theorem steps_eq_nil {cs : List Char} (h : dropIdleEnd (Chars.splitAt isSlash cs) = []) :
    steps cs = [] := by
  rw [steps, ← filter_dropIdleEnd, h]
  rfl

/-- a head with pieces up to a step is spelled no longer than needed -/
theorem tight_front {cs : List Char} {ps rest : List (List Char)}
    (hbody : Chars.splitAt isSlash (splitHead cs).2 = ps ++ rest)
    (hend : ∀ x ∈ ps.getLast?, isIdle x = false) : Tight ((splitHead cs).1 ++ join ps) := by
  rcases List.eq_nil_or_concat ps with rfl | ⟨front, x, rfl⟩
  · refine tight_of_short ?_
    rcases splitHead_cases cs with ⟨_, _, hs⟩ | ⟨_, _, hs⟩ | ⟨_, _, hs, _⟩ <;> simp [hs]
  · rw [List.concat_eq_append] at hbody hend ⊢
    have hidle : isIdle x = false := hend x (by simp)
    have hslash : '/' ∉ x := by
      refine @notMem_of_mem_splitAt (splitHead cs).2 x ?_
      rw [hbody]
      simp
    by_cases hfront : front = []
    · obtain rfl := hfront
      rw [List.nil_append, join_singleton]
      rcases splitHead_cases cs with ⟨_, _, hs⟩ | ⟨_, _, hs⟩ | ⟨r, _, hs, hr⟩
      · rw [hs]
        exact tight_alone hslash hidle
      · rw [hs]
        exact tight_below [] hslash hidle
      · -- the piece behind the leading one is empty, so it is no step
        obtain ⟨qs, hqs⟩ : ∃ qs, Chars.splitAt isSlash r = [] :: qs := by
          rcases hr with rfl | ⟨s, rfl⟩
          · exact ⟨[], rfl⟩
          · exact ⟨_, splitAt_append_slash [] s⟩
        rw [hs, hqs] at hbody
        rw [← (List.cons.inj hbody).1] at hidle
        contradiction
    · rw [join_append hfront (List.cons_ne_nil _ _), join_singleton, ← List.append_assoc]
      exact tight_below _ hslash hidle

/-- the front of a text up to the one before its last step -/
theorem front_of_step {cs : List Char} {ps rest : List (List Char)} {last : List Char}
    (hbody : Chars.splitAt isSlash (splitHead cs).2 = ps ++ rest)
    (hrest : (rest.filter fun x => !isIdle x) = [last])
    (hend : ∀ x ∈ ps.getLast?, isIdle x = false) :
    (splitHead cs).1 ++ join ps <+: cs ∧
      components cs = components ((splitHead cs).1 ++ join ps) ++ [componentOf last] := by
  have hslash (x : List Char) (hx : x ∈ ps ++ rest) : '/' ∉ x :=
    @notMem_of_mem_splitAt (splitHead cs).2 x (hbody ▸ hx)
  have hsteps : steps (join rest) = [last] :=
    (steps_join fun x hx => hslash x (List.mem_append_right ps hx)).trans hrest
  have hcs : (splitHead cs).1 ++ join (ps ++ rest) = cs := by
    rw [← hbody, join_splitAt, splitHead_append]
  by_cases hnil : ps = []
  · obtain rfl := hnil
    rw [List.nil_append] at hbody hcs
    rw [join_nil, List.append_nil]
    refine ⟨⟨_, hcs⟩, ?_⟩
    rw [components_splitHead, ← join_splitAt (splitHead cs).2, hbody, hsteps, List.map_singleton]
  · have hrest' : rest ≠ [] := by
      rintro rfl
      contradiction
    have hfront : (splitHead cs).1 ++ join ps ≠ [] := by
      intro hempty
      have hps := splitAt_join hnil fun x hx => hslash x (List.mem_append_left rest hx)
      rw [(List.append_eq_nil_iff.mp hempty).2] at hps
      have := hend [] (by rw [← hps]; rfl)
      contradiction
    rw [join_append hnil hrest', ← List.append_assoc] at hcs
    refine ⟨⟨_, hcs⟩, ?_⟩
    conv_lhs => rw [← hcs, components_below, if_neg hfront, hsteps, List.map_singleton]

theorem componentOf_ne_root (x : List Char) : componentOf x ≠ .root := by
  intro h
  have hstep := isStep_componentOf x
  rw [h] at hstep
  contradiction

end PathText

open PathText

namespace Path

/-! ## going up once -/

/-- going up drops the last component, and what of the spelling belongs to it -/
theorem parent?_eq_some {p up : Path} (h : p.parent? = some up) :
    up.text.toList <+: p.text.toList ∧ (∃ c, c ≠ .root ∧ p.components = up.components ++ [c]) ∧
      Tight up.text.toList := by
  unfold parent? at h
  dsimp only at h
  split at h
  next hnone =>
    split at h
    next hhead =>
      obtain rfl := Option.some.inj h
      refine ⟨List.nil_prefix, ⟨.current, by simp, ?_⟩, tight_of_short (Nat.zero_le 1)⟩
      rw [Path.components, components_splitHead, hhead, steps_eq_nil hnone]
      rfl
    · contradiction
  next hne =>
    obtain rfl := Option.some.inj h
    obtain ⟨rest, last, hbody, hrest⟩ := exists_last_step hne
    have hend := getLast?_dropIdleEnd (dropIdleEnd (Chars.splitAt isSlash (splitHead p.text.toList).2)).dropLast
    obtain ⟨hfront, hcomponents⟩ := front_of_step hbody hrest hend
    rw [Path.components, Path.components, String.toList_ofList]
    exact ⟨hfront, ⟨_, componentOf_ne_root last, hcomponents⟩, tight_front hbody hend⟩

/-- only the root and the empty path cannot be left -/
theorem parent?_eq_none_iff {p : Path} :
    p.parent? = none ↔ p.components = if p.isAbsolute then [.root] else [] := by
  constructor
  · intro h
    unfold parent? at h
    dsimp only at h
    split at h
    next hnone =>
      rw [Path.components, Path.isAbsolute, components_splitHead, steps_eq_nil hnone]
      rcases splitHead_cases p.text.toList with ⟨ha, _, hs⟩ | ⟨r, hp, hs⟩ | ⟨r, _, hs, _⟩
      · rw [hs, ha]
        rfl
      · rw [hs, hp]
        rfl
      · rw [hs] at h
        contradiction
    · contradiction
  · intro h
    cases hup : p.parent? with
    | none => rfl
    | some up =>
      obtain ⟨_, ⟨c, hc, hp⟩, _⟩ := parent?_eq_some hup
      have hlast := congrArg List.getLast? hp
      rw [h, List.getLast?_concat] at hlast
      split at hlast
      · exact absurd (Option.some.inj hlast).symm hc
      · contradiction

/-! ## going up -/

/-- how often a path can be left upwards: the components it has beside the root -/
def height (p : Path) : Nat := (p.components.filter (· ≠ .root)).length

/-- `q` is `p` without its last `k` components: as it stands if none are dropped, and spelled no longer
than needed if some are -/
structure Dropped (p : Path) (k : Nat) (q : Path) : Prop where
  front : q.text.toList <+: p.text.toList
  components : ∃ cs, p.components = q.components ++ cs ∧ cs.length = k ∧ .root ∉ cs
  whole : k = 0 → q = p
  tight : k ≠ 0 → Tight q.text.toList

theorem dropped_zero_iff {p q : Path} : p.Dropped 0 q ↔ q = p := by
  refine ⟨fun h => h.whole rfl, ?_⟩
  rintro rfl
  exact ⟨List.prefix_rfl, ⟨[], by simp⟩, fun _ => rfl, fun h => absurd rfl h⟩

theorem eq_of_tight {p q : Path} (h : Tight p.text.toList) (hfront : q.text.toList <+: p.text.toList)
    (hc : q.components = p.components) : q = p := by
  have htext : q.text = p.text := String.toList_injective (h _ hfront hc)
  cases q
  cases p
  exact congrArg Path.mk htext

section
variable {p q up : Path} {k : Nat}

theorem Dropped.exists_parent (h : p.Dropped (k + 1) q) : ∃ up, p.parent? = some up := by
  obtain ⟨cs, hcs, hlen, hroot⟩ := h.components
  obtain ⟨ds, d, rfl⟩ := (List.eq_nil_or_concat' cs).resolve_left (List.ne_nil_of_length_eq_add_one hlen)
  refine Option.ne_none_iff_exists'.mp fun hnone => ?_
  -- the last component of `p` would be the root, which is not dropped
  have hlast := congrArg List.getLast? hcs
  rw [parent?_eq_none_iff.mp hnone, ← List.append_assoc, List.getLast?_concat] at hlast
  split at hlast
  · exact hroot (Option.some.inj hlast ▸ List.mem_concat_self)
  · contradiction

theorem Dropped.of_parent (hup : p.parent? = some up) (h : up.Dropped k q) : p.Dropped (k + 1) q := by
  obtain ⟨hfront, ⟨c, hc, hp⟩, htight⟩ := parent?_eq_some hup
  obtain ⟨cs, hcs, hlen, hroot⟩ := h.components
  refine ⟨h.front.trans hfront, ⟨cs ++ [c], ?_, ?_, ?_⟩, ?_, fun _ => ?_⟩
  · rw [hp, hcs, List.append_assoc]
  · rw [List.length_append, hlen]
    rfl
  · simp [hroot, hc.symm]
  · exact fun hk => absurd hk (Nat.succ_ne_zero k)
  · cases k with
    | zero => rwa [h.whole rfl]
    | succ k => exact h.tight (Nat.succ_ne_zero k)

/-- a path upwards, but for the path itself, is one from its parent -/
theorem Dropped.to_parent (hup : p.parent? = some up) (h : p.Dropped (k + 1) q) : up.Dropped k q := by
  obtain ⟨hfront, ⟨c, -, hc⟩, htight⟩ := parent?_eq_some hup
  obtain ⟨cs, hcs, hlen, hroot⟩ := h.components
  obtain ⟨ds, d, rfl⟩ := (List.eq_nil_or_concat' cs).resolve_left (List.ne_nil_of_length_eq_add_one hlen)
  have hlen' : ds.length = k := by simpa using hlen
  have hds : up.components = q.components ++ ds := by
    rw [hc, ← List.append_assoc] at hcs
    exact (List.append_inj' hcs rfl).1
  have hq : q.text.toList <+: up.text.toList := by
    rcases List.prefix_or_prefix_of_prefix h.front hfront with hq | hq
    · exact hq
    · -- then `q` has the components of `up`, and the shorter spelling is `q` itself
      have hle : up.components.length ≤ q.components.length := length_components_le hq
      have hnil : ds = [] := List.length_eq_zero_iff.mp (by rw [hds, List.length_append] at hle; omega)
      have hsame : up.components = q.components := by rw [hds, hnil, List.append_nil]
      have htext := h.tight (Nat.succ_ne_zero k) _ hq hsame
      exact htext ▸ List.prefix_rfl
  refine ⟨hq, ⟨ds, hds, hlen', fun hm => hroot (List.mem_append_left _ hm)⟩, ?_,
    fun _ => h.tight (Nat.succ_ne_zero k)⟩
  rintro rfl
  refine eq_of_tight htight hq ?_
  rw [hds, List.length_eq_zero_iff.mp hlen', List.append_nil]

/-- dropping one more is going up once more -/
theorem dropped_succ_iff : p.Dropped (k + 1) q ↔ ∃ up, p.parent? = some up ∧ up.Dropped k q := by
  constructor
  · intro h
    obtain ⟨up, hup⟩ := h.exists_parent
    exact ⟨up, hup, h.to_parent hup⟩
  · rintro ⟨up, hup, h⟩
    exact h.of_parent hup

end

theorem Dropped.unique {p q r : Path} {k : Nat} (hq : p.Dropped k q) (hr : p.Dropped k r) : q = r := by
  induction k generalizing p with
  | zero => rw [dropped_zero_iff.mp hq, dropped_zero_iff.mp hr]
  | succ k ih =>
    obtain ⟨up, hup, hq⟩ := dropped_succ_iff.mp hq
    obtain ⟨up', hup', hr⟩ := dropped_succ_iff.mp hr
    obtain rfl := Option.some.inj (hup.symm.trans hup')
    exact ih hq hr

theorem height_of_parent {p up : Path} (h : p.parent? = some up) : p.height = up.height + 1 := by
  obtain ⟨_, ⟨c, hc, hp⟩, _⟩ := parent?_eq_some h
  rw [height, hp, List.filter_append, List.filter_singleton]
  simp [hc, height]

theorem parent?_eq_none_iff_height {p : Path} : p.parent? = none ↔ p.height = 0 := by
  constructor
  · intro h
    rw [height, parent?_eq_none_iff.mp h]
    split <;> rfl
  · intro h
    cases hup : p.parent? with
    | none => rfl
    | some up =>
      rw [height_of_parent hup] at h
      contradiction

/-- how many components can be dropped -/
theorem exists_dropped_iff {p : Path} {k : Nat} : (∃ q, p.Dropped k q) ↔ k ≤ p.height := by
  induction k generalizing p with
  | zero => exact ⟨fun _ => Nat.zero_le _, fun _ => ⟨p, dropped_zero_iff.mpr rfl⟩⟩
  | succ k ih =>
    simp only [dropped_succ_iff]
    cases hup : p.parent? with
    | none => simp [parent?_eq_none_iff_height.mp hup]
    | some up =>
      rw [height_of_parent hup, Nat.add_le_add_iff_right, ← ih]
      simp

theorem Dropped.height_eq {p q : Path} {k : Nat} (h : p.Dropped k q) : p.height = q.height + k := by
  obtain ⟨cs, hcs, rfl, hroot⟩ := h.components
  have hall : cs.filter (· ≠ .root) = cs :=
    List.filter_eq_self.mpr fun c hc => decide_eq_true (fun h => hroot (h ▸ hc))
  rw [height, hcs, List.filter_append, List.length_append, hall, height]

/-- there is one path for each number of components that can be dropped -/
theorem existsUnique_dropped_iff {p : Path} {k : Nat} : (∃! q, p.Dropped k q) ↔ k ≤ p.height := by
  rw [← exists_dropped_iff]
  refine ⟨fun h => h.exists, fun h => ?_⟩
  obtain ⟨q, hq⟩ := h
  exact ⟨q, hq, fun r hr => hr.unique hq⟩

/-- the last path upwards: the root for an absolute path, and the empty one for another -/
theorem dropped_height {p q : Path} (h : p.Dropped p.height q) :
    if p.isAbsolute then q.components = [.root] else q = ⟨""⟩ := by
  have hnone : q.parent? = none :=
    parent?_eq_none_iff_height.mpr (Nat.add_eq_right.mp h.height_eq.symm)
  have hq := parent?_eq_none_iff.mp hnone
  obtain ⟨cs, hcs, -, hroot⟩ := h.components
  rw [isAbsolute, PathText.isAbsolute_eq, ← Path.components, hcs]
  split at hq
  next => rw [hq, if_pos (by rfl)]
  next =>
    have hhead : (cs.head? == some Component.root) = false := by
      cases cs with
      | nil => rfl
      | cons c cs => exact beq_eq_false_iff_ne.mpr fun hc => hroot (Option.some.inj hc ▸ List.mem_cons_self)
    rw [hq, List.nil_append, hhead, if_neg Bool.false_ne_true]
    exact congrArg Path.mk (String.toList_eq_nil_iff.mp (components_eq_nil_iff.mp hq))

end Path

end IncrementalLint
