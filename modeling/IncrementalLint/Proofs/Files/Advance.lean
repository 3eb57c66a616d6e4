import IncrementalLint.Proofs.Files.Paths

/-!
# Changes that leave their time

Whatever is written has the time at which it was written, and the clock only moves on. So what is
older than a moment has been there since that moment.

* `Advances`            between two workspaces, all that is new has a time of its own;
* `Advances.same`       what is older than a moment is what it was then;
* `Edited`              besides, what is no directory is new at some locations only.
-/

namespace IncrementalLint.Workspace

/-! ## nodes after single steps -/

section
variable (w : Workspace) (l m : Location) (n : Node)

@[simp] theorem node?_tick : w.tick.node? l = w.node? l := rfl
@[simp] theorem cwd_tick : w.tick.cwd = w.cwd := rfl
@[simp] theorem clock_tick : w.tick.clock = w.clock + 1 := rfl
@[simp] theorem cwd_put : (w.put l n).cwd = w.cwd := rfl
@[simp] theorem clock_put : (w.put l n).clock = w.clock := rfl
@[simp] theorem cwd_drop : (w.drop l).cwd = w.cwd := rfl
@[simp] theorem clock_drop : (w.drop l).clock = w.clock := rfl

theorem node?_drop :
    (w.drop l).node? m = if m = l then (if l = [] then some (.directory 0) else none) else w.node? m := by
  unfold node? drop
  rw [SortedMap.get?_erase]
  by_cases h : m = l
  · simp [h]
  · simp [h, Ne.symm h]

/-- a note on a directory is all that becomes of a changed entry -/
theorem touchParent_eq :
    w.touchParent l = w ∨
      ∃ d t, w.node? d = some (.directory t) ∧ w.touchParent l = w.put d (.directory w.clock) := by
  unfold touchParent
  split
  next t hd =>
    split
    · exact Or.inl rfl
    · exact Or.inr ⟨_, t, hd, rfl⟩
  next => exact Or.inl rfl

@[simp] theorem cwd_touchParent : (w.touchParent l).cwd = w.cwd := by
  rcases touchParent_eq w l with h | ⟨_, _, _, h⟩
  · rw [h]
  · rw [h, cwd_put]

@[simp] theorem clock_touchParent : (w.touchParent l).clock = w.clock := by
  rcases touchParent_eq w l with h | ⟨_, _, _, h⟩
  · rw [h]
  · rw [h, clock_put]

theorem node?_touchParent :
    (w.touchParent l).node? m = w.node? m ∨
      ∃ t, w.node? m = some (.directory t) ∧ (w.touchParent l).node? m = some (.directory w.clock) := by
  rcases touchParent_eq w l with h | ⟨d, t, hd, h⟩
  · exact Or.inl (by rw [h])
  · rw [h, node?_put]
    by_cases hm : m = d
    · exact Or.inr ⟨t, hm ▸ hd, if_pos hm⟩
    · exact Or.inl (if_neg hm)

end

/-! ## one moment and a later one -/

/-- all that is new has a time of its own, and links stay -/
structure Advances (w w' : Workspace) : Prop where
  cwd : w'.cwd = w.cwd
  clock : w.clock ≤ w'.clock
  stamped : ∀ {l : Location} {n : Node}, w'.node? l = some n →
    w.node? l = some n ∨ (w.clock ≤ n.modified ∧ n.isLink = false)
  links : ∀ {l : Location} {target : String},
    w.node? l = some (.link target) → w'.node? l = some (.link target)

/-- besides, what is no directory is new at some locations only -/
structure Edited (w w' : Workspace) (new : Location → Prop) : Prop extends Advances w w' where
  others : ∀ {l : Location} {n : Node}, w'.node? l = some n →
    w.node? l = some n ∨ n.isDirectory = true ∨ new l

section
variable {w w' w'' : Workspace} {new : Location → Prop}

theorem Advances.refl (w : Workspace) : Advances w w := ⟨rfl, Int.le_refl _, Or.inl, id⟩

theorem Advances.trans (h : Advances w w') (h' : Advances w' w'') : Advances w w'' := by
  refine ⟨h'.cwd.trans h.cwd, Int.le_trans h.clock h'.clock, fun {l n} hn => ?_, h'.links ∘ h.links⟩
  rcases h'.stamped hn with hn' | ⟨ht, hl⟩
  · exact h.stamped hn'
  · exact Or.inr ⟨Int.le_trans h.clock ht, hl⟩

theorem Advances.sameLinks (h : Advances w w') : SameLinks w w' := by
  refine ⟨h.cwd, fun {l target} => ⟨fun hl => ?_, h.links⟩⟩
  rcases h.stamped hl with hl' | ⟨_, hl'⟩
  · exact hl'
  · exact absurd hl' (by simp [Node.isLink])

/-- what is older than a moment is what it was then -/
theorem Advances.same (h : Advances w w') {l : Location} {n : Node} (hn : w'.node? l = some n)
    (ht : n.modified < w.clock) : w.node? l = some n :=
  (h.stamped hn).elim id fun hs => absurd hs.1 (Int.not_le.mpr ht)

theorem Edited.refl (w : Workspace) : Edited w w new := ⟨.refl w, Or.inl⟩

theorem Edited.trans (h : Edited w w' new) (h' : Edited w' w'' new) : Edited w w'' new := by
  refine ⟨h.toAdvances.trans h'.toAdvances, fun {l n} hn => ?_⟩
  rcases h'.others hn with hn' | hn'
  · exact h.others hn'
  · exact Or.inr hn'

theorem Edited.mono {new' : Location → Prop} (h : Edited w w' new) (hnew : ∀ l, new l → new' l) :
    Edited w w' new' :=
  ⟨h.toAdvances, fun hn => (h.others hn).imp id (Or.imp id (hnew _))⟩

theorem edited_tick (w : Workspace) : Edited w w.tick new :=
  ⟨⟨rfl, Int.le_of_lt (Int.lt_succ w.clock), Or.inl, id⟩, Or.inl⟩

theorem edited_touchParent (w : Workspace) (l : Location) : Edited w (w.touchParent l) new := by
  refine ⟨⟨w.cwd_touchParent l, by simp, fun {m n} hn => ?_, fun {m target} hm => ?_⟩,
    fun {m n} hn => ?_⟩
  · rcases node?_touchParent w l m with h | ⟨t, _, h⟩
    · exact Or.inl (h ▸ hn)
    · obtain rfl := Option.some.inj (h.symm.trans hn)
      exact Or.inr ⟨Int.le_refl _, rfl⟩
  · rcases node?_touchParent w l m with h | ⟨t, hd, _⟩
    · exact h.trans hm
    · exact absurd (hd.symm.trans hm) (by simp)
  · rcases node?_touchParent w l m with h | ⟨t, _, h⟩
    · exact Or.inl (h ▸ hn)
    · obtain rfl := Option.some.inj (h.symm.trans hn)
      exact Or.inr (Or.inl rfl)

theorem edited_put {l : Location} {n : Node} (hl : ∀ target, w.node? l ≠ some (.link target))
    (ht : w.clock ≤ n.modified) (hn : n.isLink = false) : Edited w (w.put l n) (· = l) := by
  refine ⟨⟨rfl, Int.le_refl _, fun {m k} hk => ?_, fun {m target} hm => ?_⟩, fun {m k} hk => ?_⟩
  · rw [node?_put] at hk
    split at hk
    next => exact Or.inr (Option.some.inj hk ▸ ⟨ht, hn⟩)
    next => exact Or.inl hk
  · rw [node?_put, if_neg]
    · exact hm
    · exact fun h => hl target (h ▸ hm)
  · rw [node?_put] at hk
    split at hk
    next h => exact Or.inr (Or.inr h)
    next => exact Or.inl hk

theorem edited_drop {l : Location} (hroot : l ≠ []) (hl : ∀ target, w.node? l ≠ some (.link target)) :
    Edited w (w.drop l) new := by
  refine ⟨⟨rfl, Int.le_refl _, fun {m k} hk => ?_, fun {m target} hm => ?_⟩, fun {m k} hk => ?_⟩
  · rw [node?_drop, if_neg hroot] at hk
    split at hk
    · contradiction
    · exact Or.inl hk
  · rw [node?_drop, if_neg]
    · exact hm
    · exact fun h => hl target (h ▸ hm)
  · rw [node?_drop, if_neg hroot] at hk
    split at hk
    · contradiction
    · exact Or.inl hk

end

end IncrementalLint.Workspace
