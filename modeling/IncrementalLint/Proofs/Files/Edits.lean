import IncrementalLint.Proofs.Files.Advance

/-!
# What the changes do

* `write_ok`, `write_error`        a file is written, or nothing happens;
* `unlink_ok`, `unlink_gone`       a file is taken away;
* `Grows`                          directories are added, and nothing else;
* `createParent_grows`             making room for a file;
* `saveText_ok`                    both together.
-/

namespace IncrementalLint.Workspace

section
variable {w w' w'' : Workspace} {p : Path} {l : Location} {n : Node}

theorem not_root_of_none (h : w.node? l = none) : l ≠ [] := by
  rintro rfl
  unfold node? at h
  split at h
  · contradiction
  · exact absurd h (by simp)

theorem not_link {target : String} (hn : w.node? l = some n) (hl : n.isLink = false) :
    w.node? l ≠ some (.link target) := by
  intro h
  obtain rfl := Option.some.inj (hn.symm.trans h)
  exact absurd hl (by simp [Node.isLink])

/-! ## a node added, and a node over another -/

theorem edited_add (hl : w.node? l = none) (ht : w.clock ≤ n.modified) (hn : n.isLink = false) :
    Edited w (w.add l n) (· = l) :=
  ((edited_put (by simp [hl]) ht hn).trans (edited_touchParent _ l)).trans (edited_tick _)

theorem edited_overwrite {n₀ : Node} (hl : w.node? l = some n₀) (h₀ : n₀.isLink = false)
    (ht : w.clock ≤ n.modified) (hn : n.isLink = false) : Edited w (w.overwrite l n) (· = l) :=
  (edited_put (fun _ => not_link hl h₀) ht hn).trans (edited_tick _)

theorem clock_add : (w.add l n).clock = w.clock + 1 := by
  simp [add]

theorem keeps_touchParent : Keeps w (w.touchParent l) := by
  refine ⟨w.cwd_touchParent l, fun {m k} hk => ?_⟩
  rcases node?_touchParent w l m with h | ⟨t, hd, h⟩
  · exact ⟨k, h.trans hk, .refl k⟩
  · obtain rfl := Option.some.inj (hk.symm.trans hd)
    exact ⟨_, h, trivial⟩

theorem keeps_tick : Keeps w w.tick := ⟨rfl, fun {_ k} hk => ⟨k, hk, .refl k⟩⟩

theorem keeps_add (hl : w.node? l = none) : Keeps w (w.add l n) := by
  have hput : Keeps w (w.put l n) := by
    refine ⟨rfl, fun {m k} hk => ⟨k, ?_, .refl k⟩⟩
    rw [node?_put, if_neg]
    · exact hk
    · exact fun h => absurd hk (by simp [h, hl])
  exact (hput.trans keeps_touchParent).trans keeps_tick

theorem keeps_overwrite {n₀ : Node} (hl : w.node? l = some n₀) (ha : n₀.Alike n) :
    Keeps w (w.overwrite l n) := by
  refine ⟨rfl, fun {m k} hk => ?_⟩
  show ∃ n', (w.put l n).node? m = some n' ∧ k.Alike n'
  rw [node?_put]
  by_cases h : m = l
  · rw [h] at hk
    obtain rfl := Option.some.inj (hk.symm.trans hl)
    exact ⟨n, if_pos h, ha⟩
  · exact ⟨k, (if_neg h).trans hk, .refl k⟩

theorem node?_add_self (ht : n.isDirectory = true → n = .directory w.clock) :
    (w.add l n).node? l = some n := by
  have hput : (w.put l n).node? l = some n := by rw [node?_put, if_pos rfl]
  show ((w.put l n).touchParent l).node? l = some n
  rcases node?_touchParent (w.put l n) l l with h | ⟨t, hd, h⟩
  · exact h.trans hput
  · obtain rfl := Option.some.inj (hput.symm.trans hd)
    rw [h, ht rfl]
    rfl

theorem node?_add_file {m : Location} {c : ByteArray} {t : Time} {x : Bool} (hm : m ≠ l)
    (h : w.node? m = some (.file c t x)) : (w.add l n).node? m = some (.file c t x) := by
  have hput : (w.put l n).node? m = some (.file c t x) := by rw [node?_put, if_neg hm, h]
  show ((w.put l n).touchParent l).node? m = _
  rcases node?_touchParent (w.put l n) l m with h' | ⟨_, hd, _⟩
  · exact h'.trans hput
  · exact absurd (hput.symm.trans hd) (by simp)

theorem node?_overwrite_self : (w.overwrite l n).node? l = some n := by
  show (w.put l n).node? l = some n
  rw [node?_put, if_pos rfl]

/-! ## files written -/

structure Wrote (w w' : Workspace) (l : Location) (content : ByteArray) : Prop
    extends Edited w w' (· = l) where
  tick : w'.clock = w.clock + 1
  keeps : Keeps w w'
  node : ∃ x, w'.node? l = some (.file content w.clock x)

/-- a file is written and found again; only what is no storage takes a text without keeping it -/
theorem write_ok {content : ByteArray} (h : w.write p content = (w', .ok ())) :
    (∃ l x, w'.find p = .ok (l, .file content w.clock x) ∧ Wrote w w' l content) ∨
      (w' = w ∧ ∃ l n, w.find p = .ok (l, n) ∧ n.isDirectory = false ∧ ∀ c t x, n ≠ .file c t x) := by
  unfold write at h
  split at h
  · exact absurd h (by simp)
  next l b hloc =>
    split at h
    · exact absurd h (by simp)
    next hb =>
      obtain rfl := (Prod.mk.inj h).1
      have hfree : w.node? l = none := (locate_eq_ok_iff.mp hloc).2.free_node
      have hself := node?_add_self (w := w) (l := l) (n := .file content w.clock false) (by simp [Node.isDirectory])
      refine Or.inl ⟨l, false, ?_, edited_add hfree (Int.le_refl _) rfl, clock_add, keeps_add hfree, _, hself⟩
      exact find_eq_ok_iff.mpr ((keeps_add hfree).locate hloc hself ⟨rfl, fun hb' => absurd hb' hb⟩)
  next l c t x hloc =>
    obtain rfl := (Prod.mk.inj h).1
    have hn := (locate_eq_ok_iff.mp hloc).2.found_node
    have hk := keeps_overwrite (n := .file content w.clock x) hn trivial
    refine Or.inl ⟨l, x, ?_, edited_overwrite hn rfl (Int.le_refl _) rfl, rfl, hk, x, node?_overwrite_self⟩
    exact find_eq_ok_iff.mpr (hk.locate hloc node?_overwrite_self trivial)
  · exact absurd h (by simp)
  next l n hfile hdir hloc =>
    obtain rfl := (Prod.mk.inj h).1
    refine Or.inr ⟨rfl, l, n, find_eq_ok_iff.mpr hloc, ?_, ?_⟩
    · cases n <;> simp_all [Node.isDirectory]
    · rintro c t x rfl
      exact hfile c t x rfl

/-- where a file cannot be written, nothing changes and nothing can be read -/
theorem write_error {content : ByteArray} {e : FileError} (h : w.write p content = (w', .error e)) :
    w' = w ∧ ∀ s, w.readText p ≠ .ok s := by
  have hread {s : String} (hs : w.readText p = .ok s) :
      ∃ l n, w.locate p true = .ok (.found l n) ∧ n.isDirectory = false := by
    obtain ⟨l, n, hf, ht⟩ := readText_eq_ok_iff.mp hs
    refine ⟨l, n, find_eq_ok_iff.mp hf, ?_⟩
    cases n <;> simp_all [Node.text?, Node.isDirectory]
  unfold write at h
  refine ⟨?_, fun s hs => ?_⟩
  · split at h <;> (try split at h) <;> simp_all
  · obtain ⟨l, n, hl, hd⟩ := hread hs
    rw [hl] at h
    cases n <;> simp_all [Node.isDirectory]

/-! ## files taken away -/

theorem unlink_ok (h : w.unlink p = (w', .ok ())) :
    ∃ l n, w.locate p false = .ok (.found l n) ∧ n.isDirectory = false ∧ w' = w.remove l := by
  unfold unlink at h
  split at h
  · exact absurd h (by simp)
  · exact absurd h (by simp)
  · exact absurd h (by simp)
  next l n hdir hloc =>
    refine ⟨l, n, hloc, ?_, (Prod.mk.inj h).1.symm⟩
    cases n with
    | directory t => exact absurd rfl (hdir t)
    | _ => rfl

theorem unlink_error {e : FileError} (h : w.unlink p = (w', .error e)) : w' = w := by
  unfold unlink at h
  split at h <;> simp_all

theorem edited_remove {new : Location → Prop} (hroot : l ≠ []) (hn : w.node? l = some n)
    (hl : n.isLink = false) : Edited w (w.remove l) new :=
  ((edited_drop hroot fun _ => not_link hn hl).trans (edited_touchParent _ l)).trans (edited_tick _)

theorem node?_remove_self (hroot : l ≠ []) : (w.remove l).node? l = none := by
  have hdrop : (w.drop l).node? l = none := by rw [node?_drop, if_pos rfl, if_neg hroot]
  show ((w.drop l).touchParent l).node? l = none
  rcases node?_touchParent (w.drop l) l l with h | ⟨t, hd, _⟩
  · exact h.trans hdrop
  · exact absurd (hdrop.symm.trans hd) (by simp)

theorem keeps_remove {m : Location} (hm : m ≠ l) (hn : w.node? m = some n) :
    ∃ n', (w.remove l).node? m = some n' ∧ n.Alike n' := by
  have hdrop : (w.drop l).node? m = some n := by rw [node?_drop, if_neg hm, hn]
  exact (keeps_touchParent (w := w.drop l) (l := l)).nodes hdrop

theorem unlink_gone {t : Time} (hroot : w.node? [] = some (.directory t))
    (h : w.unlink p = (w', .ok ())) {x : Location × Node} : w'.find p ≠ .ok x := by
  obtain ⟨l, n, hloc, hd, rfl⟩ := unlink_ok h
  have hl : l ≠ [] := by
    rintro rfl
    obtain rfl := Option.some.inj ((locate_eq_ok_iff.mp hloc).2.found_node.symm.trans hroot)
    contradiction
  refine find_gone hloc hd ?_ keeps_remove (node?_remove_self hl)
  simp [remove]

/-! ## directories added -/

/-- directories are added, and nothing else -/
structure Grows (w w' : Workspace) : Prop extends Edited w w' (fun _ => False) where
  keeps : Keeps w w'

theorem Grows.refl (w : Workspace) : Grows w w := ⟨.refl w, .refl w⟩

theorem Grows.trans (h : Grows w w') (h' : Grows w' w'') : Grows w w'' :=
  ⟨h.toEdited.trans h'.toEdited, h.keeps.trans h'.keeps⟩

theorem grows_add (hl : w.node? l = none) : Grows w (w.add l (.directory w.clock)) := by
  have hedit := edited_add (n := .directory w.clock) hl (Int.le_refl _) rfl
  refine ⟨⟨hedit.toAdvances, fun {m n} hn => ?_⟩, keeps_add hl⟩
  rcases hedit.others hn with h | h | h
  · exact Or.inl h
  · exact Or.inr (Or.inl h)
  · rw [h, node?_add_self fun _ => rfl] at hn
    exact Or.inr (Or.inl (Option.some.inj hn ▸ rfl))

theorem createDirectory_grows (w : Workspace) (p : Path) : Grows w (w.createDirectory p).1 := by
  unfold createDirectory
  split
  · exact .refl w
  · exact .refl w
  next l b hloc => exact grows_add (locate_eq_ok_iff.mp hloc).2.free_node

theorem createDirectoriesFrom_grows (w : Workspace) (p : Path) (fuel : Nat) :
    Grows w (w.createDirectoriesFrom p fuel).1 := by
  induction fuel generalizing w p with
  | zero => exact .refl w
  | succ fuel ih =>
    rw [createDirectoriesFrom]
    have hone := createDirectory_grows w p
    split
    · exact .refl w
    · split
      next w₁ h₁ =>
        rw [h₁] at hone
        exact hone
      next w₁ e h₁ =>
        split
        · split
          · exact .refl w
          next up _ =>
            have hup := ih w up
            split
            next w₂ e₂ h₂ =>
              rw [h₂] at hup
              exact hup
            next w₂ h₂ =>
              rw [h₂] at hup
              have htwo := createDirectory_grows w₂ p
              split
              next w₃ h₃ =>
                rw [h₃] at htwo
                exact hup.trans htwo
              next w₃ e₃ h₃ =>
                rw [h₃] at htwo
                split <;> exact hup.trans htwo
        · split <;> exact .refl w

theorem createParent_grows (w : Workspace) (p : Path) : Grows w (w.createParent p).1 := by
  unfold createParent
  split
  · exact .refl w
  next up _ =>
    split
    · exact .refl w
    · have hup := createDirectoriesFrom_grows w up (depth up)
      split
      next w₁ h₁ =>
        rw [createDirectories] at h₁
        rw [h₁] at hup
        exact hup
      next w₁ e h₁ =>
        rw [createDirectories] at h₁
        rw [h₁] at hup
        exact hup

theorem saveText_ok {text : String} (h : w.saveText p text = (w', .ok ())) :
    ∃ w₁, Grows w w₁ ∧ w₁.write p (Utf8.encode text) = (w', .ok ()) := by
  have hgrows := createParent_grows w p
  unfold saveText at h
  split at h
  · exact absurd h (by simp)
  next w₁ h₁ =>
    rw [h₁] at hgrows
    exact ⟨w₁, hgrows, h⟩

end

end IncrementalLint.Workspace
