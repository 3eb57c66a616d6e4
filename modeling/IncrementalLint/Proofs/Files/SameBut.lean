import IncrementalLint.Proofs.Files.Paths

/-!
# Workspaces that differ in one file

All that is found elsewhere is found in both, and what is found there is the file of each.

* `SameBut`              the same but for one file, which may be missing;
* `Route.transfer`       a route leads to the same place where what it passes is the same;
* `SameBut.find`         what is found elsewhere;
* `SameBut.find_here`    what is found at the place of the file;
* `readText_toOption`    reading and looking at a time, as functions of what is found.
-/

namespace IncrementalLint

namespace Workspace

/-! ## one file -/

/-- a file, or nothing -/
def FileAt (w : Workspace) (l : Location) : Prop := ∀ n, w.node? l = some n → ∃ c t x, n = .file c t x

/-- the same but for one file, which may be missing in either -/
structure SameBut (l : Location) (w v : Workspace) : Prop where
  cwd : v.cwd = w.cwd
  clock : v.clock = w.clock
  others : ∀ m, m ≠ l → v.node? m = w.node? m
  left : w.FileAt l
  right : v.FileAt l

/-! ## routes -/

section
variable {w v : Workspace} {l m : Location} {p : Path} {n n' : Node} {place : Place}

/-- a route goes by directories and links, and by what it ends at -/
theorem Route.transfer {follow : Bool} {links : Nat} {here : Location} {ps : List String}
    (h : Route w follow links here ps place)
    (hway : ∀ {k : Location} {d : Node}, w.node? k = some d → d.isDirectory = true ∨ d.isLink = true →
      v.node? k = some d)
    (hend : v.node? place.location = w.node? place.location) : Route v follow links here ps place := by
  induction h with
  | here hn => exact .here (hend.trans hn)
  | idle hp _ ih => exact .idle hp (ih hend)
  | up _ ih => exact .up (ih hend)
  | free hp hn hrest => exact .free hp (hend.trans hn) hrest
  | into hp hn _ ih => exact .into hp (hway hn (Or.inl rfl)) (ih hend)
  | atLink hp hn hf => exact .atLink hp (hway hn (Or.inr rfl)) hf
  | through hp hn hf _ ih => exact .through hp (hway hn (Or.inr rfl)) hf (ih hend)
  | last hp hn hd hl => exact .last hp (hend.trans hn) hd hl

theorem FileAt.not_passed (h : w.FileAt l) (hn : w.node? l = some n) :
    ¬(n.isDirectory = true ∨ n.isLink = true) := by
  obtain ⟨c, t, x, rfl⟩ := h n hn
  rintro (hd | hl)
  · contradiction
  · contradiction

/-! ## the same but for one file -/

namespace SameBut

theorem symm (h : SameBut l w v) : SameBut l v w :=
  ⟨h.cwd.symm, h.clock.symm, fun m hm => (h.others m hm).symm, h.right, h.left⟩

/-- directories and links are the same -/
theorem way (h : SameBut l w v) (hn : w.node? m = some n) (hw : n.isDirectory = true ∨ n.isLink = true) :
    v.node? m = some n := by
  by_cases hm : m = l
  · exact absurd hw (h.left.not_passed (hm ▸ hn))
  · exact (h.others m hm).trans hn

theorem locate (h : SameBut l w v) {follow : Bool} (hp : w.locate p follow = .ok place)
    (hend : v.node? place.location = w.node? place.location) : v.locate p follow = .ok place := by
  obtain ⟨hu, hr⟩ := locate_eq_ok_iff.mp hp
  have hstart : v.start p = w.start p := by rw [start, start, h.cwd]
  rw [locate_eq_ok_iff, hstart]
  exact ⟨hu, hr.transfer h.way hend⟩

theorem find (h : SameBut l w v) (hm : m ≠ l) (hf : w.find p = .ok (m, n)) : v.find p = .ok (m, n) :=
  find_eq_ok_iff.mpr (h.locate (find_eq_ok_iff.mp hf) (h.others m hm))

/-- where each has a file, the same paths lead to it -/
theorem find_here (h : SameBut l w v) (hf : w.find p = .ok (l, n)) (hn : v.node? l = some n') :
    v.find p = .ok (l, n') := by
  have hkeeps : Keeps w v := by
    refine ⟨h.cwd, fun {m k} hk => ?_⟩
    by_cases hm : m = l
    · obtain ⟨c, t, x, rfl⟩ := h.left k (hm ▸ hk)
      obtain ⟨c', t', x', rfl⟩ := h.right n' hn
      exact ⟨.file c' t' x', hm ▸ hn, trivial⟩
    · exact ⟨k, (h.others m hm).trans hk, .refl k⟩
  obtain ⟨k, hk, _⟩ := hkeeps.find hf
  obtain rfl := Option.some.inj (hn.symm.trans (node_of_find hk))
  exact hk

/-- a path that does not lead to the file finds the same, or nothing, in both -/
theorem find_toOption (h : SameBut l w v) (hw : ∀ n, w.find p ≠ .ok (l, n))
    (hv : ∀ n, v.find p ≠ .ok (l, n)) : (v.find p).toOption = (w.find p).toOption := by
  cases hf : w.find p with
  | ok x =>
    obtain ⟨m, n⟩ := x
    have hm : m ≠ l := fun he => hw n (he ▸ hf)
    rw [h.find hm hf]
  | error e =>
    cases hf' : v.find p with
    | error e' => rfl
    | ok x =>
      obtain ⟨m, n⟩ := x
      have hm : m ≠ l := fun he => hv n (he ▸ hf')
      have hback := h.symm.find hm hf'
      rw [hf] at hback
      contradiction

end SameBut

end

/-! ## reading -/

/-- two results with the same value, or none -/
theorem cases_of_toOption {ε α : Type} {a b : Except ε α} (h : b.toOption = a.toOption) :
    (∃ e e', a = .error e ∧ b = .error e') ∨ ∃ x, a = .ok x ∧ b = .ok x := by
  cases a with
  | error e =>
    cases b with
    | error e' => exact Or.inl ⟨e, e', rfl, rfl⟩
    | ok y => exact absurd h (by simp [Except.toOption])
  | ok x =>
    cases b with
    | error e' => exact absurd h (by simp [Except.toOption])
    | ok y =>
      obtain rfl := Option.some.inj h
      exact Or.inr ⟨y, rfl, rfl⟩

section
variable {w v : Workspace} {p : Path}

theorem modified_toOption : (w.modified p).toOption = (w.find p).toOption.map fun x => x.2.modified := by
  unfold modified
  cases w.find p with
  | error e => rfl
  | ok x => rfl

theorem readText_toOption : (w.readText p).toOption = (w.find p).toOption.bind fun x => x.2.text? := by
  refine Option.ext fun s => ?_
  have htoOption {α : Type} (r : Except FileError α) (a : α) : r.toOption = some a ↔ r = .ok a := by
    cases r <;> simp [Except.toOption]
  rw [htoOption, readText_eq_ok_iff, Option.bind_eq_some_iff]
  simp only [htoOption, Prod.exists]

end

end Workspace

end IncrementalLint
