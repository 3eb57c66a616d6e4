import IncrementalLint.Proofs.Cache.Saved
import IncrementalLint.Proofs.Files.Top

/-!
# A store and its file

What a store's file holds is all that is loaded from it, and a save that succeeds is what it holds.

* `Store.ofNode`            the store in a node;
* `Store.loadOrEmpty_eq`    loading, seen as looking at a node;
* `Store.save_ok`           the file after a save;
* `Store.save_error`        where a save fails, there is nothing to load.
-/

namespace IncrementalLint.Store

open Workspace

/-! ## loading -/

/-- the store in a node; empty if there is none in it -/
def ofNode (n : Node) : Store := (n.text?.bind (ofText? n.modified)).getD {}

/-- the store that a text holds, whenever it was written -/
def ofText (text : Option String) : Store := (text.bind (ofText? 0)).getD {}

section
variable {w w' : Workspace} {path : Path} {l : Location} {n : Node}

/-- nothing but the reference depends on the time -/
theorem ofText?_time (time time' : Time) (text : String) :
    ofText? time' text = (ofText? time text).map fun s => { s with reference := some time' } := by
  unfold ofText?
  cases Json.read? text with
  | none => rfl
  | some v =>
    simp only [Option.bind_some, ofJson?, Option.bind_eq_bind]
    cases Json.Fields.ofJson? ["entries", "ruleSetId", "toolVersionId"] v with
    | none => rfl
    | some fs =>
      simp only [Option.bind_some]
      cases fs.withDefault? "entries" .empty (Json.asMap? Outcome.ofJson?) with
      | none => rfl
      | some es =>
        simp only [Option.bind_some]
        cases fs.withDefault? "ruleSetId" "" Json.asString? with
        | none => rfl
        | some rules =>
          simp only [Option.bind_some]
          cases fs.withDefault? "toolVersionId" "" Json.asString? <;> rfl

theorem ofText?_empty (time : Time) : ofText? time "" = none := by
  have h : Json.read? "" = none := by decide
  rw [ofText?, h, Option.bind_none]

theorem loadOrEmpty_eq :
    loadOrEmpty w path = match w.find path with
      | .ok (_, n) => ofNode n
      | .error _ => {} := by
  have hread (e : FileError) (h : w.readText path = .error e) : loadOrEmpty w path = {} := by
    unfold loadOrEmpty load
    rw [h]
    cases e <;> rfl
  cases hf : w.find path with
  | error e =>
    cases hr : w.readText path with
    | error e => exact hread e hr
    | ok s =>
      obtain ⟨l, n, hn, _⟩ := readText_eq_ok_iff.mp hr
      exact absurd (hf.symm.trans hn) (by simp)
  | ok x =>
    obtain ⟨l, n⟩ := x
    show loadOrEmpty w path = ofNode n
    cases ht : n.text? with
    | none =>
      cases hr : w.readText path with
      | error e => rw [hread e hr, ofNode, ht]; rfl
      | ok s =>
        obtain ⟨l', n', hn, ht'⟩ := readText_eq_ok_iff.mp hr
        obtain ⟨rfl, rfl⟩ := found_unique hf hn
        exact absurd (ht.symm.trans ht') (by simp)
    | some s =>
      have hr := readText_eq_ok_iff.mpr ⟨l, n, hf, ht⟩
      have hm := modified_eq_ok_iff.mpr ⟨l, n, hf, rfl⟩
      unfold loadOrEmpty load
      rw [hr, hm, ofNode, ht]
      simp only [Option.bind_some, ofText?]
      cases (Json.read? s).bind (ofJson? n.modified) <;> rfl

theorem loadOrEmpty_of_find (h : w.find path = .ok (l, n)) : loadOrEmpty w path = ofNode n := by
  rw [loadOrEmpty_eq, h]

/-- what is loaded is what the text holds, apart from the reference -/
theorem loadOrEmpty_text (w : Workspace) (path : Path) :
    ∃ reference, loadOrEmpty w path =
      { ofText (w.readText path).toOption with reference := reference } := by
  rw [loadOrEmpty_eq]
  cases hr : w.readText path with
  | ok s =>
    obtain ⟨l, n, hf, ht⟩ := readText_eq_ok_iff.mp hr
    rw [hf]
    simp only [ofNode, ofText, ht, Except.toOption, Option.bind_some, ofText?_time 0 n.modified]
    cases ofText? 0 s <;> exact ⟨_, rfl⟩
  | error e =>
    cases hf : w.find path with
    | error e => exact ⟨none, rfl⟩
    | ok x =>
      obtain ⟨l, n⟩ := x
      cases ht : n.text? with
      | none =>
        refine ⟨none, ?_⟩
        simp only [ofNode, ht]
        rfl
      | some s =>
        exact absurd (hr.symm.trans (readText_eq_ok_iff.mpr ⟨l, n, hf, ht⟩)) (by simp)

/-! ## saving -/

theorem ofNode_text (s : Store) (t : Time) (x : Bool) :
    ofNode (.file (Utf8.encode s.text) t x) = { s with reference := some t } := by
  rw [ofNode, Node.text?, Utf8.decode?_encode, Option.bind_some]
  show (ofText? t s.text).getD {} = _
  rw [ofText?_text, Option.getD_some]

theorem reference_ofNode {n : Node} {id : String} {o : Outcome} (h : (ofNode n).get? id = some o) :
    (ofNode n).reference = some n.modified := by
  unfold ofNode at h ⊢
  cases hs : n.text?.bind (ofText? n.modified) with
  | none =>
    rw [hs] at h
    contradiction
  | some s =>
    obtain ⟨text, _, htext⟩ := Option.bind_eq_some_iff.mp hs
    rw [ofText?_time 0] at htext
    obtain ⟨s', _, rfl⟩ := Option.map_eq_some_iff.mp htext
    rfl

theorem ofNode_directory {n : Node} (h : n.isDirectory = true) : ofNode n = {} := by
  cases n with
  | directory t => rfl
  | _ => contradiction

theorem ofNode_of_not_file (hd : n.isDirectory = false) (hf : ∀ c t x, n ≠ .file c t x) :
    ofNode n = {} := by
  rcases n.text?_of_not_file hd hf with htext | htext
  · rw [ofNode, htext]
    rfl
  · rw [ofNode, htext, Option.bind_some, ofText?_empty, Option.getD_none]

theorem save_ok {s : Store} (h : s.save w path = (w', .ok ())) :
    ∃ w₁, Grows w w₁ ∧ w₁.write path (Utf8.encode s.text) = (w', .ok ()) := by
  have hgrows := createParent_grows w path
  unfold save at h
  split at h
  · exact absurd h (by simp)
  next w₁ h₁ =>
    rw [h₁] at hgrows
    refine ⟨w₁, hgrows, ?_⟩
    split at h
    · exact absurd h (by simp)
    next w₂ h₂ =>
      obtain rfl := (Prod.mk.inj h).1
      exact h₂

/-- a file with the store, written just now -/
structure SavedAt (s : Store) (w w' : Workspace) (path : Path) (l : Location) (t : Time) : Prop
    extends Edited w w' (· = l) where
  find : ∃ x, w'.find path = .ok (l, .file (Utf8.encode s.text) t x)
  after : w.clock ≤ t
  before : t < w'.clock
  keeps : Keeps w w'

/-- after a save, a file holds the store; only what is no storage takes a text without keeping it -/
theorem save_ok_cases {s : Store} (h : s.save w path = (w', .ok ())) :
    (∃ l t, SavedAt s w w' path l t) ∨
      (Grows w w' ∧ ∃ l n, w'.find path = .ok (l, n) ∧ n.isDirectory = false ∧ ∀ c t x, n ≠ .file c t x) := by
  obtain ⟨w₁, hg, hw⟩ := save_ok h
  rcases write_ok hw with ⟨l, x, hf, hwrote⟩ | ⟨rfl, l, n, hf, hd, hn⟩
  · refine Or.inl ⟨l, w₁.clock, (hg.toEdited.mono fun _ h => h.elim).trans hwrote.toEdited, ⟨x, hf⟩,
      hg.clock, ?_, hg.keeps.trans hwrote.keeps⟩
    rw [hwrote.tick]
    exact Int.lt_succ _
  · exact Or.inr ⟨hg, l, n, hf, hd, hn⟩

theorem loadOrEmpty_save {s : Store} (h : s.save w path = (w', .ok ())) :
    (∃ t, loadOrEmpty w' path = { s with reference := some t }) ∨ loadOrEmpty w' path = {} := by
  rcases save_ok_cases h with ⟨l, t, hs⟩ | ⟨_, l, n, hf, hd, hn⟩
  · obtain ⟨x, hf⟩ := hs.find
    exact Or.inl ⟨t, by rw [loadOrEmpty_of_find hf, ofNode_text]⟩
  · exact Or.inr (by rw [loadOrEmpty_of_find hf, ofNode_of_not_file hd hn])

theorem readText_of_grows (h : Grows w w') {s : String} (hs : w.readText path = .ok s) :
    w'.readText path = .ok s := by
  obtain ⟨l, n, hf, ht⟩ := readText_eq_ok_iff.mp hs
  obtain ⟨n', hf', ha⟩ := h.keeps.find hf
  have hn : n' = n := by
    rcases h.others (node_of_find hf') with hn | hn | hn
    · exact (Option.some.inj ((node_of_find hf).symm.trans hn)).symm
    · rw [ha.isDirectory] at hn
      cases n <;> simp_all [Node.text?, Node.isDirectory]
    · exact hn.elim
  exact readText_eq_ok_iff.mpr ⟨l, n', hf', hn ▸ ht⟩

theorem save_error_cases {s : Store} {e : CacheError} (h : s.save w path = (w', .error e)) :
    Grows w w' ∧ (Tree w → ∀ s, w'.readText path ≠ .ok s) := by
  have hgrows := createParent_grows w path
  unfold save at h
  split at h
  next w₁ up e₁ h₁ =>
    obtain rfl := (Prod.mk.inj h).1
    rw [h₁] at hgrows
    refine ⟨hgrows, fun ht s hs => ?_⟩
    obtain ⟨l, n, hf, _⟩ := readText_eq_ok_iff.mp hs
    exact ht.createParent_error h₁ hf
  next w₁ h₁ =>
    rw [h₁] at hgrows
    split at h
    next w₂ e₂ h₂ =>
      obtain rfl := (Prod.mk.inj h).1
      obtain ⟨rfl, hr⟩ := write_error h₂
      exact ⟨hgrows, fun _ => hr⟩
    next => exact absurd h (by simp)

theorem save_error_grows {s : Store} {e : CacheError} (h : s.save w path = (w', .error e)) : Grows w w' :=
  (save_error_cases h).1

/-- where a save fails, there is no text to load, neither before nor after -/
theorem save_error {s : Store} {e : CacheError} (ht : Tree w) (h : s.save w path = (w', .error e)) :
    (w'.readText path).toOption = none ∧ (w.readText path).toOption = none := by
  obtain ⟨hgrows, hafter⟩ := save_error_cases h
  constructor
  · cases hr : w'.readText path with
    | ok s => exact absurd hr (hafter ht s)
    | error e => rfl
  · cases hr : w.readText path with
    | ok s => exact absurd (readText_of_grows hgrows hr) (hafter ht s)
    | error e => rfl

theorem tree_save {s : Store} (ht : Tree w) : Tree (s.save w path).1 := by
  have hparent := ht.createParent path
  unfold save
  split
  next w₁ up e h₁ =>
    rw [h₁] at hparent
    exact hparent
  next w₁ h₁ =>
    rw [h₁] at hparent
    have hwrite := hparent.write path (Utf8.encode s.text)
    rw [writeText, show Json.pretty s.toJson = s.text from rfl]
    split
    next w₂ e h₂ =>
      rw [h₂] at hwrite
      exact hwrite
    next w₂ h₂ =>
      rw [h₂] at hwrite
      exact hwrite

theorem save_top {s : Store} {name : String} {t : Time} (hroot : w.node? [] = some (.directory t))
    (hp : (top name).parent? = some ⟨"/"⟩) (hw : w.write (top name) (Utf8.encode s.text) = (w', .ok ())) :
    s.save w (top name) = (w', .ok ()) := by
  rw [save, createParent_top hp hroot]
  dsimp only
  rw [writeText, show Json.pretty s.toJson = s.text from rfl, hw]

/-! ## removing -/

theorem remove_ok {b : Bool} {t : Time} (hroot : w.node? [] = some (.directory t))
    (h : remove w path = (w', .ok b)) :
    (w'.readText path).toOption = none ∨ w' = w := by
  unfold remove at h
  split at h
  next w₁ h₁ =>
    obtain rfl := (Prod.mk.inj h).1
    refine Or.inl ?_
    cases hr : w₁.readText path with
    | ok s =>
      obtain ⟨l, n, hf, _⟩ := readText_eq_ok_iff.mp hr
      exact absurd hf (unlink_gone hroot h₁)
    | error e => rfl
  next w₁ h₁ =>
    obtain rfl := (Prod.mk.inj h).1
    exact Or.inr (unlink_error h₁)
  next => exact absurd h (by simp)

theorem remove_error {e : CacheError} (h : remove w path = (w', .error e)) : w' = w := by
  unfold remove at h
  split at h
  · exact absurd h (by simp)
  · exact absurd h (by simp)
  next w₁ e₁ _ h₁ =>
    obtain rfl := (Prod.mk.inj h).1
    exact unlink_error h₁

end

end IncrementalLint.Store
