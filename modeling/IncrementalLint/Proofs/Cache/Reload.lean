import IncrementalLint.Proofs.Repeat

/-!
# Saving and loading are inverse

What a save leaves at a path, seen from the next load.

* `find_not_link`          a path that is followed to its end does not end at a link;
* `Store.load_of_text`     loading where a text can be read;
* `Store.KeptAt`           a path from which a store comes back whole, to be saved as it was;
* `Store.save_load`        after a save, the store is kept by a file, or lost to the null device,
                           wherever what the path leads to can be read.

The null device takes whatever is saved and reads as the empty text, which is no store: loading from
it is an error, not an empty store.  Of a device that is read without an end nothing is said: it takes
a store as well, but no text ever comes back.
-/

namespace IncrementalLint

open Workspace

/-! ## where a path ends -/

namespace Workspace

variable {w : Workspace} {path : Path} {here l : Location} {n : Node}

theorem Route.not_link {links : Nat} {ps : List String} {place : Place}
    (h : Route w true links here ps place) (ht : Tree w) (hhere : ∃ t, w.node? here = some (.directory t))
    (hn : place.node? = some n) : n.isLink = false := by
  induction h with
  | here hn' =>
    obtain ⟨t, hd⟩ := hhere
    obtain rfl := Option.some.inj (hd.symm.trans (hn'.trans hn))
    rfl
  | idle _ _ ih => exact ih hhere hn
  | up _ ih => exact ih (ht.dropLast hhere) hn
  | free _ _ _ => contradiction
  | into _ hd _ ih => exact ih ⟨_, hd⟩ hn
  | atLink _ _ hf => contradiction
  | @through _ _ _ target _ _ _ _ _ _ ih =>
    refine ih ?_ hn
    by_cases ha : isAbsolute target = true
    · rw [if_pos ha]
      exact ht.root
    · rw [if_neg ha]
      exact hhere
  | last _ _ _ hl =>
    obtain rfl := Option.some.inj hn
    exact hl

/-- a path that is followed to its end does not end at a link -/
theorem find_not_link (ht : Tree w) (h : w.find path = .ok (l, n)) : n.isLink = false :=
  (locate_eq_ok_iff.mp (find_eq_ok_iff.mp h)).2.not_link ht (ht.start path) rfl

end Workspace

/-! ## loading -/

namespace Store

section
variable {w w' : Workspace} {path : Path} {l : Location} {n : Node} {s : Store} {text : String} {T : Time}

theorem load_of_text (hf : w.find path = .ok (l, n)) (ht : n.text? = some text) :
    load w path = match ofText? n.modified text with
      | none => .error (.malformed path)
      | some s => .ok s := by
  rw [load, readText_eq_ok_iff.mpr ⟨l, n, hf, ht⟩]
  dsimp only
  rw [modified_eq_ok_iff.mpr ⟨l, n, hf, rfl⟩]
  rfl

theorem load_of_file {x : Bool} (hf : w.find path = .ok (l, .file (Utf8.encode s.text) T x)) :
    load w path = .ok { s with reference := some T } := by
  rw [load_of_text hf (Utf8.decode?_encode s.text), show (Node.file _ T x).modified = T from rfl, ofText?_text]

/-- the null device reads as the empty text -/
theorem load_of_null (hf : w.find path = .ok (l, .device .null)) :
    load w path = .error (.malformed path) := by
  rw [load_of_text hf (Utf8.decode?_encode ""), ofText?_empty]

/-! ## after a save -/

theorem read_of_file {content : ByteArray} {x : Bool} (hf : w.find path = .ok (l, .file content T x)) :
    w.read path = .ok content := by
  rw [Workspace.read, hf]
  rfl

/-- the reference is not saved -/
theorem save_reference (s : Store) (reference : Option Time) (w : Workspace) (path : Path) :
    { s with reference := reference }.save w path = s.save w path := rfl

/-- the store comes back from a path as it was, with the time at which it was written, and is saved
there again as it was -/
structure KeptAt (s : Store) (w : Workspace) (path : Path) (T : Time) : Prop where
  modified : w.modified path = .ok T
  content : w.read path = .ok (Utf8.encode s.text)
  loaded : load w path = .ok { s with reference := some T }
  anywhere : ∀ v q, { s with reference := some T }.save v q = s.save v q
  again : ∃ w'', { s with reference := some T }.save w path = (w'', .ok ()) ∧ w''.read path = w.read path

theorem keptAt_of_file {x : Bool} (ht : w.Tree)
    (hf : w.find path = .ok (l, .file (Utf8.encode s.text) T x)) : s.KeptAt w path T := by
  have hread := read_of_file hf
  have htext : w.readText path = .ok s.text := readText_eq_ok_iff.mpr ⟨l, _, hf, Utf8.decode?_encode _⟩
  obtain ⟨w'', l', T', x', hsave, hf'⟩ := s.save_over ht htext s.text_ne_empty
  refine ⟨modified_eq_ok_iff.mpr ⟨l, _, hf, rfl⟩, hread, load_of_file hf, s.save_reference (some T), w'', ?_, ?_⟩
  · rw [save_reference]
    exact hsave
  · rw [read_of_file hf', hread]

/-- a store that was saved is kept by a file, or lost to the null device, which keeps nothing and
holds no store, if what the path leads to can be read -/
theorem save_load {content : ByteArray} (ht : w.Tree) (h : s.save w path = (w', .ok ()))
    (hr : w'.read path = .ok content) :
    (w'.isFile path = true ∧ ∃ T, s.KeptAt w' path T) ∨
      ((∃ l, w'.find path = .ok (l, .device .null)) ∧ load w' path = .error (.malformed path)) := by
  have htree : w'.Tree := by
    have hsaved : Tree (s.save w path).1 := tree_save ht
    rw [h] at hsaved
    exact hsaved
  rcases save_ok_cases h with ⟨l, T, hs⟩ | ⟨_, l, n, hf, hd, hno⟩
  · obtain ⟨x, hf⟩ := hs.find
    refine Or.inl ⟨?_, T, keptAt_of_file htree hf⟩
    rw [isFile, hf]
  · refine Or.inr ?_
    cases n with
    | device kind =>
      cases kind with
      | null => exact ⟨⟨l, hf⟩, load_of_null hf⟩
      | zero =>
        rw [Workspace.read, hf] at hr
        contradiction
    | file c t x => exact absurd rfl (hno c t x)
    | directory t => contradiction
    | link target => exact absurd (find_not_link htree hf) (by simp [Node.isLink])

end

/-! ## a store of odd texts, and the null device -/

/-- quotes, backslashes, control characters and letters beyond ASCII, in units, outputs and tags -/
def odd : Store where
  entries := .ofList [("", ⟨-2147483648, "\"\\\n\x00\x1f"⟩), ("ü\\\"", ⟨2147483647, "𝄞 \x7f"⟩)]
  ruleSetId := ""
  toolVersionId := "\u2028\t\x00"

theorem odd_kept : ∃ w T, odd.save oneWorkspace (top "c") = (w, .ok ()) ∧ odd.KeptAt w (top "c") T := by
  obtain ⟨hroot, hc, _⟩ := one_nodes
  have hsingle : Single "c" := by decide
  have hsave := save_top (s := odd) hroot (by decide) (write_top_new hsingle hc)
  have hself := node?_add_self (w := oneWorkspace) (l := ["c"])
    (n := .file (Utf8.encode odd.text) oneWorkspace.clock false) (fun hd => by contradiction)
  have hf := find_top hsingle hself rfl rfl
  rcases save_load one_tree hsave (read_of_file hf) with ⟨_, T, hkept⟩ | ⟨⟨l, hdevice⟩, _⟩
  · exact ⟨_, T, hsave, hkept⟩
  · exact absurd (found_unique hf hdevice).2 (by simp)

/-- what is saved to the null device does not come back -/
theorem one_lost : ¬∀ (s : Store) (w w' : Workspace) (path : Path), w.Tree →
    s.save w path = (w', .ok ()) → ∃ s', load w' path = .ok s' := by
  intro hall
  let w : Workspace := Workspace.put ⟨.empty, 0, []⟩ ["null"] (.device .null)
  have hsingle : Single "null" := by decide
  have hroot : w.node? [] = some (.directory 0) := by
    rw [node?_put, if_neg (by simp), node?_empty, if_pos rfl]
  have hnull : w.node? ["null"] = some (.device .null) := by rw [node?_put, if_pos rfl]
  have htree : w.Tree := (tree_empty 0).put_top fun t => by
    rw [node?_empty, if_neg (by simp)]
    exact fun h => by contradiction
  have hf := find_top hsingle hnull rfl rfl
  have hwrite : w.write (top "null") (Utf8.encode odd.text) = (w, .ok ()) := by
    rw [Workspace.write, locate_top_file hsingle hnull rfl rfl]
  obtain ⟨s', hload⟩ := hall odd w w (top "null") htree (save_top hroot (by decide) hwrite)
  rw [load_of_null hf] at hload
  contradiction

end Store

end IncrementalLint
