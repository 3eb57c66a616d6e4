import IncrementalLint.Proofs.Files.Parents

/-!
# Files right below the root

The shortest absolute paths, where nothing on the way can be missing.

* `find_top`          what such a path leads to;
* `write_top`         what writing there does;
* `createParent_top`  there is always room for such a file.
-/

namespace IncrementalLint.Workspace

/-- one piece of a path -/
structure Single (name : String) : Prop where
  ordinary : Ordinary name
  noSlash : '/' ∉ name.toList
  noNul : Char.ofNat 0 ∉ name.toList

instance (name : String) : Decidable (Ordinary name) := inferInstanceAs (Decidable (_ ∧ _))

instance (name : String) : Decidable (Single name) :=
  decidable_of_iff (Ordinary name ∧ '/' ∉ name.toList ∧ Char.ofNat 0 ∉ name.toList)
    ⟨fun h => ⟨h.1, h.2.1, h.2.2⟩, fun h => ⟨h.1, h.2, h.3⟩⟩

/-- the path of a file right below the root -/
def top (name : String) : Path := ⟨"/" ++ name⟩

section
variable {w : Workspace} {name : String} {n : Node} {t : Time}

theorem splitAt_of_noSlash {cs : List Char} (h : '/' ∉ cs) : Chars.splitAt PathText.isSlash cs = [cs] := by
  refine Chars.splitAt_of_none fun c hc => ?_
  rw [PathText.isSlash, beq_eq_false_iff_ne]
  rintro rfl
  exact h hc

theorem toList_top (name : String) : (top name).text.toList = '/' :: name.toList := by
  rw [top, String.toList_append]
  rfl

theorem pieces_top (h : Single name) : pieces (top name).text = ["", name] := by
  rw [pieces, toList_top, Chars.splitAt, if_pos (by rfl), splitAt_of_noSlash h.noSlash]
  simp

theorem usable_top (h : Single name) : Usable (top name) := by
  refine ⟨?_, ?_, ?_⟩
  · rw [toList_top, List.contains_eq_mem, decide_eq_false_iff_not, List.mem_cons, not_or]
    exact ⟨by decide, h.noNul⟩
  · intro he
    have := congrArg String.toList he
    rw [toList_top] at this
    exact absurd this (by simp)
  · have hname := h.ordinary.2.2.2
    show ("/" ++ name).utf8ByteSize < maxPath
    rw [String.utf8ByteSize_append, show "/".utf8ByteSize = 1 from rfl]
    unfold maxName at hname
    unfold maxPath
    omega

theorem start_top : w.start (top name) = [] := by
  rw [start, Path.isAbsolute, toList_top]
  rfl

theorem locate_top_file {follow : Bool} (h : Single name) (hn : w.node? [name] = some n)
    (hd : n.isDirectory = false) (hl : n.isLink = false) :
    w.locate (top name) follow = .ok (.found [name] n) := by
  rw [locate_eq_ok_iff, pieces_top h, start_top]
  exact ⟨usable_top h, .idle (Or.inl rfl) (.last h.ordinary hn hd hl)⟩

theorem locate_top_free {follow : Bool} (h : Single name) (hn : w.node? [name] = none) :
    w.locate (top name) follow = .ok (.free [name] false) := by
  rw [locate_eq_ok_iff, pieces_top h, start_top]
  exact ⟨usable_top h, .idle (Or.inl rfl) (.free h.ordinary hn rfl)⟩

theorem find_top (h : Single name) (hn : w.node? [name] = some n) (hd : n.isDirectory = false)
    (hl : n.isLink = false) : w.find (top name) = .ok ([name], n) :=
  find_eq_ok_iff.mpr (locate_top_file h hn hd hl)

theorem find_top_directory (h : Single name) (hn : w.node? [name] = some (.directory t)) :
    w.find (top name) = .ok ([name], .directory t) := by
  rw [find_eq_ok_iff, locate_eq_ok_iff, pieces_top h, start_top]
  exact ⟨usable_top h, .idle (Or.inl rfl) (.into h.ordinary hn (.here hn))⟩

theorem find_top_none (h : Single name) (hn : w.node? [name] = none) :
    w.find (top name) = .error .notFound := by
  rw [find, locate_top_free h hn]
  rfl

theorem leadsTo_top_file {l : Location} (h : Single name) (hn : w.node? [name] = some n)
    (hd : n.isDirectory = false) (hl : n.isLink = false) (hlead : LeadsTo w (top name) l) : l = [name] :=
  (leadsTo_of_find (find_top h hn hd hl)).unique hlead

theorem leadsTo_top_free {l : Location} (h : Single name) (hn : w.node? [name] = none)
    (hlead : LeadsTo w (top name) l) : l = [name] :=
  (leadsTo_of_locate (locate_top_free h hn)).unique hlead

theorem readText_top_none (h : Single name) (hn : w.node? [name] = none) :
    w.readText (top name) = .error .notFound := by
  rw [readText, read, find_top_none h hn]
  rfl

/-- a new file is added, an old one is written over -/
theorem write_top_new {content : ByteArray} (h : Single name) (hn : w.node? [name] = none) :
    w.write (top name) content = (w.add [name] (.file content w.clock false), .ok ()) := by
  rw [write, locate_top_free h hn]
  rfl

theorem write_top {content old : ByteArray} {x : Bool} (h : Single name)
    (hn : w.node? [name] = some (.file old t x)) :
    w.write (top name) content = (w.overwrite [name] (.file content w.clock x), .ok ()) := by
  rw [write, locate_top_file h hn rfl rfl]

theorem createParent_top {p : Path} (hp : p.parent? = some ⟨"/"⟩) (hroot : w.node? [] = some (.directory t)) :
    w.createParent p = (w, .ok ()) := by
  have hloc : w.locate ⟨"/"⟩ false = .ok (.found [] (.directory t)) := by
    rw [locate_eq_ok_iff, show pieces "/" = ["", ""] by decide]
    refine ⟨⟨by decide, by decide, by decide⟩, ?_⟩
    exact .idle (Or.inl rfl) (.idle (Or.inl rfl) (.here hroot))
  have hone : w.createDirectory ⟨"/"⟩ = (w, .error .alreadyExists) := by rw [createDirectory, hloc]
  have hdir : w.isDirectory ⟨"/"⟩ = true := isDirectory_eq_true_iff.mpr ⟨[], t, find_root w hroot⟩
  have hall : w.createDirectories ⟨"/"⟩ = (w, .ok ()) := by
    rw [createDirectories, depth, createDirectoriesFrom, if_neg (by decide), hone]
    simp [hdir]
  rw [createParent, hp]
  simp only [hall]
  rfl

/-! ## trees of such files -/

theorem node?_empty (clock : Time) (cwd l : Location) :
    (Workspace.mk .empty clock cwd).node? l = if l = [] then some (.directory 0) else none := rfl

theorem tree_empty (clock : Time) : Tree ⟨.empty, clock, []⟩ := by
  refine ⟨⟨0, rfl⟩, ⟨0, rfl⟩, fun {l name n} hn => ?_⟩
  have hnone : (Workspace.mk .empty clock []).node? (l ++ [name]) = none := by
    rw [node?_empty, if_neg (by simp)]
  exact absurd (hnone.symm.trans hn) (by simp)

theorem Tree.put_top (ht : Tree w) (hn : ∀ t, w.node? [name] ≠ some (.directory t)) :
    Tree (w.put [name] n) := by
  have hdir {l : Location} (h : ∃ t, w.node? l = some (.directory t)) :
      ∃ t, (w.put [name] n).node? l = some (.directory t) := by
    obtain ⟨t, h⟩ := h
    refine ⟨t, ?_⟩
    rw [node?_put, if_neg]
    · exact h
    · exact fun he => hn t (he ▸ h)
  refine ⟨hdir ht.root, hdir ht.cwd, fun {l last k} hk => hdir ?_⟩
  rw [node?_put] at hk
  split at hk
  next he =>
    have hl : l = [] := by
      have := congrArg List.length he
      simpa using this
    rw [hl]
    exact ht.root
  next => exact ht.parent hk

end

end IncrementalLint.Workspace
