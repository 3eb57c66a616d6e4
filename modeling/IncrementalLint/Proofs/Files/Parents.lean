import IncrementalLint.Proofs.Files.Edits

/-!
# A path and the directory above it

In a workspace that is a tree, what lies at a path lies in the directory that its parent names. So
where the parent cannot be made, there is nothing to read.

* `PathText.splitHead_cases`    what a text starts with;
* `PathText.exists_last_step`   pieces up to the one before the last step, and the rest;
* `Path.parent?_cases`          a parent is the path up to a separator, the root, or empty;
* `Tree.find_parent`            the parent of what is found is a directory;
* `createParent_error`          where making room for a file fails, no file is found.
-/

namespace IncrementalLint

/-! ## the text of a parent -/

namespace PathText

theorem join_append {a b : List (List Char)} (ha : a ≠ []) (hb : b ≠ []) :
    join (a ++ b) = join a ++ '/' :: join b := by
  induction a with
  | nil => exact absurd rfl ha
  | cons x a ih =>
    cases a with
    | nil =>
      cases b with
      | nil => exact absurd rfl hb
      | cons y b => simp
    | cons y a => simp [List.cons_append, join_cons_cons, ← ih (List.cons_ne_nil _ _)]

theorem splitAt_append_slash (a b : List Char) :
    Chars.splitAt isSlash (a ++ '/' :: b) = Chars.splitAt isSlash a ++ Chars.splitAt isSlash b :=
  Chars.splitAt_append (p := isSlash) (c := '/') rfl a b

theorem body_of_startsHere {c : Char} {cs : List Char} (h : startsHere (c :: cs) = true) :
    c = '.' ∧ (cs = [] ∨ ∃ r, cs = '/' :: r) := by
  have ht : (c :: cs).takeWhile (· != '/') = ['.'] := by simpa [startsHere] using h
  rw [List.takeWhile_cons] at ht
  split at ht
  next hc =>
    obtain ⟨rfl, ht⟩ := List.cons.inj ht
    refine ⟨rfl, ?_⟩
    cases cs with
    | nil => exact Or.inl rfl
    | cons d ds =>
      rw [List.takeWhile_cons] at ht
      split at ht
      next => simp at ht
      next hd => exact Or.inr ⟨ds, by simp_all⟩
  · contradiction

theorem isAbsolute_iff {cs : List Char} : isAbsolute cs = true ↔ ∃ r, cs = '/' :: r := by
  unfold isAbsolute
  split <;> simp_all

/-- what a text starts with: no head, the root, or a `.` of its own -/
theorem splitHead_cases (cs : List Char) :
    (isAbsolute cs = false ∧ startsHere cs = false ∧ splitHead cs = ([], cs)) ∨
      (∃ r, cs = '/' :: r ∧ splitHead cs = (['/'], r)) ∨
      (∃ r, cs = '.' :: r ∧ splitHead cs = (['.'], r) ∧ (r = [] ∨ ∃ s, r = '/' :: s)) := by
  by_cases ha : isAbsolute cs = true
  · obtain ⟨r, rfl⟩ := isAbsolute_iff.mp ha
    exact Or.inr (Or.inl ⟨r, rfl, rfl⟩)
  · rw [Bool.not_eq_true] at ha
    by_cases hh : startsHere cs = true
    · cases cs with
      | nil => contradiction
      | cons c r =>
        obtain ⟨rfl, hr⟩ := body_of_startsHere hh
        exact Or.inr (Or.inr ⟨r, rfl, by rw [splitHead, hh, Bool.or_true]; rfl, hr⟩)
    · rw [Bool.not_eq_true] at hh
      exact Or.inl ⟨ha, hh, by rw [splitHead, ha, hh]; rfl⟩

/-- pieces are those up to the last step, and idle ones -/
theorem dropIdleEnd_append (ps : List (List Char)) :
    ∃ idle, ps = dropIdleEnd ps ++ idle ∧ ∀ x ∈ idle, isIdle x = true := by
  refine ⟨(ps.reverse.takeWhile isIdle).reverse, ?_, fun x hx => ?_⟩
  · rw [dropIdleEnd, ← List.reverse_append, List.takeWhile_append_dropWhile, List.reverse_reverse]
  · exact List.all_eq_true.mp List.all_takeWhile x (List.mem_reverse.mp hx)

/-- pieces with a step among them: those up to the one before the last step, and the rest -/
theorem exists_last_step {ps : List (List Char)} (h : dropIdleEnd ps ≠ []) : ∃ rest last,
    ps = dropIdleEnd (dropIdleEnd ps).dropLast ++ rest ∧ (rest.filter fun x => !isIdle x) = [last] := by
  obtain ⟨idle, hps, hidle⟩ := dropIdleEnd_append ps
  obtain ⟨more, hfront, hmore⟩ := dropIdleEnd_append (dropIdleEnd ps).dropLast
  have hlast := List.dropLast_concat_getLast h
  refine ⟨more ++ [(dropIdleEnd ps).getLast h] ++ idle, (dropIdleEnd ps).getLast h, ?_, ?_⟩
  · rw [← List.append_assoc, ← List.append_assoc, ← hfront, hlast, ← hps]
  · have hnone (qs : List (List Char)) (hqs : ∀ x ∈ qs, isIdle x = true) :
        (qs.filter fun x => !isIdle x) = [] :=
      List.filter_eq_nil_iff.mpr fun x hx => by simp [hqs x hx]
    rw [List.filter_append, List.filter_append, hnone more hmore, hnone idle hidle,
      List.filter_cons_of_pos (by rw [getLast_dropIdleEnd h]; rfl)]
    rfl

end PathText

open PathText

/-- a parent is empty, the root, or the path up to a separator -/
theorem Path.parent?_cases {p up : Path} (h : p.parent? = some up) :
    up.text = "" ∨ up.text = "/" ∨ ∃ rest, p.text.toList = up.text.toList ++ '/' :: rest := by
  unfold parent? at h
  have hcs := splitHead_append p.text.toList
  have hhead := splitHead_cases p.text.toList
  generalize splitHead p.text.toList = s at h hcs hhead
  obtain ⟨head, body⟩ := s
  simp only at h hcs hhead
  split at h
  next =>
    split at h
    · exact Or.inl (by simp [← Option.some.inj h])
    · contradiction
  next hne =>
    obtain rfl := (Option.some.inj h).symm
    obtain ⟨rest, last, hps, hrest⟩ := exists_last_step hne
    have hbody := join_splitAt body
    rw [hps] at hbody
    cases hq : dropIdleEnd (dropIdleEnd (Chars.splitAt isSlash body)).dropLast with
    | nil =>
      rcases hhead with ⟨_, _, hs⟩ | ⟨r, _, hs⟩ | ⟨r, htext, hs, hr⟩
      · exact Or.inl (by rw [(Prod.mk.inj hs).1]; rfl)
      · exact Or.inr (Or.inl (by rw [(Prod.mk.inj hs).1]; rfl))
      · obtain ⟨rfl, rfl⟩ := Prod.mk.inj hs
        rcases hr with rfl | ⟨r, rfl⟩
        · exact absurd (by rfl) hne
        · exact Or.inr (Or.inr ⟨r, htext⟩)
    | cons x q =>
      have hmore : rest ≠ [] := by
        rintro rfl
        contradiction
      rw [hq, join_append (List.cons_ne_nil x q) hmore] at hbody
      refine Or.inr (Or.inr ⟨PathText.join rest, ?_⟩)
      rw [String.toList_ofList, ← hcs, List.append_assoc, hbody]

namespace Workspace

/-! ## trees -/

/-- every node lies in a directory, and so does the one to start from -/
structure Tree (w : Workspace) : Prop where
  root : ∃ t, w.node? [] = some (.directory t)
  cwd : ∃ t, w.node? w.cwd = some (.directory t)
  parent : ∀ {l : Location} {name : String} {n : Node}, w.node? (l ++ [name]) = some n →
    ∃ t, w.node? l = some (.directory t)

section
variable {w w' : Workspace} {p up : Path}

theorem Tree.dropLast (ht : Tree w) {l : Location} (h : ∃ t, w.node? l = some (.directory t)) :
    ∃ t, w.node? l.dropLast = some (.directory t) := by
  by_cases hl : l = []
  · rw [hl]
    exact ht.root
  · obtain ⟨t, h⟩ := h
    rw [← List.dropLast_concat_getLast hl] at h
    exact ht.parent h

theorem Tree.start (ht : Tree w) (p : Path) : ∃ t, w.node? (w.start p) = some (.directory t) := by
  unfold Workspace.start
  split
  · exact ht.root
  · exact ht.cwd

/-- on the way to a node there are directories only -/
theorem Route.directory {links : Nat} {here : Location} {a b : List String} {place : Place}
    (ht : Tree w) (hh : ∃ t, w.node? here = some (.directory t))
    (h : Route w true links here (a ++ b) place) (hb : b ≠ []) {n : Node} (hn : place.node? = some n) :
    ∃ l t, Route w true links here a (.found l (.directory t)) := by
  generalize hps : a ++ b = ps at h
  induction h generalizing a with
  | here _ => exact absurd (List.append_eq_nil_iff.mp hps).2 hb
  | @idle _ here _ _ _ hp _ ih =>
    cases a with
    | nil => exact ⟨here, hh.choose, .here hh.choose_spec⟩
    | cons x a =>
      obtain ⟨rfl, hrest⟩ := List.cons.inj hps
      obtain ⟨l, t, hr⟩ := ih hh hn hrest
      exact ⟨l, t, .idle hp hr⟩
  | @up _ here _ _ _ ih =>
    cases a with
    | nil => exact ⟨here, hh.choose, .here hh.choose_spec⟩
    | cons x a =>
      obtain ⟨rfl, hrest⟩ := List.cons.inj hps
      obtain ⟨l, t, hr⟩ := ih (ht.dropLast hh) hn hrest
      exact ⟨l, t, .up hr⟩
  | free _ _ _ => exact absurd hn (by simp [Place.node?])
  | @into _ here _ _ _ _ hp hd _ ih =>
    cases a with
    | nil => exact ⟨here, hh.choose, .here hh.choose_spec⟩
    | cons x a =>
      obtain ⟨rfl, hrest⟩ := List.cons.inj hps
      obtain ⟨l, t, hr⟩ := ih ⟨_, hd⟩ hn hrest
      exact ⟨l, t, .into hp hd hr⟩
  | atLink _ _ hf => exact absurd hf (by simp)
  | @through _ here _ target rest _ hp hl _ _ ih =>
    cases a with
    | nil => exact ⟨here, hh.choose, .here hh.choose_spec⟩
    | cons x a =>
      obtain ⟨rfl, rfl⟩ := List.cons.inj hps
      have hstart : ∃ t, w.node? (if isAbsolute target then [] else here) = some (.directory t) := by
        split
        · exact ht.root
        · exact hh
      obtain ⟨l, t, hr⟩ := ih hstart hn (List.append_assoc _ _ _)
      exact ⟨l, t, .through hp hl (Or.inr rfl) hr⟩
  | @last _ here _ _ _ _ _ _ =>
    cases a with
    | nil => exact ⟨here, hh.choose, .here hh.choose_spec⟩
    | cons x a => exact absurd (List.append_eq_nil_iff.mp (List.cons.inj hps).2).2 hb

theorem isDirectory_eq_true_iff : w.isDirectory p = true ↔ ∃ l t, w.find p = .ok (l, .directory t) := by
  unfold isDirectory
  split
  next l n h => cases n <;> simp_all [Node.isDirectory]
  next h => simp [h]

theorem find_root (w : Workspace) {t : Time} (h : w.node? [] = some (.directory t)) :
    w.find ⟨"/"⟩ = .ok ([], .directory t) := by
  rw [find_eq_ok_iff, locate_eq_ok_iff]
  have hpieces : pieces "/" = ["", ""] := by decide
  refine ⟨⟨by decide, by decide, by decide⟩, ?_⟩
  show Route w true maxLinks [] (pieces "/") (.found [] (.directory t))
  rw [hpieces]
  exact .idle (Or.inl rfl) (.idle (Or.inl rfl) (.here h))

theorem Tree.find_parent (ht : Tree w) {x : Location × Node} (h : w.find p = .ok x)
    (hup : p.parent? = some up) (hne : up.text ≠ "") : w.isDirectory up = true := by
  rw [isDirectory_eq_true_iff]
  rcases Path.parent?_cases hup with he | hroot | ⟨rest, hrest⟩
  · exact absurd he hne
  · obtain ⟨text⟩ := up
    obtain rfl : text = "/" := hroot
    obtain ⟨t, hr⟩ := ht.root
    exact ⟨[], t, find_root w hr⟩
  · obtain ⟨hu, hr⟩ := locate_eq_ok_iff.mp (find_eq_ok_iff.mp h)
    have hpieces : pieces p.text =
        pieces up.text ++ (Chars.splitAt PathText.isSlash rest).map String.ofList := by
      rw [pieces, pieces, hrest, PathText.splitAt_append_slash, List.map_append]
    have hstart : w.start p = w.start up := by
      have hcons : up.text.toList ≠ [] := fun he => hne (String.toList_eq_nil_iff.mp he)
      unfold Workspace.start Path.isAbsolute
      rw [hrest]
      cases htext : up.text.toList with
      | nil => exact absurd htext hcons
      | cons c cs => by_cases hc : c = '/' <;> simp [PathText.isAbsolute, hc]
    rw [hpieces, hstart] at hr
    obtain ⟨l, t, hroute⟩ := hr.directory ht (ht.start up) (by simp [Chars.splitAt_ne_nil]) rfl
    refine ⟨l, t, find_eq_ok_iff.mpr (locate_eq_ok_iff.mpr ⟨⟨?_, hne, ?_⟩, hroute⟩)⟩
    · have hnul := hu.1
      rw [hrest] at hnul
      simp_all
    · have htext : p.text = up.text ++ String.ofList ('/' :: rest) := by
        rw [← String.ofList_toList (s := p.text), hrest, String.ofList_append, String.ofList_toList]
      have hsize := hu.2.2
      rw [htext, String.utf8ByteSize_append] at hsize
      omega

/-! ## directories that cannot be made -/

/-- what is found when links are followed is something without that, too -/
theorem Route.unfollowed {links : Nat} {here : Location} {ps : List String} {place : Place}
    (h : Route w true links here ps place) : ∃ place', Route w false links here ps place' := by
  induction h with
  | here hn => exact ⟨_, .here hn⟩
  | idle hp _ ih => exact ⟨_, .idle hp ih.choose_spec⟩
  | up _ ih => exact ⟨_, .up ih.choose_spec⟩
  | free hp hn hrest => exact ⟨_, .free hp hn hrest⟩
  | into hp hn _ ih => exact ⟨_, .into hp hn ih.choose_spec⟩
  | atLink hp hn _ => exact ⟨_, .atLink hp hn rfl⟩
  | @through _ _ _ _ rest _ hp hn _ _ ih =>
    cases rest with
    | nil => exact ⟨_, .atLink hp hn rfl⟩
    | cons x rest => exact ⟨_, .through hp hn (Or.inl (List.cons_ne_nil _ _)) ih.choose_spec⟩
  | last hp hn hd hl => exact ⟨_, .last hp hn hd hl⟩

theorem isDirectory_of_locate_error {e : FileError} (h : w.locate p false = .error e) :
    w.isDirectory p = false := by
  cases hd : w.isDirectory p with
  | false => rfl
  | true =>
    obtain ⟨l, t, hf⟩ := isDirectory_eq_true_iff.mp hd
    obtain ⟨hu, hr⟩ := locate_eq_ok_iff.mp (find_eq_ok_iff.mp hf)
    obtain ⟨place, hr'⟩ := hr.unfollowed
    rw [locate_eq_ok_iff.mpr ⟨hu, hr'⟩] at h
    contradiction

theorem isDirectory_of_createDirectory {e : FileError} (h : w.createDirectory p = (w', .error e))
    (he : e ≠ .alreadyExists) : w.isDirectory p = false := by
  unfold createDirectory at h
  split at h
  next e' hl => exact isDirectory_of_locate_error hl
  next => exact absurd (Except.error.inj (Prod.mk.inj h).2).symm he
  next => exact absurd h (by simp)

theorem Tree.not_directory (ht : Tree w) (hup : p.parent? = some up) (hne : up.text ≠ "")
    (h : w.isDirectory up = false) {x : Location × Node} : w.find p ≠ .ok x := by
  intro hf
  rw [ht.find_parent hf hup hne] at h
  contradiction

/-! ### trees stay trees -/

theorem Route.free_parent {follow : Bool} {links : Nat} {here : Location} {ps : List String}
    {place : Place} (ht : Tree w) (hh : ∃ t, w.node? here = some (.directory t))
    (h : Route w follow links here ps place) (hn : place.node? = none) :
    ∃ t, w.node? place.location.dropLast = some (.directory t) := by
  induction h with
  | here _ => contradiction
  | idle _ _ ih => exact ih hh hn
  | up _ ih => exact ih (ht.dropLast hh) hn
  | free _ _ _ =>
    simp only [Place.location, List.dropLast_concat]
    exact hh
  | into _ hd _ ih => exact ih ⟨_, hd⟩ hn
  | atLink _ _ _ => contradiction
  | @through _ here _ target _ _ _ _ _ _ ih =>
    refine ih ?_ hn
    split
    · exact ht.root
    · exact hh
  | last _ _ _ _ => contradiction

theorem Keeps.directory (hk : Keeps w w') {l : Location} (h : ∃ t, w.node? l = some (.directory t)) :
    ∃ t, w'.node? l = some (.directory t) := by
  obtain ⟨t, h⟩ := h
  obtain ⟨n', hn', ha⟩ := hk.nodes h
  obtain ⟨t', rfl⟩ := ha.directory
  exact ⟨t', hn'⟩

theorem Tree.add (ht : Tree w) {l : Location} {n : Node} (hl : w.node? l = none)
    (hd : ∃ t, w.node? l.dropLast = some (.directory t)) : Tree (w.add l n) := by
  have hk := keeps_add (n := n) hl
  have hroot := not_root_of_none hl
  refine ⟨hk.directory ht.root, ?_, fun {m name k} hm => ?_⟩
  · rw [hk.cwd]
    exact hk.directory ht.cwd
  · refine hk.directory ?_
    by_cases he : m ++ [name] = l
    · rw [← he, List.dropLast_concat] at hd
      exact hd
    · have hput : (w.put l n).node? (m ++ [name]) = w.node? (m ++ [name]) := by
        rw [node?_put, if_neg he]
      have hm' : ((w.put l n).touchParent l).node? (m ++ [name]) = some k := hm
      rcases node?_touchParent (w.put l n) l (m ++ [name]) with h | ⟨t, h, _⟩
      · exact ht.parent (hput.symm.trans (h.symm.trans hm'))
      · exact ht.parent (hput.symm.trans h)

theorem Tree.createDirectory (ht : Tree w) (p : Path) : Tree (w.createDirectory p).1 := by
  unfold Workspace.createDirectory
  split
  · exact ht
  · exact ht
  next l b hloc =>
    obtain ⟨_, hr⟩ := locate_eq_ok_iff.mp hloc
    exact ht.add hr.free_node (hr.free_parent ht (ht.start p) rfl)

theorem Tree.createDirectoriesFrom (ht : Tree w) (p : Path) (fuel : Nat) :
    Tree (w.createDirectoriesFrom p fuel).1 := by
  induction fuel generalizing w p with
  | zero => exact ht
  | succ fuel ih =>
    rw [Workspace.createDirectoriesFrom]
    have hone := ht.createDirectory p
    split
    · exact ht
    · split
      next w₁ h₁ =>
        rw [h₁] at hone
        exact hone
      next w₁ e h₁ =>
        split
        · split
          · exact ht
          next up _ =>
            have hup := ih ht up
            split
            next w₂ e₂ h₂ =>
              rw [h₂] at hup
              exact hup
            next w₂ h₂ =>
              rw [h₂] at hup
              have htwo := hup.createDirectory p
              split
              next w₃ h₃ =>
                rw [h₃] at htwo
                exact htwo
              next w₃ e₃ h₃ =>
                rw [h₃] at htwo
                split <;> exact htwo
        · split <;> exact ht

theorem Tree.createParent (ht : Tree w) (p : Path) : Tree (w.createParent p).1 := by
  unfold Workspace.createParent
  split
  · exact ht
  next up _ =>
    split
    · exact ht
    · have hup := ht.createDirectoriesFrom up (depth up)
      rw [createDirectories]
      split
      next w₁ h₁ =>
        rw [h₁] at hup
        exact hup
      next w₁ e h₁ =>
        rw [h₁] at hup
        exact hup

theorem Tree.overwrite (ht : Tree w) {l : Location} {n n' : Node} (hl : w.node? l = some n')
    (ha : n'.Alike n) : Tree (w.overwrite l n) := by
  have hk := keeps_overwrite (n := n) hl ha
  refine ⟨hk.directory ht.root, ?_, fun {m name k} hm => hk.directory ?_⟩
  · rw [hk.cwd]
    exact hk.directory ht.cwd
  · have hm' : (w.put l n).node? (m ++ [name]) = some k := hm
    rw [node?_put] at hm'
    split at hm'
    next he => exact ht.parent (he ▸ hl)
    next => exact ht.parent hm'

theorem Tree.write (ht : Tree w) (p : Path) (content : ByteArray) : Tree (w.write p content).1 := by
  unfold Workspace.write
  split
  · exact ht
  next l b hloc =>
    split
    · exact ht
    · obtain ⟨_, hr⟩ := locate_eq_ok_iff.mp hloc
      exact ht.add hr.free_node (hr.free_parent ht (ht.start p) rfl)
  next l c t x hloc =>
    obtain ⟨_, hr⟩ := locate_eq_ok_iff.mp hloc
    exact ht.overwrite hr.found_node trivial
  · exact ht
  · exact ht

theorem createDirectoriesFrom_empty {fuel : Nat} (hp : p.text = "") (hfuel : 0 < fuel) :
    w.createDirectoriesFrom p fuel = (w, .ok ()) := by
  obtain ⟨text⟩ := p
  obtain rfl : text = "" := hp
  obtain ⟨fuel, rfl⟩ := Nat.exists_eq_add_of_lt hfuel
  rw [Nat.zero_add, Workspace.createDirectoriesFrom]
  rfl

theorem Tree.createDirectoriesFrom_error (ht : Tree w) {fuel : Nat} {e : FileError}
    (hfuel : p.text.toList.length < fuel) (h : w.createDirectoriesFrom p fuel = (w', .error e)) :
    w'.isDirectory p = false := by
  induction fuel generalizing w w' p e with
  | zero => exact absurd hfuel (by omega)
  | succ fuel ih =>
    rw [Workspace.createDirectoriesFrom] at h
    split at h
    · exact absurd h (by simp)
    · split at h
      · exact absurd h (by simp)
      next w₁ e₁ h₁ =>
        split at h
        next he₁ =>
          split at h
          next =>
            rw [← (Prod.mk.inj h).1]
            exact isDirectory_of_createDirectory h₁ (by simp [he₁])
          next up hup =>
            split at h
            next w₂ e₂ h₂ =>
              obtain rfl := (Prod.mk.inj h).1
              have hlen := Path.length_parent? hup
              have hne : up.text ≠ "" := by
                intro hempty
                have hpos : 0 < fuel := by omega
                rw [createDirectoriesFrom_empty hempty hpos] at h₂
                exact absurd h₂ (by simp)
              have hupdir := ih ht (by omega) h₂
              have htree := ht.createDirectoriesFrom up fuel
              rw [h₂] at htree
              cases hd : w₂.isDirectory p with
              | false => rfl
              | true =>
                obtain ⟨l, t, hf⟩ := isDirectory_eq_true_iff.mp hd
                exact absurd hf (htree.not_directory hup hne hupdir)
            next w₂ h₂ =>
              split at h
              · exact absurd h (by simp)
              next w₃ e₃ h₃ =>
                split at h
                · exact absurd h (by simp)
                next hnd =>
                  rw [← (Prod.mk.inj h).1]
                  simpa using hnd
        next =>
          split at h
          · exact absurd h (by simp)
          next hnd =>
            rw [← (Prod.mk.inj h).1]
            simpa using hnd

/-- where making room for a file fails, no file is found -/
theorem Tree.createParent_error (ht : Tree w) {e : Path × FileError}
    (h : w.createParent p = (w', .error e)) {x : Location × Node} : w'.find p ≠ .ok x := by
  unfold Workspace.createParent at h
  split at h
  · exact absurd h (by simp)
  next up hup =>
    split at h
    · exact absurd h (by simp)
    next hne =>
      have htree := ht.createDirectoriesFrom up (depth up)
      split at h
      · exact absurd h (by simp)
      next w₁ e₁ h₁ =>
        obtain rfl := (Prod.mk.inj h).1
        rw [createDirectories] at h₁
        rw [h₁] at htree
        have hlen : up.text.toList.length < depth up := by
          rw [depth, String.length_toList]
          exact Nat.lt_succ_self _
        refine htree.not_directory hup ?_ (ht.createDirectoriesFrom_error hlen h₁)
        simpa [Path.isEmpty] using hne

end

end Workspace

end IncrementalLint
