import IncrementalLint.Proofs.Files.Spelling
import IncrementalLint.Proofs.Files.Top

/-!
# Paths behind a directory

What lies behind a directory on a path lies there for everyone who is in that directory, as long as
the links that were followed on the way there leave enough for the rest.

* `Path.parent?_of_step`  the parent of an absolute path that ends in a step;
* `Route.append`          a walk through a directory goes on from there with the links that are left;
* `Route.fewer_links`     with fewer links, a walk ends where it ended, or they run out;
* `SameFile`              a name in a directory and a path denote one file;
* `sameFile_join`         so they do where the path puts the name behind a path of the directory;
* `locate_in_parent`      a path has its place right in the directory that its parent names.
-/

namespace IncrementalLint

/-! ## pieces put together and taken apart -/

namespace PathText

theorem notMem_of_mem_splitAt {cs x : List Char} (h : x ∈ Chars.splitAt isSlash cs) : '/' ∉ x := by
  induction cs generalizing x with
  | nil =>
    obtain rfl := List.mem_singleton.mp h
    exact List.not_mem_nil
  | cons c cs ih =>
    rw [Chars.splitAt] at h
    split at h
    · rcases List.mem_cons.mp h with rfl | h
      · exact List.not_mem_nil
      · exact ih h
    next hc =>
      have hne : '/' ≠ c := by
        rintro rfl
        exact hc rfl
      cases hs : Chars.splitAt isSlash cs with
      | nil => exact absurd hs (Chars.splitAt_ne_nil _ _)
      | cons y ys =>
        rw [hs] at h ih
        rcases List.mem_cons.mp h with rfl | h
        · exact fun hm => (List.mem_cons.mp hm).elim hne (ih List.mem_cons_self)
        · exact ih (List.mem_cons_of_mem _ h)

theorem splitAt_join {ps : List (List Char)} (hps : ps ≠ []) (h : ∀ x ∈ ps, '/' ∉ x) :
    Chars.splitAt isSlash (join ps) = ps := by
  induction ps with
  | nil => exact absurd rfl hps
  | cons x ps ih =>
    have hx := Workspace.splitAt_of_noSlash (h x List.mem_cons_self)
    cases ps with
    | nil => rw [join_singleton, hx]
    | cons y ps =>
      rw [join_cons_cons, splitAt_append_slash, hx, ih (List.cons_ne_nil _ _) fun z hz =>
        h z (List.mem_cons_of_mem _ hz)]
      rfl

theorem steps_join {ps : List (List Char)} (h : ∀ x ∈ ps, '/' ∉ x) :
    steps (join ps) = ps.filter fun x => !isIdle x := by
  cases ps with
  | nil => rfl
  | cons x ps => rw [steps, splitAt_join (List.cons_ne_nil _ _) h]

theorem filter_dropIdleEnd (ps : List (List Char)) :
    ((dropIdleEnd ps).filter fun x => !isIdle x) = ps.filter fun x => !isIdle x := by
  obtain ⟨idle, hps, hidle⟩ := dropIdleEnd_append ps
  have hnone : (idle.filter fun x => !isIdle x) = [] :=
    List.filter_eq_nil_iff.mpr fun x hx => by simp [hidle x hx]
  conv_rhs => rw [hps, List.filter_append, hnone, List.append_nil]

theorem dropIdleEnd_concat (ps : List (List Char)) {x : List Char} (h : isIdle x = false) :
    dropIdleEnd (ps ++ [x]) = ps ++ [x] := by
  rw [dropIdleEnd, List.reverse_concat, List.dropWhile_cons_of_neg (by simp [h]), List.reverse_cons,
    List.reverse_reverse]

theorem getLast?_dropIdleEnd (ps : List (List Char)) :
    ∀ x ∈ (dropIdleEnd ps).getLast?, isIdle x = false := by
  intro x hx
  obtain ⟨hne, rfl⟩ := List.mem_getLast?_eq_getLast hx
  exact getLast_dropIdleEnd hne

end PathText

open PathText

/-- the parent of an absolute path that ends in a step: the root, or a path that ends in a step -/
theorem Path.parent?_of_step {p : Path} (habs : p.isAbsolute = true) (hend : p.EndsInStep) :
    ∃ up front name, p.parent? = some up ∧ Chars.splitAt isSlash p.text.toList = front ++ [name] ∧
      isIdle name = false ∧ up.isAbsolute = true ∧
      steps up.text.toList = (front.filter fun x => !isIdle x) ∧ (up.text = "/" ∨ up.EndsInStep) := by
  obtain ⟨body, hbody⟩ := isAbsolute_iff.mp habs
  have hsplit : Chars.splitAt isSlash p.text.toList = [] :: Chars.splitAt isSlash body := by
    rw [hbody]
    exact splitAt_append_slash [] body
  obtain ⟨ps, name, hps⟩ := List.eq_nil_or_concat (Chars.splitAt isSlash body) |>.resolve_left
    (Chars.splitAt_ne_nil _ _)
  rw [List.concat_eq_append] at hps
  have hidle : isIdle name = false := by
    refine hend name ?_
    rw [hsplit, hps, ← List.cons_append, List.getLast?_concat]
    rfl
  have hslash (x : List Char) (hx : x ∈ dropIdleEnd ps) : '/' ∉ x := by
    refine @notMem_of_mem_splitAt body x ?_
    rw [hps]
    exact List.mem_append_left _ (List.IsPrefix.subset (dropIdleEnd_front ps) hx)
  have hparent : p.parent? = some ⟨String.ofList ('/' :: PathText.join (dropIdleEnd ps))⟩ := by
    have hhead : splitHead p.text.toList = (['/'], body) := by
      rw [hbody]
      rfl
    have hne : ps ++ [name] ≠ [] := by simp
    unfold parent?
    rw [hhead]
    simp only [hps, dropIdleEnd_concat ps hidle, List.dropLast_concat]
    cases ps with
    | nil => rfl
    | cons x ps => rfl
  have hsteps : steps ('/' :: PathText.join (dropIdleEnd ps)) = (ps.filter fun x => !isIdle x) := by
    have happend := steps_append_slash [] (PathText.join (dropIdleEnd ps))
    rwa [steps_nil, List.nil_append, List.nil_append, steps_join hslash, filter_dropIdleEnd] at happend
  refine ⟨_, [] :: ps, name, hparent, ?_, hidle, ?_, ?_, ?_⟩
  · rw [hsplit, hps, List.cons_append]
  · simp only [isAbsolute, String.toList_ofList]
    rfl
  · simp only [String.toList_ofList, hsteps]
    rfl
  · by_cases hnil : dropIdleEnd ps = []
    · exact Or.inl (by rw [hnil]; rfl)
    · refine Or.inr fun x hx => getLast?_dropIdleEnd ps x ?_
      have happend := splitAt_append_slash [] (PathText.join (dropIdleEnd ps))
      rw [List.nil_append, splitAt_join hnil hslash] at happend
      simp only [String.toList_ofList, happend] at hx
      rwa [List.getLast?_append_of_ne_nil _ hnil] at hx

end IncrementalLint

namespace IncrementalLint.Workspace

/-! ## links left -/

section
variable {w : Workspace} {follow : Bool} {links : Nat} {here l : Location} {a ps : List String}
  {n : Node} {place : Place}

/-- behind the pieces that lead to a directory, a walk goes on from there with what is left of its
links -/
theorem Route.append (h : Route w true links here a (.found l n)) (hn : n.isDirectory = true) :
    ∃ k ≤ links, ∀ follow b, (b ≠ [] ∨ follow = true) →
      w.walk follow links here (a ++ b) = w.walk follow k l b := by
  generalize hplace : Place.found l n = place at h
  induction h with
  | here _ =>
    obtain ⟨rfl, rfl⟩ := Place.found.inj hplace
    exact ⟨_, Nat.le_refl _, fun _ _ _ => rfl⟩
  | idle hp _ ih =>
    obtain ⟨k, hk, hwalk⟩ := ih hplace
    exact ⟨k, hk, fun follow b hb => by rw [List.cons_append, walk_idle hp, hwalk follow b hb]⟩
  | up _ ih =>
    obtain ⟨k, hk, hwalk⟩ := ih hplace
    exact ⟨k, hk, fun follow b hb => by rw [List.cons_append, walk_up, hwalk follow b hb]⟩
  | free _ _ _ => contradiction
  | into hp hd _ ih =>
    obtain ⟨k, hk, hwalk⟩ := ih hplace
    exact ⟨k, hk, fun follow b hb => by rw [List.cons_append, walk_directory hp hd, hwalk follow b hb]⟩
  | atLink _ _ hf => contradiction
  | through hp hl _ _ ih =>
    obtain ⟨k, hk, hwalk⟩ := ih hplace
    refine ⟨k, Nat.le_succ_of_le hk, fun follow b hb => ?_⟩
    rw [List.cons_append, walk_link hp hl (hb.imp (by simp_all) id), ← List.append_assoc, hwalk follow b hb]
  | last _ _ hd _ =>
    obtain ⟨rfl, rfl⟩ := Place.found.inj hplace
    rw [hn] at hd
    contradiction

theorem Route.more_links {more : Nat} (h : Route w follow links here ps place) (hmore : links ≤ more) :
    Route w follow more here ps place := by
  induction h generalizing more with
  | here hn => exact .here hn
  | idle hp _ ih => exact .idle hp (ih hmore)
  | up _ ih => exact .up (ih hmore)
  | free hp hn hrest => exact .free hp hn hrest
  | into hp hn _ ih => exact .into hp hn (ih hmore)
  | atLink hp hn hf => exact .atLink hp hn hf
  | through hp hn hf _ ih =>
    obtain ⟨more, rfl⟩ := Nat.exists_eq_add_of_lt (Nat.lt_of_lt_of_le (Nat.succ_pos _) hmore)
    rw [Nat.zero_add] at hmore ⊢
    exact .through hp hn hf (ih (Nat.le_of_succ_le_succ hmore))
  | last hp hn hd hl => exact .last hp hn hd hl

/-- with other links to go, a walk ends where it ended, or there are too few -/
theorem Route.fewer_links (h : Route w true links here ps place) (k : Nat) :
    Route w true k here ps place ∨ w.walk true k here ps = .error .tooManyLinks := by
  induction h generalizing k with
  | here hn => exact Or.inl (.here hn)
  | idle hp _ ih => exact (ih k).imp (.idle hp) (walk_idle hp).trans
  | up _ ih => exact (ih k).imp .up walk_up.trans
  | free hp hn hrest => exact Or.inl (.free hp hn hrest)
  | into hp hn _ ih => exact (ih k).imp (.into hp hn) (walk_directory hp hn).trans
  | atLink _ _ hf => contradiction
  | through hp hn hf _ ih =>
    cases k with
    | zero => exact Or.inr (walk_no_link hp hn hf)
    | succ k => exact (ih k).imp (.through hp hn hf) (walk_link hp hn hf).trans
  | last hp hn hd hl => exact Or.inl (.last hp hn hd hl)

end

/-! ## paths of directories -/

section
variable {w : Workspace} {links : Nat} {here d : Location} {ps : List (List Char)} {t : Time}

/-- what stands idly on a route to a directory may stand anywhere on it -/
theorem Route.of_steps (h : Route w true links here
    ((ps.filter fun x => !PathText.isIdle x).map String.ofList) (.found d (.directory t))) :
    Route w true links here (ps.map String.ofList) (.found d (.directory t)) := by
  obtain ⟨idle, hps, hidle⟩ := PathText.dropIdleEnd_append ps
  rw [← PathText.filter_dropIdleEnd] at h
  have hroute : Route w true links here ((PathText.dropIdleEnd ps).map String.ofList) _ :=
    Route.add_idles [] _ (PathText.getLast?_dropIdleEnd ps) h
  obtain ⟨k, _, hwalk⟩ := hroute.append rfl
  have hstay (k : Nat) (idle : List (List Char)) (hidle : ∀ x ∈ idle, PathText.isIdle x = true) :
      w.walk true k d (idle.map String.ofList) = .ok (.found d (.directory t)) := by
    induction idle with
    | nil => exact Route.walk_eq (.here hroute.found_node)
    | cons x idle ih =>
      rw [List.map_cons, walk_idle (idle_piece (hidle x List.mem_cons_self))]
      exact ih fun y hy => hidle y (List.mem_cons_of_mem _ hy)
  refine walk_eq_ok_iff.mp ?_
  rw [hps, List.map_append, hwalk true _ (Or.inr rfl), hstay k idle hidle]

end

/-! ## the workspace as seen from a directory -/

/-- for who is in a directory -/
def seenFrom (w : Workspace) (here : Location) : Workspace := { w with cwd := here }

/-- a name, for who is in a directory, and a path denote one file; only the path may be too long or
have too many links on its way -/
structure SameFile (w : Workspace) (here : Location) (name p : Path) : Prop where
  of_path : ∀ x, w.find p = .ok x → (w.seenFrom here).find name = .ok x
  of_name : ∀ x, (w.seenFrom here).find name = .ok x →
    w.find p = .ok x ∨ w.find p = .error .nameTooLong ∨ w.find p = .error .tooManyLinks

section
variable {w : Workspace} {here d : Location} {p dir name : Path} {t : Time}

@[simp] theorem node?_seenFrom {l : Location} : (w.seenFrom here).node? l = w.node? l := rfl

@[simp] theorem walk_seenFrom {follow : Bool} {links : Nat} {l : Location} {ps : List String} :
    (w.seenFrom here).walk follow links l ps = w.walk follow links l ps := by
  fun_induction walk w follow links l ps <;> rw [walk] <;> grind [node?_seenFrom]

theorem locate_of_usable {follow : Bool} (h : Usable p) :
    w.locate p follow = w.walk follow maxLinks (w.start p) (pieces p.text) := by
  rw [locate, if_neg (by simpa using h.1), if_neg h.2.1, if_neg (Nat.not_le.mpr h.2.2)]
  rfl

/-- an absolute path leads everyone to the same place -/
theorem locate_seenFrom {follow : Bool} (h : p.isAbsolute = true) :
    (w.seenFrom here).locate p follow = w.locate p follow := by
  unfold locate
  simp only [h, if_true, walk_seenFrom]

theorem find_seenFrom (h : p.isAbsolute = true) : (w.seenFrom here).find p = w.find p := by
  rw [find, find, locate_seenFrom h]

/-- where the path is absolute, it does not matter who looks -/
theorem SameFile.seenFrom (h : SameFile w d name p) (habs : p.isAbsolute = true) :
    SameFile (w.seenFrom here) d name p := by
  refine ⟨fun x hx => h.of_path x ((find_seenFrom habs).symm.trans hx), fun x hx => ?_⟩
  rw [find_seenFrom habs]
  exact h.of_name x hx

/-! ## names behind a directory -/

/-- a relative path behind another one: pieces with the steps of that one, then its own -/
theorem pieces_join (hdir : dir.text ≠ "") (hname : name.isAbsolute = false) :
    ∃ front : List (List Char), (front.filter fun x => !PathText.isIdle x) = PathText.steps dir.text.toList ∧
      pieces (dir.join name).text = front.map String.ofList ++ pieces name.text := by
  have hbelow : ¬(name.isAbsolute || dir.text.isEmpty) = true := by
    rw [hname, Bool.false_or, String.isEmpty_iff]
    exact hdir
  rw [Path.join, if_neg hbelow]
  split
  next hlast =>
    obtain ⟨cs, hcs⟩ := List.getLast?_eq_some_iff.mp hlast
    have htext : (dir.text ++ name.text).toList = cs ++ '/' :: name.text.toList := by
      rw [String.toList_append, hcs, List.append_assoc]
      rfl
    refine ⟨Chars.splitAt PathText.isSlash cs, ?_, ?_⟩
    · rw [hcs, PathText.steps_append_slash, PathText.steps_nil, List.append_nil]
      rfl
    · rw [pieces, htext, PathText.splitAt_append_slash, List.map_append]
      rfl
  next =>
    have htext : (dir.text ++ "/" ++ name.text).toList = dir.text.toList ++ '/' :: name.text.toList := by
      rw [String.toList_append, String.toList_append, List.append_assoc]
      rfl
    refine ⟨Chars.splitAt PathText.isSlash dir.text.toList, rfl, ?_⟩
    rw [pieces, htext, PathText.splitAt_append_slash, List.map_append]
    rfl

theorem text_join (h : ¬(name.isAbsolute || dir.text.isEmpty) = true) :
    ∃ slash, (slash = "" ∨ slash = "/") ∧ (dir.join name).text = dir.text ++ slash ++ name.text := by
  rw [Path.join, if_neg h]
  split
  · exact ⟨"", Or.inl rfl, by rw [String.append_empty]⟩
  · exact ⟨"/", Or.inr rfl, rfl⟩

theorem nul_join (h : ¬(name.isAbsolute || dir.text.isEmpty) = true)
    (hnul : Char.ofNat 0 ∉ dir.text.toList) :
    (dir.join name).text.toList.contains (Char.ofNat 0) = name.text.toList.contains (Char.ofNat 0) := by
  obtain ⟨slash, hslash, htext⟩ := text_join h
  rw [htext, String.toList_append, String.toList_append]
  rcases hslash with rfl | rfl <;> simp [hnul]

theorem size_join (h : ¬(name.isAbsolute || dir.text.isEmpty) = true) :
    name.text.utf8ByteSize ≤ (dir.join name).text.utf8ByteSize := by
  obtain ⟨slash, _, htext⟩ := text_join h
  rw [htext, String.utf8ByteSize_append]
  exact Nat.le_add_left _ _

theorem join_ne_empty (h : ¬(name.isAbsolute || dir.text.isEmpty) = true) (hname : name.text ≠ "") :
    (dir.join name).text ≠ "" := by
  intro he
  have hsize := size_join h
  rw [he] at hsize
  exact hname (String.utf8ByteSize_eq_zero_iff.mp (Nat.le_zero.mp hsize))

/-- behind a path of the directory, a name denotes what it denotes in the directory -/
theorem sameFile_join (hdir : dir.isAbsolute = true) (hnul : Char.ofNat 0 ∉ dir.text.toList)
    (hroute : Route w true maxLinks []
      ((PathText.steps dir.text.toList).map String.ofList) (.found d (.directory t)))
    (hname : name.text ≠ "") : SameFile w d name (dir.join name) := by
  by_cases habs : name.isAbsolute = true
  · have hjoin : dir.join name = name := Path.join_alone (by rw [habs, Bool.true_or])
    rw [hjoin]
    exact ⟨fun x hx => (find_seenFrom habs).trans hx, fun x hx => Or.inl ((find_seenFrom habs).symm.trans hx)⟩
  have hrel : name.isAbsolute = false := by simpa using habs
  have hne : dir.text ≠ "" := by
    intro he
    rw [Path.isAbsolute, he] at hdir
    contradiction
  have hbelow : ¬(name.isAbsolute || dir.text.isEmpty) = true := by
    rw [hrel, Bool.false_or, String.isEmpty_iff]
    exact hne
  have hstart : w.start (dir.join name) = [] := by
    rw [start, (Path.join_below hbelow).1, if_pos hdir]
  obtain ⟨front, hfront, hpieces⟩ := pieces_join hne hrel
  rw [← hfront] at hroute
  obtain ⟨k, hk, hwalk⟩ := hroute.of_steps.append rfl
  have hhere : (w.seenFrom d).start name = d := by
    rw [start, if_neg habs]
    rfl
  -- both are walks over the pieces of the name, from the directory
  have hpath (hu : Usable (dir.join name)) :
      w.locate (dir.join name) true = w.walk true k d (pieces name.text) := by
    rw [locate_of_usable hu, hstart, hpieces, hwalk true _ (Or.inr rfl)]
  have hthere (hu : Usable name) :
      (w.seenFrom d).locate name true = w.walk true maxLinks d (pieces name.text) := by
    rw [locate_of_usable hu, hhere, walk_seenFrom]
  have hsize := size_join hbelow
  have hnul' := nul_join hbelow hnul
  refine ⟨fun x hx => ?_, fun x hx => ?_⟩
  · have hloc := find_eq_ok_iff.mp hx
    obtain ⟨hu, _⟩ := locate_eq_ok_iff.mp hloc
    have hname' : Usable name := ⟨hnul'.symm.trans hu.1, hname, Nat.lt_of_le_of_lt hsize hu.2.2⟩
    rw [hpath hu] at hloc
    have hroute' := (route_of_walk hloc).more_links hk
    exact find_eq_ok_iff.mpr ((hthere hname').trans hroute'.walk_eq)
  · have hloc := find_eq_ok_iff.mp hx
    obtain ⟨hu, _⟩ := locate_eq_ok_iff.mp hloc
    by_cases hshort : (dir.join name).text.utf8ByteSize < maxPath
    · have hu' : Usable (dir.join name) := ⟨hnul'.trans hu.1, join_ne_empty hbelow hname, hshort⟩
      rw [hthere hu] at hloc
      rcases (route_of_walk hloc).fewer_links k with hroute' | hfew
      · exact Or.inl (find_eq_ok_iff.mpr ((hpath hu').trans hroute'.walk_eq))
      · refine Or.inr (Or.inr ?_)
        rw [find, hpath hu', hfew]
        rfl
    · refine Or.inr (Or.inl ?_)
      rw [find, locate, hnul', hu.1, if_neg Bool.false_ne_true, if_neg (join_ne_empty hbelow hname),
        if_pos (Nat.not_lt.mp hshort)]
      rfl

/-! ## files in the directory above them -/

/-- one step from a directory leads to a place right in it -/
theorem walk_of_name {k : Nat} {last : String} (hlast : Ordinary last) :
    ∃ place, w.walk false k d [last] = .ok place ∧ place.location = d ++ [last] := by
  rw [walk_name hlast]
  split
  · exact ⟨_, rfl, rfl⟩
  next t hn => exact ⟨.found (d ++ [last]) (.directory t), Route.walk_eq (.here hn), rfl⟩
  · exact ⟨_, rfl, rfl⟩
  · exact ⟨_, rfl, rfl⟩

theorem endsInStep_of_name {last : String} (hend : (pieces p.text).getLast? = some last)
    (hempty : last ≠ "") (hdot : last ≠ ".") : p.EndsInStep := by
  intro x hx
  rw [pieces, List.getLast?_map, hx] at hend
  obtain rfl := Option.some.inj hend
  exact Bool.eq_false_iff.mpr fun hidle => (idle_piece hidle).elim hempty hdot

/-- an absolute path that ends in a name has its place right in the directory that its parent names -/
theorem locate_in_parent {up : Path} {last : String} (habs : p.isAbsolute = true)
    (hend : (pieces p.text).getLast? = some last) (hlast : last ≠ "" ∧ last ≠ "." ∧ last ≠ "..")
    (hup : p.parent? = some up) (hd : w.find up = .ok (d, .directory t)) :
    (∃ place, w.locate p false = .ok place ∧ place.location = d ++ [last]) ∨
      w.locate p false = .error .nameTooLong ∨ w.locate p false = .error .nulInName := by
  obtain ⟨up', front, name, hup', hsplit, _, habs', hsteps, _⟩ :=
    Path.parent?_of_step habs (endsInStep_of_name hend hlast.1 hlast.2.1)
  obtain rfl := Option.some.inj (hup'.symm.trans hup)
  have hpieces : pieces p.text = front.map String.ofList ++ [last] := by
    rw [pieces, hsplit, List.map_append, List.map_singleton, List.getLast?_concat] at hend
    rw [pieces, hsplit, List.map_append, List.map_singleton, Option.some.inj hend]
  have hroute := route_of_find hd
  rw [start, if_pos habs', hsteps] at hroute
  obtain ⟨k, _, hwalk⟩ := hroute.of_steps.append rfl
  rw [locate]
  split
  · exact Or.inr (Or.inr rfl)
  · split
    next he =>
      rw [Path.isAbsolute, he] at habs
      contradiction
    · split
      · exact Or.inr (Or.inl rfl)
      · rw [hpieces, hwalk false _ (Or.inl (by simp))]
        by_cases hsize : last.utf8ByteSize ≤ maxName
        · exact Or.inl (walk_of_name ⟨hlast.1, hlast.2.1, hlast.2.2, hsize⟩)
        · refine Or.inr (Or.inl ?_)
          rw [walk, if_neg (by simp [hlast.1, hlast.2.1]), if_neg hlast.2.2, if_pos (Nat.lt_of_not_le hsize)]

end

end IncrementalLint.Workspace
