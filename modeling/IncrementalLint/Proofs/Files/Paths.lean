import IncrementalLint.Proofs.Files.Walk

/-!
# Paths in two workspaces

Where a path leads is settled by the links alone; whether it gets there, by the nodes on its way.

* `SameLinks.location`   where links stay, a path never leads to two locations;
* `Keeps.find`           what is found goes on being found while nothing changes its kind;
* `Route.reach`          what is put at a free place is found there;
* `find_gone`            what is taken away is no longer found;
* `LeadsTo`              the location that a path has, whatever is missing on its way.
-/

namespace IncrementalLint

/-- the text in a node, if it can be read as text -/
def Node.text? : Node → Option String
  | .file content _ _ => Utf8.decode? content
  | .directory _ => none
  | .device .zero => none
  | _ => Utf8.decode? ByteArray.empty

/-- what is no storage has no text but the empty one -/
theorem Node.text?_of_not_file {n : Node} (hd : n.isDirectory = false) (hf : ∀ c t x, n ≠ .file c t x) :
    n.text? = none ∨ n.text? = some "" := by
  cases n with
  | file c t x => exact absurd rfl (hf c t x)
  | directory t => contradiction
  | link target => exact Or.inr rfl
  | device kind =>
    cases kind with
    | null => exact Or.inr rfl
    | zero => exact Or.inl rfl

namespace Workspace

/-! ## what two workspaces share -/

/-- the same links, seen from the same directory -/
structure SameLinks (w w' : Workspace) : Prop where
  cwd : w'.cwd = w.cwd
  links : ∀ {l : Location} {target : String},
    w'.node? l = some (.link target) ↔ w.node? l = some (.link target)

theorem SameLinks.refl (w : Workspace) : SameLinks w w := ⟨rfl, Iff.rfl⟩

theorem SameLinks.symm {w w' : Workspace} (h : SameLinks w w') : SameLinks w' w :=
  ⟨h.cwd.symm, h.links.symm⟩

theorem SameLinks.trans {w w' w'' : Workspace} (h : SameLinks w w') (h' : SameLinks w' w'') :
    SameLinks w w'' :=
  ⟨h'.cwd.trans h.cwd, h'.links.trans h.links⟩

/-- every node is still there, and still what it was -/
structure Keeps (w w' : Workspace) : Prop where
  cwd : w'.cwd = w.cwd
  nodes : ∀ {l : Location} {n : Node}, w.node? l = some n → ∃ n', w'.node? l = some n' ∧ n.Alike n'

theorem Keeps.refl (w : Workspace) : Keeps w w := ⟨rfl, fun {_ n} h => ⟨n, h, .refl n⟩⟩

theorem Keeps.trans {w w' w'' : Workspace} (h : Keeps w w') (h' : Keeps w' w'') : Keeps w w'' := by
  refine ⟨h'.cwd.trans h.cwd, fun {l n} hn => ?_⟩
  obtain ⟨n', hn', ha⟩ := h.nodes hn
  obtain ⟨n'', hn'', ha'⟩ := h'.nodes hn'
  exact ⟨n'', hn'', ha.trans ha'⟩

/-! ## routes -/

section
variable {w w' : Workspace} {links links' : Nat} {here : Location} {ps : List String}

/-- where links stay, routes of one path end at one location -/
theorem Route.unique (hs : SameLinks w w') {place place' : Place}
    (h : Route w true links here ps place) (h' : Route w' true links' here ps place') :
    place'.location = place.location := by
  induction h generalizing links' with
  | here _ =>
    cases h'
    rfl
  | idle hp _ ih => exact ih (h'.of_idle hp)
  | up _ ih => exact ih h'.of_up
  | @free _ here piece rest hp hn hrest =>
    cases hn' : w'.node? (here ++ [piece]) with
    | none =>
      obtain ⟨_, rfl⟩ := h'.of_free hp hn'
      rfl
    | some n =>
      cases n with
      | directory t =>
        obtain ⟨_, _, rfl⟩ := (h'.of_directory hp hn').of_idles hrest
        rfl
      | link target => exact absurd (hs.links.mp hn') (by simp [hn])
      | _ =>
        obtain ⟨_, rfl⟩ := h'.of_other hp hn' rfl rfl
        rfl
  | @into _ here piece rest _ _ hp hn h ih =>
    cases hn' : w'.node? (here ++ [piece]) with
    | none =>
      obtain ⟨hrest, rfl⟩ := h'.of_free hp hn'
      obtain ⟨_, _, rfl⟩ := h.of_idles hrest
      rfl
    | some n =>
      cases n with
      | directory t => exact ih (h'.of_directory hp hn')
      | link target => exact absurd (hs.links.mp hn') (by simp [hn])
      | _ =>
        obtain ⟨rfl, rfl⟩ := h'.of_other hp hn' rfl rfl
        cases h
        rfl
  | atLink _ _ hf => exact absurd hf (by simp)
  | through hp hn _ _ ih =>
    obtain ⟨_, _, hr⟩ := h'.of_link hp (hs.links.mpr hn)
    exact ih hr
  | @last _ here piece n hp hn hd hl =>
    cases hn' : w'.node? (here ++ [piece]) with
    | none =>
      obtain ⟨_, rfl⟩ := h'.of_free hp hn'
      rfl
    | some n' =>
      cases n' with
      | directory t =>
        cases h'.of_directory hp hn'
        rfl
      | link target =>
        obtain rfl := Option.some.inj (hn.symm.trans (hs.links.mp hn'))
        exact absurd hl (by simp [Node.isLink])
      | _ =>
        obtain ⟨_, rfl⟩ := h'.of_other hp hn' rfl rfl
        rfl

/-- whether a node can be what a route ends at: a free place takes what its path allows there -/
def Place.Takes (n : Node) : Place → Prop
  | .found _ _ => True
  | .free _ mustBeDirectory => n.isLink = false ∧ (mustBeDirectory = true → n.isDirectory = true)

/-- a route goes on existing, and ends at what is there now -/
theorem Route.reach {follow : Bool} (hk : Keeps w w') {place : Place}
    (h : Route w follow links here ps place) {n : Node} (hn : w'.node? place.location = some n)
    (ht : place.Takes n) : Route w' follow links here ps (.found place.location n) := by
  induction h with
  | here _ => exact .here hn
  | idle hp _ ih => exact .idle hp (ih hn ht)
  | up _ ih => exact .up (ih hn ht)
  | @free _ here piece rest hp _ hrest =>
    by_cases hd : n.isDirectory = true
    · cases n with
      | directory t => exact .into hp hn (Route.idles hn hrest)
      | _ => contradiction
    · cases rest with
      | nil => exact .last hp hn (by simpa using hd) ht.1
      | cons _ _ => exact absurd (ht.2 rfl) hd
  | into hp hd _ ih =>
    obtain ⟨n', hn', ha⟩ := hk.nodes hd
    obtain ⟨t', rfl⟩ := ha.directory
    exact .into hp hn' (ih hn ht)
  | atLink hp hl hf =>
    obtain ⟨n', hn', ha⟩ := hk.nodes hl
    obtain rfl := Option.some.inj (hn.symm.trans hn')
    obtain rfl := ha.link
    exact .atLink hp hn' hf
  | through hp hl hf _ ih =>
    obtain ⟨n', hn', ha⟩ := hk.nodes hl
    obtain rfl := ha.link
    exact .through hp hn' hf (ih hn ht)
  | last hp hn₀ hd hl =>
    obtain ⟨n', hn', ha⟩ := hk.nodes hn₀
    obtain rfl := Option.some.inj (hn.symm.trans hn')
    exact .last hp hn' (ha.isDirectory.trans hd) (ha.isLink.trans hl)

/-- where a route ended at a node that is no directory and is gone, no route ends at a node -/
theorem Route.gone {place : Place} (h : Route w false links here ps place)
    (hk : ∀ {m : Location} {n : Node}, m ≠ place.location → w.node? m = some n →
      ∃ n', w'.node? m = some n' ∧ n.Alike n')
    (hd : ∀ n, w.node? place.location = some n → n.isDirectory = false)
    (hl : w'.node? place.location = none) {l' : Location} {n' : Node} :
    ¬Route w' true links' here ps (.found l' n') := by
  intro h'
  induction h generalizing links' with
  | here _ =>
    cases h'
    simp_all [Place.location]
  | idle hp _ ih => exact ih hk hd hl (h'.of_idle hp)
  | up _ ih => exact ih hk hd hl h'.of_up
  | free hp _ _ => exact absurd (h'.of_free hp hl).2 (by simp)
  | @into _ here piece _ place t hp hn _ ih =>
    have hne : here ++ [piece] ≠ place.location := fun he => by
      have := hd _ (he ▸ hn)
      contradiction
    obtain ⟨n'', hn'', ha⟩ := hk hne hn
    obtain ⟨t', rfl⟩ := ha.directory
    exact ih hk hd hl (h'.of_directory hp hn'')
  | atLink hp _ _ => exact absurd (h'.of_free hp hl).2 (by simp)
  | @through _ here piece _ _ place hp hn _ _ ih =>
    by_cases he : here ++ [piece] = place.location
    · exact absurd (h'.of_free hp (he ▸ hl)).2 (by simp)
    · obtain ⟨n'', hn'', ha⟩ := hk he hn
      obtain rfl := ha.link
      obtain ⟨_, _, hr⟩ := h'.of_link hp hn''
      exact ih hk hd hl hr
  | last hp _ _ _ => exact absurd (h'.of_free hp hl).2 (by simp)

end

/-! ## paths -/

def Usable (p : Path) : Prop :=
  p.text.toList.contains (Char.ofNat 0) = false ∧ p.text ≠ "" ∧ p.text.utf8ByteSize < maxPath

def start (w : Workspace) (p : Path) : Location := if p.isAbsolute then [] else w.cwd

section
variable {w w' : Workspace} {p : Path} {place place' : Place} {l : Location} {n : Node}

theorem locate_eq_ok_iff {follow : Bool} :
    w.locate p follow = .ok place ↔
      Usable p ∧ Route w follow maxLinks (w.start p) (pieces p.text) place := by
  unfold locate Usable
  split
  next hnul => simp only [hnul, reduceCtorEq, Bool.true_eq_false, false_and]
  next hnul =>
    split
    next he => simp [he]
    next he =>
      split
      next hlong => simp only [reduceCtorEq, false_iff]; omega
      next hlong =>
        rw [walk_eq_ok_iff]
        exact ⟨fun h => ⟨⟨by simpa using hnul, he, by omega⟩, h⟩, fun h => h.2⟩

theorem find_eq_ok_iff : w.find p = .ok (l, n) ↔ w.locate p true = .ok (.found l n) := by
  unfold find
  cases h : w.locate p true with
  | error e => simp [bind, Except.bind]
  | ok place => cases place <;> simp [bind, Except.bind]

theorem found_unique {l' : Location} {n' : Node} (h : w.find p = .ok (l, n)) (h' : w.find p = .ok (l', n')) :
    l' = l ∧ n' = n :=
  Prod.mk.inj (Except.ok.inj (h'.symm.trans h))

theorem node_of_find (h : w.find p = .ok (l, n)) : w.node? l = some n :=
  (locate_eq_ok_iff.mp (find_eq_ok_iff.mp h)).2.found_node

theorem SameLinks.location (hs : SameLinks w w') (h : w.locate p true = .ok place)
    (h' : w'.locate p true = .ok place') : place'.location = place.location := by
  obtain ⟨_, hr⟩ := locate_eq_ok_iff.mp h
  obtain ⟨_, hr'⟩ := locate_eq_ok_iff.mp h'
  have hstart : w'.start p = w.start p := by rw [start, start, hs.cwd]
  rw [hstart] at hr'
  exact hr.unique hs hr'

/-- a path goes on leading where it led, to what is there now -/
theorem Keeps.locate {follow : Bool} (hk : Keeps w w') (h : w.locate p follow = .ok place)
    (hn : w'.node? place.location = some n) (ht : place.Takes n) :
    w'.locate p follow = .ok (.found place.location n) := by
  obtain ⟨hu, hr⟩ := locate_eq_ok_iff.mp h
  have hstart : w'.start p = w.start p := by rw [start, start, hk.cwd]
  rw [locate_eq_ok_iff, hstart]
  exact ⟨hu, hr.reach hk hn ht⟩

theorem Keeps.find (hk : Keeps w w') (h : w.find p = .ok (l, n)) :
    ∃ n', w'.find p = .ok (l, n') ∧ n.Alike n' := by
  obtain ⟨n', hn', ha⟩ := hk.nodes (node_of_find h)
  exact ⟨n', find_eq_ok_iff.mpr (hk.locate (find_eq_ok_iff.mp h) hn' trivial), ha⟩

theorem find_gone (h : w.locate p false = .ok (.found l n)) (hd : n.isDirectory = false)
    (hcwd : w'.cwd = w.cwd)
    (hk : ∀ {m : Location} {n : Node}, m ≠ l → w.node? m = some n →
      ∃ n', w'.node? m = some n' ∧ n.Alike n')
    (hl : w'.node? l = none) {x : Location × Node} : w'.find p ≠ .ok x := by
  intro hf
  obtain ⟨_, hr⟩ := locate_eq_ok_iff.mp h
  obtain ⟨_, hr'⟩ := locate_eq_ok_iff.mp (find_eq_ok_iff.mp hf)
  have hstart : w'.start p = w.start p := by rw [start, start, hcwd]
  rw [hstart] at hr'
  refine hr.gone hk (fun n' hn' => ?_) hl hr'
  obtain rfl := Option.some.inj (hr.found_node.symm.trans hn')
  exact hd

end

/-! ## where a path would lead -/

/-- a path leads to a location once nothing is missing on its way -/
def LeadsTo (w : Workspace) (p : Path) (l : Location) : Prop :=
  ∃ v place, SameLinks w v ∧ v.locate p true = .ok place ∧ place.location = l

/-- two paths that never lead to one place -/
def Apart (w : Workspace) (p q : Path) : Prop := ∀ l, LeadsTo w p l → ¬LeadsTo w q l

section
variable {w w' : Workspace} {p : Path} {l l' : Location} {n : Node}

theorem leadsTo_of_locate {place : Place} (h : w.locate p true = .ok place) :
    LeadsTo w p place.location :=
  ⟨w, place, .refl w, h, rfl⟩

theorem leadsTo_of_find (h : w.find p = .ok (l, n)) : LeadsTo w p l :=
  leadsTo_of_locate (find_eq_ok_iff.mp h)

theorem LeadsTo.unique (h : LeadsTo w p l) (h' : LeadsTo w p l') : l' = l := by
  obtain ⟨v, place, hs, hv, rfl⟩ := h
  obtain ⟨v', place', hs', hv', rfl⟩ := h'
  exact (hs.symm.trans hs').location hv hv'

theorem SameLinks.leadsTo_iff (hs : SameLinks w w') : LeadsTo w' p l ↔ LeadsTo w p l := by
  constructor
  · rintro ⟨v, place, hv, h⟩
    exact ⟨v, place, hs.trans hv, h⟩
  · rintro ⟨v, place, hv, h⟩
    exact ⟨v, place, hs.symm.trans hv, h⟩

theorem SameLinks.apart {q : Path} (hs : SameLinks w w') (h : Apart w p q) : Apart w' p q :=
  fun l hl hl' => h l (hs.leadsTo_iff.mp hl) (hs.leadsTo_iff.mp hl')

end

/-! ## what a path reads as -/

section
variable {w : Workspace} {p : Path}

theorem modified_eq_ok_iff {t : Time} :
    w.modified p = .ok t ↔ ∃ l n, w.find p = .ok (l, n) ∧ n.modified = t := by
  unfold modified
  cases w.find p with
  | error e => simp [bind, Except.bind]
  | ok x =>
    obtain ⟨l, n⟩ := x
    simp only [bind, Except.bind, pure, Except.pure, Except.ok.injEq, Prod.mk.injEq]
    exact ⟨fun h => ⟨l, n, ⟨rfl, rfl⟩, h⟩, fun ⟨_, _, ⟨_, hn⟩, h⟩ => hn ▸ h⟩

/-- what can be read is text if it can be decoded -/
theorem readText_of_read {content : ByteArray} {s : String} (h : w.read p = .ok content) :
    w.readText p = .ok s ↔ Utf8.decode? content = some s := by
  unfold readText
  rw [h]
  simp only [bind, Except.bind]
  cases Utf8.decode? content <;> simp

theorem readText_of_error {e : FileError} (h : w.read p = .error e) : w.readText p = .error e := by
  rw [readText, h]
  rfl

theorem readText_eq_ok_iff {s : String} :
    w.readText p = .ok s ↔ ∃ l n, w.find p = .ok (l, n) ∧ n.text? = some s := by
  have hnode (l : Location) (n : Node) (hf : w.find p = .ok (l, n)) :
      w.readText p = .ok s ↔ n.text? = some s := by
    have hfails {e : FileError} (h : w.read p = .error e) (ht : n.text? = none) :
        w.readText p = .ok s ↔ n.text? = some s := by
      rw [readText_of_error h, ht]
      simp
    cases n with
    | file content t x => exact readText_of_read (by rw [read, hf]; rfl)
    | directory t => exact hfails (by rw [read, hf]; rfl) rfl
    | link target => exact readText_of_read (by rw [read, hf]; rfl)
    | device kind =>
      cases kind with
      | null => exact readText_of_read (by rw [read, hf]; rfl)
      | zero => exact hfails (by rw [read, hf]; rfl) rfl
  constructor
  · intro h
    cases hf : w.find p with
    | error e =>
      rw [readText_of_error (e := e) (by rw [read, hf]; rfl)] at h
      contradiction
    | ok x => exact ⟨x.1, x.2, rfl, (hnode _ _ hf).mp h⟩
  · rintro ⟨l, n, hf, ht⟩
    exact (hnode l n hf).mpr ht

end

end Workspace

end IncrementalLint
