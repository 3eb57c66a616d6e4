import IncrementalLint.Files.Change

/-!
# Where a path leads

A walk that ends somewhere has a route, step by step as the pieces of its path say.

* `Route`                  the steps of a walk that ends at a node or at a free place;
* `walk_name`              and the like: one step of a walk;
* `walk_eq_ok_iff`         walks and routes are the same;
* `Route.node`             what stands at the end;
* `Route.of_directory`     and the like: a route taken apart at its first piece.
-/

namespace IncrementalLint

/-! ## kinds of nodes -/

/-- whether two nodes are the same to a walk that passes them -/
def Node.Alike : Node → Node → Prop
  | .file _ _ _, .file _ _ _ => True
  | .directory _, .directory _ => True
  | .link s, .link t => s = t
  | .device j, .device k => j = k
  | _, _ => False

theorem Node.Alike.refl (n : Node) : n.Alike n := by
  cases n <;> simp [Node.Alike]

theorem Node.Alike.trans {a b c : Node} (h : a.Alike b) (h' : b.Alike c) : a.Alike c := by
  cases a <;> cases b <;> cases c <;> simp_all [Node.Alike]

def Node.isLink : Node → Bool
  | .link _ => true
  | _ => false

namespace Node.Alike

theorem directory {t : Time} {n : Node} (h : (Node.directory t).Alike n) : ∃ t', n = .directory t' := by
  cases n <;> simp_all [Node.Alike]

theorem link {target : String} {n : Node} (h : (Node.link target).Alike n) : n = .link target := by
  cases n <;> simp_all [Node.Alike]

theorem isDirectory {a b : Node} (h : a.Alike b) : b.isDirectory = a.isDirectory := by
  cases a <;> cases b <;> simp_all [Node.Alike, Node.isDirectory]

theorem isLink {a b : Node} (h : a.Alike b) : b.isLink = a.isLink := by
  cases a <;> cases b <;> simp_all [Node.Alike, Node.isLink]

end Node.Alike

namespace Workspace

/-- a name, not a step of another kind -/
def Ordinary (piece : String) : Prop :=
  piece ≠ "" ∧ piece ≠ "." ∧ piece ≠ ".." ∧ piece.utf8ByteSize ≤ maxName

/-! ## routes -/

/-- the steps of a walk that ends -/
inductive Route (w : Workspace) (follow : Bool) : Nat → Location → List String → Place → Prop
  | here {links : Nat} {here : Location} {n : Node} (hn : w.node? here = some n) :
      Route w follow links here [] (.found here n)
  | idle {links : Nat} {here : Location} {piece : String} {rest : List String} {place : Place}
      (hp : piece = "" ∨ piece = ".") (h : Route w follow links here rest place) :
      Route w follow links here (piece :: rest) place
  | up {links : Nat} {here : Location} {rest : List String} {place : Place}
      (h : Route w follow links here.dropLast rest place) :
      Route w follow links here (".." :: rest) place
  | free {links : Nat} {here : Location} {piece : String} {rest : List String}
      (hp : Ordinary piece) (hn : w.node? (here ++ [piece]) = none) (hrest : rest.all (· = "") = true) :
      Route w follow links here (piece :: rest) (.free (here ++ [piece]) !rest.isEmpty)
  | into {links : Nat} {here : Location} {piece : String} {rest : List String} {place : Place}
      {t : Time} (hp : Ordinary piece) (hn : w.node? (here ++ [piece]) = some (.directory t))
      (h : Route w follow links (here ++ [piece]) rest place) :
      Route w follow links here (piece :: rest) place
  | atLink {links : Nat} {here : Location} {piece target : String} (hp : Ordinary piece)
      (hn : w.node? (here ++ [piece]) = some (.link target)) (hf : follow = false) :
      Route w follow links here [piece] (.found (here ++ [piece]) (.link target))
  | through {links : Nat} {here : Location} {piece target : String} {rest : List String}
      {place : Place} (hp : Ordinary piece) (hn : w.node? (here ++ [piece]) = some (.link target))
      (hf : rest ≠ [] ∨ follow = true)
      (h : Route w follow links (if isAbsolute target then [] else here) (pieces target ++ rest) place) :
      Route w follow (links + 1) here (piece :: rest) place
  | last {links : Nat} {here : Location} {piece : String} {n : Node} (hp : Ordinary piece)
      (hn : w.node? (here ++ [piece]) = some n) (hd : n.isDirectory = false) (hl : n.isLink = false) :
      Route w follow links here [piece] (.found (here ++ [piece]) n)

section
variable {w w' : Workspace} {follow : Bool} {links : Nat} {here : Location} {ps : List String}

theorem route_of_walk {place : Place} (h : w.walk follow links here ps = .ok place) :
    Route w follow links here ps place := by
  fun_induction walk w follow links here ps with
  | case1 links here n hn =>
    obtain rfl := Except.ok.inj h
    exact .here hn
  | case2 => exact absurd h (by simp)
  | case3 links here piece rest hp ih => exact .idle (by simpa using hp) (ih h)
  | case4 links here rest hp ih => exact .up (ih h)
  | case5 => exact absurd h (by simp)
  | case6 links here piece rest hp hup hlong there hn hrest =>
    obtain rfl := Except.ok.inj h
    exact .free ⟨by simp_all, by simp_all, hup, by omega⟩ hn hrest
  | case7 => exact absurd h (by simp)
  | case8 links here piece rest hp hup hlong there t hn ih =>
    exact .into ⟨by simp_all, by simp_all, hup, by omega⟩ hn (ih h)
  | case9 links here piece rest hp hup hlong there target hn hlast =>
    obtain rfl := Except.ok.inj h
    obtain ⟨hrest, hf⟩ := (Bool.and_eq_true _ _).mp hlast
    obtain rfl := List.isEmpty_iff.mp hrest
    exact .atLink ⟨by simp_all, by simp_all, hup, by omega⟩ hn (by simpa using hf)
  | case10 => exact absurd h (by simp)
  | case11 here piece rest hp hup hlong there target hn hlast links ih =>
    refine .through ⟨by simp_all, by simp_all, hup, by omega⟩ hn ?_ (ih h)
    cases rest <;> simp_all
  | case12 links here piece rest hp hup hlong there n hd hl hn hrest =>
    obtain rfl := Except.ok.inj h
    obtain rfl := List.isEmpty_iff.mp hrest
    refine .last ⟨by simp_all, by simp_all, hup, by omega⟩ hn ?_ ?_
    · cases n <;> simp_all [Node.isDirectory]
    · cases n <;> simp_all [Node.isLink]
  | case13 => exact absurd h (by simp)

/-! ### one step of a walk -/

theorem walk_idle {piece : String} {rest : List String} (hp : piece = "" ∨ piece = ".") :
    w.walk follow links here (piece :: rest) = w.walk follow links here rest := by
  rw [walk, if_pos (by simpa using hp)]

theorem walk_up {rest : List String} :
    w.walk follow links here (".." :: rest) = w.walk follow links here.dropLast rest := by
  rw [walk, if_neg (by decide), if_pos rfl]

/-- a name is looked up -/
theorem walk_name {piece : String} {rest : List String} (hp : Ordinary piece) :
    w.walk follow links here (piece :: rest) =
      match w.node? (here ++ [piece]) with
      | none =>
        if rest.all (· = "") then .ok (.free (here ++ [piece]) !rest.isEmpty) else .error .notFound
      | some (.directory _) => w.walk follow links (here ++ [piece]) rest
      | some (.link target) =>
        if rest.isEmpty && !follow then .ok (.found (here ++ [piece]) (.link target))
        else
          match links with
          | 0 => .error .tooManyLinks
          | links + 1 =>
            w.walk follow links (if isAbsolute target then [] else here) (pieces target ++ rest)
      | some node => if rest.isEmpty then .ok (.found (here ++ [piece]) node) else .error .notDirectory := by
  rw [walk, if_neg (by simp [hp.1, hp.2.1]), if_neg hp.2.2.1]
  exact if_neg (Nat.not_lt.mpr hp.2.2.2)

theorem walk_directory {piece : String} {rest : List String} {t : Time} (hp : Ordinary piece)
    (hn : w.node? (here ++ [piece]) = some (.directory t)) :
    w.walk follow links here (piece :: rest) = w.walk follow links (here ++ [piece]) rest := by
  rw [walk_name hp, hn]

theorem walk_link {piece target : String} {rest : List String} (hp : Ordinary piece)
    (hn : w.node? (here ++ [piece]) = some (.link target)) (hf : rest ≠ [] ∨ follow = true) :
    w.walk follow (links + 1) here (piece :: rest) =
      w.walk follow links (if isAbsolute target then [] else here) (pieces target ++ rest) := by
  rw [walk_name hp, hn]
  exact if_neg (by simpa [List.isEmpty_iff] using fun h => hf.resolve_left (fun hne => hne h))

theorem walk_no_link {piece target : String} {rest : List String} (hp : Ordinary piece)
    (hn : w.node? (here ++ [piece]) = some (.link target)) (hf : rest ≠ [] ∨ follow = true) :
    w.walk follow 0 here (piece :: rest) = .error .tooManyLinks := by
  rw [walk_name hp, hn]
  exact if_neg (by simpa [List.isEmpty_iff] using fun h => hf.resolve_left (fun hne => hne h))

theorem Route.walk_eq {place : Place} (h : Route w follow links here ps place) :
    w.walk follow links here ps = .ok place := by
  induction h with
  | here hn => rw [walk, hn]
  | idle hp _ ih => rw [walk_idle hp, ih]
  | up _ ih => rw [walk_up, ih]
  | free hp hn hrest =>
    rw [walk_name hp, hn]
    exact if_pos hrest
  | into hp hn _ ih => rw [walk_directory hp hn, ih]
  | atLink hp hn hf =>
    rw [walk_name hp, hn]
    simp [hf]
  | through hp hn hf _ ih => rw [walk_link hp hn hf, ih]
  | @last _ _ _ n hp hn hd hl =>
    rw [walk_name hp, hn]
    cases n <;> simp_all [Node.isDirectory, Node.isLink]

/-- walks that end are routes -/
theorem walk_eq_ok_iff {place : Place} :
    w.walk follow links here ps = .ok place ↔ Route w follow links here ps place :=
  ⟨route_of_walk, Route.walk_eq⟩

end

/-! ## what a route ends at -/

def Place.location : Place → Location
  | .found l _ => l
  | .free l _ => l

def Place.node? : Place → Option Node
  | .found _ n => some n
  | .free _ _ => none

section
variable {w w' : Workspace} {follow : Bool} {links : Nat} {here : Location} {ps : List String}

theorem Route.node {place : Place} (h : Route w follow links here ps place) :
    w.node? place.location = place.node? := by
  induction h with
  | here hn => exact hn
  | idle _ _ ih => exact ih
  | up _ ih => exact ih
  | free _ hn _ => exact hn
  | into _ _ _ ih => exact ih
  | atLink _ hn _ => exact hn
  | through _ _ _ _ ih => exact ih
  | last _ hn _ _ => exact hn

theorem Route.found_node {l : Location} {n : Node} (h : Route w follow links here ps (.found l n)) :
    w.node? l = some n := h.node

theorem Route.free_node {l : Location} {b : Bool} (h : Route w follow links here ps (.free l b)) :
    w.node? l = none := h.node

/-! ### a route taken apart at its first piece -/

theorem Route.of_idle {piece : String} {rest : List String} {place : Place}
    (h : Route w follow links here (piece :: rest) place) (hp : piece = "" ∨ piece = ".") :
    Route w follow links here rest place := by
  rw [← walk_eq_ok_iff, walk_idle hp] at h
  exact walk_eq_ok_iff.mp h

theorem Route.of_up {rest : List String} {place : Place} (h : Route w follow links here (".." :: rest) place) :
    Route w follow links here.dropLast rest place := by
  rw [← walk_eq_ok_iff, walk_up] at h
  exact walk_eq_ok_iff.mp h

theorem Route.of_directory {piece : String} {rest : List String} {place : Place} {t : Time}
    (h : Route w follow links here (piece :: rest) place) (hp : Ordinary piece)
    (hn : w.node? (here ++ [piece]) = some (.directory t)) :
    Route w follow links (here ++ [piece]) rest place := by
  rw [← walk_eq_ok_iff, walk_directory hp hn] at h
  exact walk_eq_ok_iff.mp h

theorem Route.of_free {piece : String} {rest : List String} {place : Place}
    (h : Route w follow links here (piece :: rest) place) (hp : Ordinary piece)
    (hn : w.node? (here ++ [piece]) = none) :
    rest.all (· = "") = true ∧ place = .free (here ++ [piece]) !rest.isEmpty := by
  rw [← walk_eq_ok_iff, walk_name hp, hn] at h
  simp only at h
  split at h
  next hi => exact ⟨hi, (Except.ok.inj h).symm⟩
  next => contradiction

theorem Route.of_link {piece target : String} {rest : List String} {place : Place}
    (h : Route w true links here (piece :: rest) place) (hp : Ordinary piece)
    (hn : w.node? (here ++ [piece]) = some (.link target)) :
    ∃ k, links = k + 1 ∧
      Route w true k (if isAbsolute target then [] else here) (pieces target ++ rest) place := by
  rw [← walk_eq_ok_iff] at h
  cases links with
  | zero =>
    rw [walk_no_link hp hn (Or.inr rfl)] at h
    contradiction
  | succ k =>
    rw [walk_link hp hn (Or.inr rfl)] at h
    exact ⟨k, rfl, walk_eq_ok_iff.mp h⟩

theorem Route.of_other {piece : String} {rest : List String} {place : Place} {n : Node}
    (h : Route w follow links here (piece :: rest) place) (hp : Ordinary piece)
    (hn : w.node? (here ++ [piece]) = some n) (hd : n.isDirectory = false) (hl : n.isLink = false) :
    rest = [] ∧ place = .found (here ++ [piece]) n := by
  rw [← walk_eq_ok_iff, walk_name hp, hn] at h
  have hw : (if rest.isEmpty = true then Except.ok (Place.found (here ++ [piece]) n)
      else Except.error FileError.notDirectory) = .ok place := by
    cases n <;> simp_all [Node.isDirectory, Node.isLink]
  split at hw
  next he => exact ⟨List.isEmpty_iff.mp he, (Except.ok.inj hw).symm⟩
  next => contradiction

theorem Route.of_idles {rest : List String} {place : Place} (h : Route w follow links here rest place)
    (hi : rest.all (· = "") = true) : ∃ n, w.node? here = some n ∧ place = .found here n := by
  induction rest with
  | nil =>
    cases h with
    | here hn => exact ⟨_, hn, rfl⟩
  | cons piece rest ih =>
    simp only [List.all_cons, Bool.and_eq_true, decide_eq_true_eq] at hi
    exact ih (h.of_idle (Or.inl hi.1)) hi.2

theorem Route.idles {rest : List String} {n : Node} (hn : w.node? here = some n)
    (hi : rest.all (· = "") = true) : Route w follow links here rest (.found here n) := by
  induction rest with
  | nil => exact .here hn
  | cons piece rest ih =>
    simp only [List.all_cons, Bool.and_eq_true, decide_eq_true_eq] at hi
    exact .idle (Or.inl hi.1) (ih hi.2)

end

end Workspace

end IncrementalLint
