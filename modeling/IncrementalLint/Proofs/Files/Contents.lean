import IncrementalLint.Proofs.Files.Parents

/-!
# Contents of files

A path that does not go up behind a name has only directories and links on its way that its end
depends on. So a node that such a path leads to now was found by it whenever it was there.

* `Straight`                no step of a path goes up behind a name;
* `Tree.find_back`          what is found now and was there was found then;
* `Advances.content?_back`  what is older than a moment held the same then;
* `Edited.content?_eq`      elsewhere than at what is new, files hold what they held.
-/

namespace IncrementalLint

/-- what a node holds, if it can be read -/
def Node.content? : Node → Option ByteArray
  | .file content _ _ => some content
  | .directory _ => none
  | .device .zero => none
  | _ => some ByteArray.empty

namespace Workspace

/-- no step of a path goes up behind a name -/
inductive Straight : List String → Prop
  | names {ps : List String} (h : ".." ∉ ps) : Straight ps
  | step {piece : String} {rest : List String} (hp : piece = "" ∨ piece = "." ∨ piece = "..")
      (h : Straight rest) : Straight (piece :: rest)

/-- nor does a link -/
def StraightLinks (w : Workspace) : Prop :=
  ∀ {l : Location} {target : String}, w.node? l = some (.link target) → Straight (pieces target)

def content? (w : Workspace) (p : Path) : Option ByteArray := (w.read p).toOption

section
variable {w w' : Workspace} {p : Path} {l : Location} {n : Node} {content : ByteArray}

theorem SameLinks.straight (hs : SameLinks w w') (h : StraightLinks w) : StraightLinks w' :=
  fun hl => h (hs.links.mp hl)

section
variable {piece : String} {ps rest : List String}

theorem Straight.of_step (h : Straight (piece :: rest)) : Straight rest := by
  cases h with
  | names h => exact .names fun hm => h (List.mem_cons_of_mem _ hm)
  | step _ h => exact h

theorem Straight.of_name (hp : Ordinary piece) (h : Straight (piece :: rest)) : ".." ∉ rest := by
  cases h with
  | names h => exact fun hm => h (List.mem_cons_of_mem _ hm)
  | step hp' _ =>
    rcases hp' with rfl | rfl | rfl
    · exact absurd rfl hp.1
    · exact absurd rfl hp.2.1
    · exact absurd rfl hp.2.2.1

theorem Straight.append (h : Straight ps) (hr : ".." ∉ rest) : Straight (ps ++ rest) := by
  induction h with
  | names h =>
    refine .names fun hm => ?_
    rcases List.mem_append.mp hm with hm | hm
    · exact h hm
    · exact hr hm
  | step hp _ ih => exact .step hp ih

end

/-! ## back to an earlier moment -/

/-- a route that goes up at its start only was there if its end was: what lies on its way lies above
a link or above the end -/
theorem Route.back {links : Nat} {here : Location} {ps : List String} (ht : Tree w) (ht' : Tree w')
    (hs : SameLinks w w') (hlinks : StraightLinks w') (hps : Straight ps)
    (hh : ∃ t, w'.node? here = some (.directory t)) (h : Route w' true links here ps (.found l n))
    (hn : w.node? l = some n) :
    (".." ∉ ps → ∃ t, w.node? here = some (.directory t)) ∧ Route w true links here ps (.found l n) := by
  generalize hplace : Place.found l n = place at h
  induction h with
  | here hn' =>
    obtain ⟨rfl, rfl⟩ := Place.found.inj hplace
    obtain ⟨t, hh⟩ := hh
    exact ⟨fun _ => ⟨t, hn.trans (hn'.symm.trans hh)⟩, .here hn⟩
  | idle hp _ ih =>
    obtain ⟨hd, hr⟩ := ih hps.of_step hh hplace
    exact ⟨fun hm => hd fun hm' => hm (List.mem_cons_of_mem _ hm'), .idle hp hr⟩
  | up _ ih =>
    obtain ⟨_, hr⟩ := ih hps.of_step (ht'.dropLast hh) hplace
    exact ⟨fun hm => absurd List.mem_cons_self hm, .up hr⟩
  | free _ _ _ => contradiction
  | into hp hd' _ ih =>
    have hrest := hps.of_name hp
    obtain ⟨hd, hr⟩ := ih (.names hrest) ⟨_, hd'⟩ hplace
    obtain ⟨t, hd⟩ := hd hrest
    exact ⟨fun _ => ht.parent hd, .into hp hd hr⟩
  | atLink _ _ hf => contradiction
  | @through _ here _ target rest _ hp hl hf _ ih =>
    have hstart : ∃ t, w'.node? (if isAbsolute target then [] else here) = some (.directory t) := by
      split
      · exact ht'.root
      · exact hh
    obtain ⟨_, hr⟩ := ih ((hlinks hl).append (hps.of_name hp)) hstart hplace
    exact ⟨fun _ => ht.parent (hs.links.mp hl), .through hp (hs.links.mp hl) hf hr⟩
  | last hp _ hd hlink =>
    obtain ⟨rfl, rfl⟩ := Place.found.inj hplace
    exact ⟨fun _ => ht.parent hn, .last hp hn hd hlink⟩

theorem Tree.find_back (ht : Tree w) (ht' : Tree w') (hs : SameLinks w w') (hlinks : StraightLinks w')
    (hp : Straight (pieces p.text)) (h : w'.find p = .ok (l, n)) (hn : w.node? l = some n) :
    w.find p = .ok (l, n) := by
  obtain ⟨hu, hr⟩ := locate_eq_ok_iff.mp (find_eq_ok_iff.mp h)
  have hstart : w'.start p = w.start p := by rw [Workspace.start, Workspace.start, hs.cwd]
  obtain ⟨_, hr'⟩ := hr.back ht ht' hs hlinks hp (ht'.start p) hn
  rw [hstart] at hr'
  exact find_eq_ok_iff.mpr (locate_eq_ok_iff.mpr ⟨hu, hr'⟩)

/-! ## what is read -/

theorem content?_of_find (h : w.find p = .ok (l, n)) : w.content? p = n.content? := by
  unfold content? read
  rw [h]
  cases n with
  | device kind => cases kind <;> rfl
  | _ => rfl

theorem content?_of_error {e : FileError} (h : w.find p = .error e) : w.content? p = none := by
  unfold content? read
  rw [h]
  rfl

/-- what is found to be older than a moment held the same then -/
theorem Advances.content?_back (h : Advances w w') (ht : Tree w) (ht' : Tree w')
    (hlinks : StraightLinks w') (hp : Straight (pieces p.text)) (hf : w'.find p = .ok (l, n))
    (hold : n.modified < w.clock) : w.content? p = w'.content? p := by
  have hn := h.same (node_of_find hf) hold
  rw [content?_of_find hf, content?_of_find (ht.find_back ht' h.sameLinks hlinks hp hf hn)]

/-- elsewhere than at what is new, files go on holding what they hold -/
theorem Edited.content?_eq {new : Location → Prop} (h : Edited w w' new) (hk : Keeps w w') (ht : Tree w)
    (ht' : Tree w') (hlinks : StraightLinks w') (hp : Straight (pieces p.text))
    (hnew : ∀ l, LeadsTo w p l → ¬new l) : w'.content? p = w.content? p := by
  cases hf' : w'.find p with
  | error e' =>
    cases hf : w.find p with
    | error e => rw [content?_of_error hf, content?_of_error hf']
    | ok x =>
      obtain ⟨n', hf'', _⟩ := hk.find hf
      exact absurd (hf'.symm.trans hf'') (by simp)
  | ok x =>
    obtain ⟨l, n⟩ := x
    rcases h.others (node_of_find hf') with hn | hd | hl
    · rw [content?_of_find hf', content?_of_find (ht.find_back ht' h.sameLinks hlinks hp hf' hn)]
    · rw [content?_of_find hf']
      cases hf : w.find p with
      | error e =>
        rw [content?_of_error hf]
        cases n <;> simp_all [Node.isDirectory, Node.content?]
      | ok y =>
        obtain ⟨n', hf'', ha⟩ := hk.find (l := y.1) (n := y.2) hf
        obtain ⟨_, rfl⟩ := found_unique hf'' hf'
        rw [content?_of_find (l := y.1) (n := y.2) hf]
        rw [ha.isDirectory] at hd
        cases hy : y.2 <;> cases n <;> simp_all [Node.isDirectory, Node.content?, Node.Alike]
    · exact absurd hl (hnew l (h.sameLinks.leadsTo_iff.mp (leadsTo_of_find hf')))

end

end Workspace

end IncrementalLint
