/-!
# Maps with their keys in order

A `SortedMap κ α` is a list of entries whose keys increase strictly, so that every map has one
representation and is listed in key order.

* `get?_insert`, `get?_erase`, `get?_filterKeys`  the operations seen through look-up;
* `ext_get?`                                      two maps that answer alike are equal.
-/

namespace IncrementalLint

/-- entries whose keys increase strictly -/
structure SortedMap (κ α : Type) [Ord κ] where
  entries : List (κ × α)
  increasing : entries.Pairwise fun a b => compare a.1 b.1 = .lt

namespace SortedMap

section
variable {κ α β : Type} [Ord κ]

/-! ## on lists of entries -/

/-- the value stored under a key -/
def find (k : κ) : List (κ × α) → Option α
  | [] => none
  | e :: es => if compare k e.1 = .eq then some e.2 else find k es

/-- puts a value in place, over an older one of an equal key -/
def place (k : κ) (v : α) : List (κ × α) → List (κ × α)
  | [] => [(k, v)]
  | e :: es =>
    match compare k e.1 with
    | .lt => (k, v) :: e :: es
    | .eq => (k, v) :: es
    | .gt => e :: place k v es

/-- leaves an equal key out -/
def without (k : κ) (es : List (κ × α)) : List (κ × α) :=
  es.filter fun e => compare k e.1 ≠ .eq

theorem mem_place {k : κ} {v : α} {es : List (κ × α)} {e : κ × α} (h : e ∈ place k v es) :
    e = (k, v) ∨ e ∈ es := by
  induction es with
  | nil => simpa [place] using h
  | cons d ds ih =>
    simp only [place] at h
    split at h
    · simpa using h
    · simp only [List.mem_cons] at h ⊢
      rcases h with h | h
      · exact Or.inl h
      · exact Or.inr (Or.inr h)
    · simp only [List.mem_cons] at h ⊢
      rcases h with h | h
      · exact Or.inr (Or.inl h)
      · rcases ih h with h | h
        · exact Or.inl h
        · exact Or.inr (Or.inr h)

theorem place_increasing [Std.TransOrd κ] (k : κ) (v : α) {es : List (κ × α)}
    (h : es.Pairwise fun a b => compare a.1 b.1 = .lt) :
    (place k v es).Pairwise fun a b => compare a.1 b.1 = .lt := by
  induction es with
  | nil => simp [place]
  | cons d ds ih =>
    rw [List.pairwise_cons] at h
    simp only [place]
    split
    next hlt =>
      rw [List.pairwise_cons]
      refine ⟨fun e he => ?_, List.pairwise_cons.2 h⟩
      rcases List.mem_cons.1 he with rfl | he
      · exact hlt
      · exact Std.TransCmp.lt_trans hlt (h.1 e he)
    next heq =>
      rw [List.pairwise_cons]
      exact ⟨fun e he => Std.TransCmp.lt_of_eq_of_lt heq (h.1 e he), h.2⟩
    next hgt =>
      rw [List.pairwise_cons]
      refine ⟨fun e he => ?_, ih h.2⟩
      rcases mem_place he with rfl | he
      · exact Std.OrientedCmp.lt_of_gt hgt
      · exact h.1 e he

end

section
variable {κ α β : Type} [Ord κ]

/-! ## maps -/

def empty : SortedMap κ α := ⟨[], List.Pairwise.nil⟩

instance : EmptyCollection (SortedMap κ α) := ⟨empty⟩
instance : Inhabited (SortedMap κ α) := ⟨empty⟩

def toList (m : SortedMap κ α) : List (κ × α) := m.entries
def keys (m : SortedMap κ α) : List κ := m.entries.map (·.1)
def values (m : SortedMap κ α) : List α := m.entries.map (·.2)
def size (m : SortedMap κ α) : Nat := m.entries.length
def isEmpty (m : SortedMap κ α) : Bool := m.entries.isEmpty

def get? (m : SortedMap κ α) (k : κ) : Option α := find k m.entries

def contains (m : SortedMap κ α) (k : κ) : Bool := (m.get? k).isSome

def insert [Std.TransOrd κ] (m : SortedMap κ α) (k : κ) (v : α) : SortedMap κ α :=
  ⟨place k v m.entries, place_increasing k v m.increasing⟩

def erase (m : SortedMap κ α) (k : κ) : SortedMap κ α :=
  ⟨without k m.entries, m.increasing.filter _⟩

def filterKeys (m : SortedMap κ α) (p : κ → Bool) : SortedMap κ α :=
  ⟨m.entries.filter fun e => p e.1, m.increasing.filter _⟩

def map (m : SortedMap κ α) (f : κ → α → β) : SortedMap κ β :=
  ⟨m.entries.map fun e => (e.1, f e.1 e.2), List.pairwise_map.2 m.increasing⟩

/-- the entries of a list, the last of equal keys winning -/
def ofList [Std.TransOrd κ] (es : List (κ × α)) : SortedMap κ α :=
  es.foldl (fun m e => m.insert e.1 e.2) empty

instance [DecidableEq κ] [DecidableEq α] : DecidableEq (SortedMap κ α) := fun a b =>
  if h : a.entries = b.entries then
    isTrue (by cases a; cases b; simp_all)
  else
    isFalse (fun e => h (e ▸ rfl))

/-! ## look-up after each operation -/

@[simp] theorem get?_empty (k : κ) : (empty : SortedMap κ α).get? k = none := rfl

theorem find_place [Std.TransOrd κ] (k : κ) (v : α) (es : List (κ × α)) (x : κ) :
    find x (place k v es) = if compare x k = .eq then some v else find x es := by
  induction es with
  | nil => simp [place, find]
  | cons d ds ih =>
    simp only [place]
    split
    next hlt => simp [find]
    next heq =>
      simp only [find]
      have : compare x d.1 = compare x k := (Std.TransCmp.congr_right heq).symm
      by_cases hx : compare x k = .eq <;> simp [hx, this]
    next hgt =>
      simp only [find, ih]
      by_cases hd : compare x d.1 = .eq
      · have : compare x k = .lt := by
          rw [Std.TransCmp.congr_left hd]
          exact Std.OrientedCmp.lt_of_gt hgt
        simp [hd, this]
      · simp [hd]

theorem get?_insert [Std.TransOrd κ] (m : SortedMap κ α) (k : κ) (v : α) (x : κ) :
    (m.insert k v).get? x = if compare x k = .eq then some v else m.get? x :=
  find_place k v m.entries x

theorem find_filter [Std.LawfulEqOrd κ] (p : κ → Bool) (es : List (κ × α)) (x : κ) :
    find x (es.filter fun e => p e.1) = if p x then find x es else none := by
  induction es with
  | nil => simp [find]
  | cons d ds ih =>
    by_cases hx : compare x d.1 = .eq
    · have hd : x = d.1 := Std.LawfulEqCmp.eq_of_compare hx
      by_cases hp : p d.1 <;> simp_all [find]
    · by_cases hp : p d.1 <;> simp_all [find]

theorem get?_filterKeys [Std.LawfulEqOrd κ] (m : SortedMap κ α) (p : κ → Bool) (x : κ) :
    (m.filterKeys p).get? x = if p x then m.get? x else none :=
  find_filter p m.entries x

theorem get?_erase [Std.LawfulEqOrd κ] (m : SortedMap κ α) (k x : κ) :
    (m.erase k).get? x = if compare k x = .eq then none else m.get? x := by
  have := find_filter (fun y => decide (compare k y ≠ .eq)) m.entries x
  by_cases h : compare k x = .eq <;> simp_all [get?, erase, without]

theorem get?_map (m : SortedMap κ α) (f : κ → α → β) (x : κ) [Std.LawfulEqOrd κ] :
    (m.map f).get? x = (m.get? x).map (f x) := by
  show find x (m.entries.map fun e => (e.1, f e.1 e.2)) = (find x m.entries).map (f x)
  induction m.entries with
  | nil => rfl
  | cons d ds ih =>
    by_cases hx : compare x d.1 = .eq
    · have hd : x = d.1 := Std.LawfulEqCmp.eq_of_compare hx
      simp [find, hd]
    · simp only [List.map_cons, find, hx, if_false, ih]

theorem mem_toList_iff [Std.TransOrd κ] [Std.LawfulEqOrd κ] (m : SortedMap κ α) (k : κ) (v : α) :
    (k, v) ∈ m.toList ↔ m.get? k = some v := by
  obtain ⟨es, h⟩ := m
  simp only [toList, get?]
  induction es with
  | nil => simp [find]
  | cons d ds ih =>
    rw [List.pairwise_cons] at h
    by_cases hk : compare k d.1 = .eq
    · have hd : k = d.1 := Std.LawfulEqCmp.eq_of_compare hk
      subst hd
      constructor
      · intro he
        rw [find, if_pos Std.ReflCmp.compare_self]
        rcases List.mem_cons.1 he with he | he
        · rw [← he]
        · exact absurd (h.1 _ he) (by simp [Std.ReflCmp.compare_self])
      · intro he
        rw [find, if_pos Std.ReflCmp.compare_self] at he
        simp [← Option.some.inj he]
    · have hne : k ≠ d.1 := fun e => hk (e ▸ Std.ReflCmp.compare_self)
      simp [find, hk, ← ih h.2, Prod.ext_iff, hne]

theorem ext_get? [Std.TransOrd κ] [Std.LawfulEqOrd κ] {m n : SortedMap κ α}
    (h : ∀ k, m.get? k = n.get? k) : m = n := by
  obtain ⟨es, hes⟩ := m
  obtain ⟨fs, hfs⟩ := n
  have hmem : ∀ e, e ∈ es ↔ e ∈ fs := fun e => by
    have h1 := mem_toList_iff ⟨es, hes⟩ e.1 e.2
    have h2 := mem_toList_iff ⟨fs, hfs⟩ e.1 e.2
    rw [h] at h1
    exact h1.trans h2.symm
  have : es = fs := by
    clear h
    induction es generalizing fs with
    | nil =>
      cases fs with
      | nil => rfl
      | cons f fs => simpa using (hmem f).2 (by simp)
    | cons e es ih =>
      cases fs with
      | nil => simpa using (hmem e).1 (by simp)
      | cons f fs =>
        rw [List.pairwise_cons] at hes hfs
        have hef : e = f := by
          rcases List.mem_cons.1 ((hmem e).1 (by simp)) with h1 | h1
          · exact h1
          · rcases List.mem_cons.1 ((hmem f).2 (by simp)) with h2 | h2
            · exact h2.symm
            · exact absurd (Std.TransCmp.lt_trans (hfs.1 e h1) (hes.1 f h2))
                (by simp [Std.ReflCmp.compare_self])
        subst hef
        rw [ih hes.2 fs hfs.2 fun x => ?_]
        constructor
        · intro hx
          rcases List.mem_cons.1 ((hmem x).1 (by simp [hx])) with h1 | h1
          · exact absurd (hes.1 _ hx) (by simp [h1, Std.ReflCmp.compare_self])
          · exact h1
        · intro hx
          rcases List.mem_cons.1 ((hmem x).2 (by simp [hx])) with h1 | h1
          · exact absurd (hfs.1 _ hx) (by simp [h1, Std.ReflCmp.compare_self])
          · exact h1
  subst this
  rfl

end

end SortedMap

end IncrementalLint
