import IncrementalLint.SortedMap
import Mathlib.Data.List.Induction

/-!
# Maps from lists

* `ofList_toList`            a map put together from its own entries;
* `get?_ofList_iff`          look-up where no key comes twice;
* `get?_ofList_iff_last`     look-up where keys may come again: the last one counts;
* `get?_ofList_map`          look-up where keys have the values of a function;
* `ofList_perm`              the order of the list does not show in the map;
* `mem_of_get?_ofList`       what is found stands in the list;
* `find?_eq_some_iff_least`  what comes first in a list in order;
* `nodup_keys`               no key comes twice in a map.
-/

namespace IncrementalLint.SortedMap

section
variable {κ α : Type} [Ord κ]

theorem place_last {k : κ} {v : α} {es : List (κ × α)} (h : ∀ e ∈ es, compare k e.1 = .gt) :
    place k v es = es ++ [(k, v)] := by
  induction es with
  | nil => rfl
  | cons d ds ih =>
    have hd := h d List.mem_cons_self
    simp only [place, hd]
    rw [ih fun e he => h e (List.mem_cons_of_mem _ he)]
    rfl

theorem eq_of_entries {m n : SortedMap κ α} (h : m.entries = n.entries) : m = n := by
  cases m
  cases n
  cases h
  rfl

theorem compare_eq_iff [Std.LawfulEqOrd κ] (a b : κ) : compare a b = .eq ↔ a = b :=
  ⟨Std.LawfulEqCmp.eq_of_compare, fun h => h ▸ Std.ReflCmp.compare_self⟩

theorem length_keys (m : SortedMap κ α) : m.keys.length = m.size := List.length_map _

theorem nodup_keys [Std.LawfulEqOrd κ] (m : SortedMap κ α) : m.keys.Nodup := by
  rw [keys, List.Nodup, List.pairwise_map]
  refine m.increasing.imp fun {a b} h he => ?_
  rw [(compare_eq_iff a.1 b.1).mpr he] at h
  contradiction

variable [Std.TransOrd κ]

/-- in a list that increases by a key, the first element of a kind is the least one -/
theorem find?_eq_some_iff_least {key : α → κ} {es : List α}
    (h : es.Pairwise fun a b => compare (key a) (key b) = .lt) {kind : α → Bool} {a : α} :
    es.find? kind = some a ↔
      a ∈ es ∧ kind a = true ∧ ∀ b ∈ es, compare (key b) (key a) = .lt → kind b = false := by
  rw [List.find?_eq_some_iff_append]
  constructor
  · rintro ⟨ha, front, back, rfl, hfront⟩
    refine ⟨by simp, ha, fun b hb hlt => ?_⟩
    rcases List.mem_append.mp hb with hb | hb
    · simpa using hfront b hb
    · rcases List.mem_cons.mp hb with rfl | hb
      · exact absurd (hlt.symm.trans Std.ReflCmp.compare_self) (by simp)
      · have hgt := (List.pairwise_cons.mp (List.pairwise_append.mp h).2.1).1 b hb
        rw [Std.OrientedCmp.gt_of_lt hlt] at hgt
        contradiction
  · rintro ⟨ha, hkind, hleast⟩
    obtain ⟨front, back, rfl⟩ := List.append_of_mem ha
    refine ⟨hkind, front, back, rfl, fun b hb => ?_⟩
    have hlt := (List.pairwise_append.mp h).2.2 b hb a List.mem_cons_self
    simpa using hleast b (List.mem_append_left _ hb) hlt

/-- keys behind all others are put at the end -/
theorem entries_foldl_insert (m : SortedMap κ α) (es : List (κ × α))
    (h : (m.entries ++ es).Pairwise fun a b => compare a.1 b.1 = .lt) :
    (es.foldl (fun m e => m.insert e.1 e.2) m).entries = m.entries ++ es := by
  induction es generalizing m with
  | nil => simp
  | cons e es ih =>
    have hlast : (m.insert e.1 e.2).entries = m.entries ++ [e] := by
      refine place_last fun d hd => Std.OrientedCmp.gt_of_lt ?_
      rw [List.pairwise_append] at h
      exact h.2.2 d hd e List.mem_cons_self
    rw [List.foldl_cons, ih, hlast, List.append_assoc]
    · rfl
    · rwa [hlast, List.append_assoc]

theorem ofList_toList (m : SortedMap κ α) : ofList m.toList = m := by
  refine eq_of_entries ?_
  have h := entries_foldl_insert (empty : SortedMap κ α) m.entries m.increasing
  exact h

variable [Std.LawfulEqOrd κ]

theorem get?_foldl_insert (m : SortedMap κ α) (es : List (κ × α)) (k : κ) (v : α)
    (h : (es.foldl (fun m e => m.insert e.1 e.2) m).get? k = some v) :
    (k, v) ∈ es ∨ m.get? k = some v := by
  induction es generalizing m with
  | nil => exact Or.inr h
  | cons e es ih =>
    rcases ih _ h with he | he
    · exact Or.inl (List.mem_cons_of_mem _ he)
    · rw [get?_insert] at he
      split at he
      next hk =>
        rw [compare_eq_iff] at hk
        obtain ⟨k', v'⟩ := e
        obtain rfl : k = k' := hk
        obtain rfl : v' = v := by simpa using he
        exact Or.inl List.mem_cons_self
      next => exact Or.inr he

theorem mem_of_get?_ofList {es : List (κ × α)} {k : κ} {v : α} (h : (ofList es).get? k = some v) :
    (k, v) ∈ es := by
  rcases get?_foldl_insert empty es k v h with h | h
  · exact h
  · exact absurd h (by simp)

theorem get?_foldl_insert_other (m : SortedMap κ α) (es : List (κ × α)) {k : κ}
    (h : k ∉ es.map (·.1)) : (es.foldl (fun m e => m.insert e.1 e.2) m).get? k = m.get? k := by
  induction es generalizing m with
  | nil => rfl
  | cons e es ih =>
    rw [List.map_cons, List.mem_cons, not_or] at h
    rw [List.foldl_cons, ih _ h.2, get?_insert, if_neg]
    rw [compare_eq_iff]
    exact h.1

theorem get?_foldl_insert_mem (m : SortedMap κ α) {es : List (κ × α)} (hd : (es.map (·.1)).Nodup)
    {k : κ} {v : α} (h : (k, v) ∈ es) :
    (es.foldl (fun m e => m.insert e.1 e.2) m).get? k = some v := by
  induction es generalizing m with
  | nil => exact absurd h (by simp)
  | cons e es ih =>
    rw [List.map_cons, List.nodup_cons] at hd
    rw [List.foldl_cons]
    rcases List.mem_cons.mp h with rfl | h
    · rw [get?_foldl_insert_other _ _ hd.1, get?_insert, if_pos Std.ReflCmp.compare_self]
    · exact ih _ hd.2 h

theorem mem_keys_iff {m : SortedMap κ α} {k : κ} : k ∈ m.keys ↔ (m.get? k).isSome = true := by
  rw [keys, List.mem_map, Option.isSome_iff_exists]
  constructor
  · rintro ⟨e, he, rfl⟩
    exact ⟨e.2, (mem_toList_iff m e.1 e.2).mp he⟩
  · rintro ⟨v, hv⟩
    exact ⟨(k, v), (mem_toList_iff m k v).mpr hv, rfl⟩

/-- look-up where no key comes twice -/
theorem get?_foldl_insert_isSome (m : SortedMap κ α) {es : List (κ × α)} {k : κ}
    (h : k ∈ es.map (·.1) ∨ (m.get? k).isSome = true) :
    ((es.foldl (fun m e => m.insert e.1 e.2) m).get? k).isSome = true := by
  induction es generalizing m with
  | nil => exact h.resolve_left (by simp)
  | cons e es ih =>
    rw [List.foldl_cons]
    refine ih _ ?_
    rw [get?_insert]
    by_cases hk : k = e.1
    · exact Or.inr (by simp [hk])
    · rcases h with h | h
      · exact Or.inl ((List.mem_cons.mp h).resolve_left hk)
      · rw [if_neg (fun hc => hk ((compare_eq_iff k e.1).mp hc))]
        exact Or.inr h

/-- look-up where the keys of a list have the values that a function gives them -/
theorem get?_foldl_insert_map [DecidableEq κ] (m : SortedMap κ α) (f : κ → α) (ks : List κ) (x : κ) :
    ((ks.map fun k => (k, f k)).foldl (fun m e => m.insert e.1 e.2) m).get? x =
      if x ∈ ks then some (f x) else m.get? x := by
  induction ks generalizing m with
  | nil => simp
  | cons k ks ih =>
    rw [List.map_cons, List.foldl_cons, ih, get?_insert]
    by_cases hx : x ∈ ks
    · simp [hx]
    · by_cases he : x = k
      · simp [he]
      · simp [hx, he]

theorem get?_ofList_map [DecidableEq κ] (f : κ → α) (ks : List κ) (x : κ) :
    (ofList (ks.map fun k => (k, f k))).get? x = if x ∈ ks then some (f x) else none :=
  get?_foldl_insert_map empty f ks x

/-- every key of a list has a value, of those that stand with it -/
theorem exists_get?_ofList {es : List (κ × α)} {k : κ} {v : α} (h : (k, v) ∈ es) :
    ∃ v', (ofList es).get? k = some v' :=
  Option.isSome_iff_exists.mp (get?_foldl_insert_isSome empty (Or.inl (List.mem_map_of_mem h)))

theorem get?_ofList_iff {es : List (κ × α)} (hd : (es.map (·.1)).Nodup) {k : κ} {v : α} :
    (ofList es).get? k = some v ↔ (k, v) ∈ es :=
  ⟨mem_of_get?_ofList, get?_foldl_insert_mem empty hd⟩

/-- of the values that stand with a key, the last one counts -/
theorem get?_ofList_iff_last {es : List (κ × α)} {k : κ} {v : α} :
    (ofList es).get? k = some v ↔ ∃ front back, es = front ++ (k, v) :: back ∧ k ∉ back.map (·.1) := by
  constructor
  · intro h
    induction es using List.reverseRecOn with
    | nil => exact absurd h (by simp [ofList])
    | append_singleton es e ih =>
      rw [ofList, List.foldl_append, List.foldl_cons, List.foldl_nil, get?_insert] at h
      split at h
      next hk =>
        obtain rfl := (compare_eq_iff k e.1).mp hk
        exact ⟨es, [], by rw [← Option.some.inj h], by simp⟩
      next hk =>
        obtain ⟨front, back, rfl, hback⟩ := ih h
        refine ⟨front, back ++ [e], by simp, ?_⟩
        rw [List.map_append, List.mem_append, not_or]
        exact ⟨hback, by simpa using mt (compare_eq_iff k e.1).mpr hk⟩
  · rintro ⟨front, back, rfl, hback⟩
    rw [ofList, List.foldl_append, List.foldl_cons, get?_foldl_insert_other _ _ hback, get?_insert,
      if_pos Std.ReflCmp.compare_self]

/-- the order of a list in which no key comes twice does not show -/
theorem ofList_perm {es es' : List (κ × α)} (h : es'.Perm es) (hd : (es.map (·.1)).Nodup) :
    ofList es' = ofList es := by
  have hd' : (es'.map (·.1)).Nodup := (h.map _).nodup_iff.mpr hd
  refine ext_get? fun k => Option.ext fun v => ?_
  rw [get?_ofList_iff hd', get?_ofList_iff hd, h.mem_iff]

end

end IncrementalLint.SortedMap
