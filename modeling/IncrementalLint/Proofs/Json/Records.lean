import IncrementalLint.Json.Decode
import IncrementalLint.Proofs.Json.RoundTrip
import IncrementalLint.Proofs.SortedMap

/-!
# Counts, lists and maps in JSON

What is written item by item is read item by item, a map in the order of its keys.

* `asCount?_int`       counts of 64 bits;
* `asList?_map`        lists;
* `asMap?_map`         maps;
* `plain_map`, `plainMembers_map`   both are written as they are.
-/

namespace IncrementalLint.Json

theorem asCount?_int {n : Nat} (h : n < UInt64.size) : asCount? (.int n) = some n := by
  have hrange : (decide ((0 : Int) ≤ n) && decide ((n : Int) ≤ 0xffffffffffffffff)) = true := by
    rw [UInt64.size] at h
    rw [Bool.and_eq_true, decide_eq_true_eq, decide_eq_true_eq]
    omega
  simp only [asCount?, asIntIn?, asInt?, Option.filter, hrange, if_true, Option.map_some, Int.toNat_natCast]

section
variable {α : Type} {item : Json → Option α} {write : α → Json}

theorem asList?_map (h : ∀ a, item (write a) = some a) (as : List α) :
    asList? item (.array (as.map write)) = some as := by
  rw [asList?]
  induction as with
  | nil => rfl
  | cons a as ih =>
    rw [List.map_cons, List.mapM_cons, h, ih]
    rfl

theorem asMap?_map (h : ∀ a, item (write a) = some a) (m : SortedMap String α) :
    asMap? item (.object (m.toList.map fun e => (e.1, write e.2))) = some m := by
  have hmembers (es : List (String × α)) :
      (es.map fun e => (e.1, write e.2)).mapM (fun x => (item x.2).map (x.1, ·)) = some es := by
    induction es with
    | nil => rfl
    | cons e es ih =>
      rw [List.map_cons, List.mapM_cons, h, ih]
      rfl
  rw [asMap?, hmembers, Option.map_some, SortedMap.ofList_toList]

theorem plain_map (h : ∀ a, plain (write a) = true) (as : List α) :
    plain (.array (as.map write)) = true := by
  rw [plain]
  induction as with
  | nil => rfl
  | cons a as ih => rw [List.map_cons, plainItems, h, ih, Bool.and_self]

theorem plainMembers_map (h : ∀ a, plain (write a) = true) (es : List (String × α)) :
    plainMembers (es.map fun e => (e.1, write e.2)) = true := by
  induction es with
  | nil => rfl
  | cons e es ih => rw [List.map_cons, plainMembers, h, ih, Bool.and_self]

end

end IncrementalLint.Json
