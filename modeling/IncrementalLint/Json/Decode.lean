import IncrementalLint.Json.Value
import IncrementalLint.SortedMap

/-!
# Records in JSON

A record is written as an object, or as the list of its fields in their order. In an object a
field may be missing if it has a default, keys without a field are passed over, and no field comes
twice. In a list only fields with defaults may be missing, from the end.

* `Fields.ofJson?`      the written fields of a record, by name;
* `Fields.required?`    a field without a default;
* `Fields.withDefault?` a field with one.
-/

namespace IncrementalLint.Json

/-! ## plain values -/

def asString? : Json → Option String
  | .string s => some s
  | _ => none

def asInt? : Json → Option Int
  | .int n => some n
  | _ => none

def asIntIn? (low high : Int) (v : Json) : Option Int :=
  v.asInt?.filter fun n => decide (low ≤ n) && decide (n ≤ high)

/-- a count that fits into 64 bits -/
def asCount? (v : Json) : Option Nat := (v.asIntIn? 0 0xffffffffffffffff).map Int.toNat

def asInt32? (v : Json) : Option Int32 :=
  (v.asIntIn? Int32.minValue.toInt Int32.maxValue.toInt).map Int32.ofInt

def asList? (item : Json → Option α) : Json → Option (List α)
  | .array items => items.mapM item
  | _ => none

/-- an object read as a map, the last of equal keys winning -/
def asMap? (item : Json → Option α) : Json → Option (SortedMap String α)
  | .object members => (members.mapM fun m => (item m.2).map (m.1, ·)).map SortedMap.ofList
  | _ => none

/-- null for no value -/
def asOption? (item : Json → Option α) : Json → Option (Option α)
  | .null => some none
  | v => (item v).map some

/-! ## records -/

/-- the written fields of a record, by name -/
structure Fields where
  members : List (String × Json)

namespace Fields

def find? (fs : Fields) (name : String) : Option Json :=
  (fs.members.find? fun m => m.1 == name).map (·.2)

/-- whether no field of `names` is written twice -/
def distinct (names : List String) (members : List (String × Json)) : Bool :=
  names.all fun n => (members.filter fun m => m.1 == n).length ≤ 1

def ofJson? (names : List String) : Json → Option Fields
  | .object members => if distinct names members then some ⟨members⟩ else none
  | .array items => if items.length ≤ names.length then some ⟨names.zip items⟩ else none
  | _ => none

def required? (fs : Fields) (name : String) (item : Json → Option α) : Option α :=
  (fs.find? name).bind item

def withDefault? (fs : Fields) (name : String) (default : α) (item : Json → Option α) : Option α :=
  (fs.find? name).elim (some default) item

end Fields

end IncrementalLint.Json
