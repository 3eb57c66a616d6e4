import IncrementalLint.Toml.Value

/-!
# Records in TOML

A record is written as a table, or as the list of its fields in their order. Keys without a field,
and items behind the last field, are passed over. A date is a table with a key of its own, so it
has none of the fields of a record.
-/

namespace IncrementalLint.Toml

/-! ## plain values -/

def asString? : Toml → Option String
  | .string s => some s
  | _ => none

def asBool? : Toml → Option Bool
  | .boolean b => some b
  | _ => none

def asCount? : Toml → Option Nat
  | .integer (.ofNat n) => some n
  | _ => none

def asList? (item : Toml → Option α) : Toml → Option (List α)
  | .array items => items.mapM item
  | .tables items => items.mapM item
  | _ => none

/-! ## records -/

/-- the written fields of a record, by name -/
structure Fields where
  members : List (String × Toml)

namespace Fields

def ofToml? (names : List String) : Toml → Option Fields
  | .table _ members => some ⟨members⟩
  | .array items => some ⟨names.zip items⟩
  | .tables items => some ⟨names.zip items⟩
  | .datetime => some ⟨[]⟩
  | _ => none

def required? (fs : Fields) (name : String) (item : Toml → Option α) : Option α :=
  (member? fs.members name).bind item

def withDefault? (fs : Fields) (name : String) (default : α) (item : Toml → Option α) : Option α :=
  (member? fs.members name).elim (some default) item

end Fields

end IncrementalLint.Toml
