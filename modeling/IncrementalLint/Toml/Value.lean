/-!
# TOML values

A document is a table. How a table came about decides what may still be added to it:

* `inline`    written between braces, closed;
* `explicit`  named by a header, or the document itself;
* `implicit`  only passed through by a header;
* `dotted`    made by a dotted key.

`Toml.insert?` adds a key below a path of dotted keys, `Toml.openTable?` and `Toml.openItem?` make
room for what follows a header.
-/

namespace IncrementalLint

inductive TableKind where
  | inline
  | explicit
  | implicit
  | dotted
  deriving DecidableEq, Inhabited

inductive Toml where
  | string (s : String)
  | integer (n : Int)
  | float
  | boolean (b : Bool)
  | datetime
  | array (items : List Toml)
  | table (kind : TableKind) (members : List (String × Toml))
  | tables (items : List Toml)
  deriving Inhabited

namespace Toml

abbrev Members := List (String × Toml)

def member? (ms : Members) (key : String) : Option Toml := (ms.find? fun m => m.1 == key).map (·.2)

/-- puts a value in the place of the one of an equal key, or at the end -/
def setMember (ms : Members) (key : String) (v : Toml) : Members :=
  if ms.any fun m => m.1 == key then ms.map fun m => if m.1 == key then (key, v) else m
  else ms ++ [(key, v)]

/-! ## dotted keys -/

/-- adds a key to the table that a path of dotted keys leads to, `start` telling that the path is
still at its first table -/
def insert? (start : Bool) (key : String) (v : Toml) : List String → Toml → Option Toml
  | [], .table kind ms =>
    if (kind == .dotted) == start then none
    else if (member? ms key).isSome then none
    else some (.table kind (ms ++ [(key, v)]))
  | p :: path, .table kind ms =>
    match member? ms p with
    | none => do
      let new ← insert? false key v path (.table .dotted [])
      return .table kind (ms ++ [(p, new)])
    | some (.table .implicit inner) => do
      let new ← insert? false key v path (.table .implicit inner)
      return .table kind (setMember ms p new)
    | some (.table .dotted inner) => do
      let new ← insert? false key v path (.table .dotted inner)
      return .table kind (setMember ms p new)
    | some (.tables items) => do
      let last ← items.getLast?
      let new ← insert? false key v path last
      return .table kind (setMember ms p (.tables (items.dropLast ++ [new])))
    | some _ => none
  | _, _ => none

/-! ## headers -/

/-- rewrites the table that a path of header keys leads to, making the tables on the way -/
def below? (f : Toml → Option Toml) : List String → Toml → Option Toml
  | [], t => f t
  | p :: path, .table kind ms =>
    match member? ms p with
    | none => do
      let new ← below? f path (.table .implicit [])
      return .table kind (ms ++ [(p, new)])
    | some (.table .inline _) => none
    | some (.table k inner) => do
      let new ← below? f path (.table k inner)
      return .table kind (setMember ms p new)
    | some (.tables items) => do
      let last ← items.getLast?
      let new ← below? f path last
      return .table kind (setMember ms p (.tables (items.dropLast ++ [new])))
    | some _ => none
  | _ :: _, _ => none

/-- makes the table that a header names -/
def openTable? (path : List String) (key : String) (t : Toml) : Option Toml :=
  below? (fun parent =>
    match parent with
    | .table kind ms =>
      match member? ms key with
      | none => some (.table kind (ms ++ [(key, .table .explicit [])]))
      | some (.table .implicit inner) => some (.table kind (setMember ms key (.table .explicit inner)))
      | some _ => none
    | _ => none) path t

/-- adds a table to the list of tables that a header names -/
def openItem? (path : List String) (key : String) (t : Toml) : Option Toml :=
  below? (fun parent =>
    match parent with
    | .table kind ms =>
      match member? ms key with
      | none => some (.table kind (ms ++ [(key, .tables [.table .explicit []])]))
      | some (.tables items) =>
        some (.table kind (setMember ms key (.tables (items ++ [.table .explicit []]))))
      | some _ => none
    | _ => none) path t

/-- adds a key, below a path of dotted keys, to the table of the current header -/
def addKey? (header path : List String) (key : String) (v : Toml) (t : Toml) : Option Toml :=
  below? (insert? path.isEmpty key v path) header t

end Toml

end IncrementalLint
