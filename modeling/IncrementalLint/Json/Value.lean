/-!
# JSON values

What a JSON text says, for documents whose numbers are integers. A number with a fraction or an
exponent, and a value that needs one half of a surrogate pair, are well formed but no field here
can hold them: both are read as `other`.
-/

namespace IncrementalLint

inductive Json where
  | null
  | bool (b : Bool)
  | int (n : Int)
  | string (s : String)
  | array (items : List Json)
  | object (members : List (String × Json))
  | other
  deriving Inhabited

end IncrementalLint
