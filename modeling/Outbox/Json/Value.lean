/-!
JSON values: numbers with a fraction are kept as written, objects in the order of their entries.
-/

namespace Outbox.Json

/-- Text is absent where it escapes half of a surrogate pair. -/
inductive Value where
  | null
  | flag (b : Bool)
  | integer (n : Int)
  /-- Minus zero, or a number with a fraction or an exponent. -/
  | decimal (source : String)
  | text (s : Option String)
  | list (items : List Value)
  | object (entries : List (Option String × Value))

end Outbox.Json
