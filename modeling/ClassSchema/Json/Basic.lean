import ClassSchema.Decimal.Notation

/-!
# JSON values

The members of an object are kept in the order written, and a name may occur in it more than once: what a repetition
means is decided where an object is read. A number is an integer or a double.
-/

namespace ClassSchema

/-- A number as JSON writes it. -/
inductive JsonNumber where
  | integer (value : Int)
  | float (value : Float)
  deriving DecidableEq, Repr, Inhabited

/-- A JSON value. -/
inductive Json where
  | null
  | bool (value : Bool)
  | number (value : JsonNumber)
  | string (value : String)
  | array (items : List Json)
  | object (members : List (String × Json))
  deriving Repr, Inhabited

/-- Doubles are written in plain notation from a hundred-thousandth to below ten to the sixteenth. -/
def JsonNumber.floatFormat : FloatNotation := ⟨-5, 15⟩

/-- The text of a number. -/
def JsonNumber.render : JsonNumber → String
  | .integer value => toString value
  | .float value => writeFloat JsonNumber.floatFormat value

end ClassSchema
