/-!
# Paths in a JSON text

A path says which value of a text is meant: from the outermost value through the members of objects and the items of
arrays. While the name of a member is still being looked for, the step to it is unknown.
-/

namespace ClassSchema

/-- One step of a path into a JSON text. -/
inductive JsonStep where
  | member (name : String)
  | item (index : Nat)
  | unknown
  deriving DecidableEq, Repr

/-- The steps from the outermost value to the one that is meant. -/
abbrev JsonPath := List JsonStep

/-- The text of a step that is not the first. -/
def JsonStep.text : JsonStep → String
  | .member name => "." ++ name
  | .item index => "[" ++ toString index ++ "]"
  | .unknown => ".?"

/-- The text of a path: a dot alone for the outermost value, and no dot before the first name. -/
def JsonPath.render : JsonPath → String
  | [] => "."
  | .member name :: steps => name ++ String.join (steps.map JsonStep.text)
  | .unknown :: steps => "?" ++ String.join (steps.map JsonStep.text)
  | steps => String.join (steps.map JsonStep.text)

end ClassSchema
