/-!
# Property paths: where in a class something is found

A path starts at a class and goes into properties and into the items of lists, as in
`Compartment.subcompartments[].area`. A path is a list of steps, and two paths are equal if their steps are: the text
of a path alone may be ambiguous where names hold dots or brackets.
-/

namespace ClassSchema

/-- One step of a path. -/
inductive PathStep where
  /-- To the class or the property of a name. -/
  | name (name : String)
  /-- To the items of a list. -/
  | items
  deriving DecidableEq, Repr

/-- The way from a class to a place inside it; the empty path stands for no place in particular. -/
structure PropertyPath where
  steps : List PathStep
  deriving DecidableEq, Repr

namespace PropertyPath

/-- The path with no steps. -/
def empty : PropertyPath := ⟨[]⟩

/-- The path of a class itself. -/
def root (className : String) : PropertyPath := ⟨[.name className]⟩

/-- One step on, to a property. -/
def property (path : PropertyPath) (name : String) : PropertyPath := ⟨path.steps ++ [.name name]⟩

/-- One step on, to the items of a list. -/
def items (path : PropertyPath) : PropertyPath := ⟨path.steps ++ [.items]⟩

/-- The text of a step that is not the first: a dot stands before a name. -/
def stepText : PathStep → String
  | .name name => "." ++ name
  | .items => "[]"

/-- The text of a path: no dot stands before a name at its start. -/
def render (path : PropertyPath) : String :=
  match path.steps with
  | .name name :: steps => name ++ String.join (steps.map stepText)
  | steps => String.join (steps.map stepText)

end PropertyPath

end ClassSchema
