import ClassSchema.PropertyPath
import ClassSchema.Scalar
import ClassSchema.TypeExpr.SyntaxError

/-!
# Why a class has no schema

A failure says where it was found and what is wrong there. It ends the whole expansion: no part of a schema is kept.
-/

namespace ClassSchema

/-- Why a type that is written correctly has no schema. -/
inductive Refusal where
  /-- A generic with more than one argument. -/
  | arity (source : SyntaxError)
  /-- A generic other than `array`. -/
  | genericBase (base : String)
  /-- A tuple whose elements have different types. -/
  | mixedTuple (first other : Scalar)
  /-- An element of a tuple that is not of a built-in type. -/
  | compoundElement
  deriving DecidableEq, Repr

/-- The words for a refusal. -/
def Refusal.text : Refusal → String
  | .arity source => source.message
  | .genericBase base => s!"generic `{base}` is not supported, only `array<T>`"
  | .mixedTuple first other => s!"mixed tuple elements `{first.jsonType}` and `{other.jsonType}`"
  | .compoundElement => "tuple elements must be scalar types"

/-- What is wrong in a class. -/
inductive SchemaFault where
  /-- The annotation of a property is not well formed. -/
  | malformed (source : SyntaxError)
  /-- A type has no schema; it is given as written. -/
  | unsupported (written : String) (reason : Refusal)
  /-- A property has no annotation or several. -/
  | annotationCount (found : Nat)
  /-- A name is that of no class, enumeration or scalar. -/
  | unknownReference (name : String)
  /-- A class is inside itself: from it, class by class, back to it. -/
  | cycle (chain : List String)
  /-- More classes inside one another than the limit allows. -/
  | depthLimit (limit : Nat)
  deriving DecidableEq, Repr

/-- What is wrong, and where. -/
structure SchemaError where
  path : PropertyPath
  fault : SchemaFault
  deriving DecidableEq, Repr

/-- The fault of a property whose annotation is refused by its reader. -/
def SchemaFault.ofSyntaxError (written : String) (e : SyntaxError) : SchemaFault :=
  if e.isUnsupported then .unsupported written (.arity e) else .malformed e

/-- The words for a fault. -/
def SchemaFault.message : SchemaFault → String
  | .malformed source => s!"malformed type annotation: {source.message}"
  | .unsupported written reason => s!"unsupported type `{written}`: {reason.text}"
  | .annotationCount found => s!"expected exactly one type annotation, found {found}"
  | .unknownReference name => s!"unknown type `{name}` (not a registered class, enum, or scalar)"
  | .cycle chain => "class cycle " ++ " -> ".intercalate chain
  | .depthLimit limit => s!"class nesting deeper than {limit}"

/-- The words for a failure. -/
def SchemaError.message (e : SchemaError) : String := e.path.render ++ ": " ++ e.fault.message

end ClassSchema
