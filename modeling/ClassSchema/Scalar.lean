/-!
# Scalars: the built-in types

Seven names stand for built-in types, and each of them becomes one JSON type. The table is fixed: a name outside it is
no scalar, whatever its case, and two scalars never share a name or a JSON type.
-/

namespace ClassSchema

/-- A built-in type. -/
inductive Scalar where
  | null | bool | int | float | string | array | object
  deriving DecidableEq, Repr

namespace Scalar

/-- The scalars, in the order of the table. -/
def all : List Scalar := [null, bool, int, float, string, array, object]

/-- The name of a scalar in an annotation. -/
def name : Scalar → String
  | null => "null"
  | bool => "bool"
  | int => "int"
  | float => "float"
  | string => "string"
  | array => "array"
  | object => "object"

/-- The JSON type that a scalar becomes. -/
def jsonType : Scalar → String
  | null => "null"
  | bool => "boolean"
  | int => "integer"
  | float => "number"
  | string => "string"
  | array => "array"
  | object => "object"

/-- The scalar of a name. -/
def ofName? (name : String) : Option Scalar := all.find? (·.name == name)

theorem mem_all (s : Scalar) : s ∈ all := by cases s <;> decide

theorem ofName?_name (s : Scalar) : ofName? s.name = some s := by cases s <;> decide

theorem ofName?_eq_some_iff {n : String} {s : Scalar} : ofName? n = some s ↔ n = s.name := by
  constructor
  · intro h
    exact (by simpa using List.find?_some h : s.name = n).symm
  · rintro rfl
    exact ofName?_name s

theorem jsonType_injective {s t : Scalar} (h : s.jsonType = t.jsonType) : s = t := by
  revert h
  cases s <;> cases t <;> decide

end Scalar

end ClassSchema
