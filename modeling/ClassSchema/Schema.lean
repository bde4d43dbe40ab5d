import ClassSchema.Json.Basic
import ClassSchema.Scalar

/-!
# Schemas

The schemas that a model can have, as a type of their own: what is not a value of `Schema` is never written. The JSON
form (`Schema.toJson`) has exactly the keywords of its kind, in a fixed order. Nothing refers to another schema: a class
inside a class is written out in full.
-/

namespace ClassSchema

/-- The schema of a class or of a type. -/
inductive Schema where
  /-- A value of a built-in type. -/
  | scalar (type : Scalar)
  /-- One of the cases of an enumeration. -/
  | enumeration (cases : List String)
  /-- A list of any length. -/
  | array (items : Schema)
  /-- A list with at most so many items of a built-in type. -/
  | tuple (item : Scalar) (count : Nat)
  /-- A value of one of several schemas. -/
  | anyOf (members : List Schema)
  /-- An instance of a class, with its properties in order. -/
  | object (className : String) (properties : List (String × Schema))
  deriving Repr, Inhabited

namespace Schema

/-! ## Equality -/

mutual

/-- Equality of schemas, decided by comparing them part by part. -/
def decEq : (s t : Schema) → Decidable (s = t)
  | scalar a, scalar b => decidable_of_iff (a = b) (by simp)
  | enumeration as, enumeration bs => decidable_of_iff (as = bs) (by simp)
  | array s, array t =>
    match decEq s t with
    | isTrue h => isTrue (by rw [h])
    | isFalse h => isFalse (by simp [h])
  | tuple a m, tuple b n => decidable_of_iff (a = b ∧ m = n) (by simp)
  | anyOf ss, anyOf ts =>
    match decEqAll ss ts with
    | isTrue h => isTrue (by rw [h])
    | isFalse h => isFalse (by simp [h])
  | object a ps, object b qs =>
    match decEqFields ps qs with
    | isTrue h => decidable_of_iff (a = b) (by simp [h])
    | isFalse h => isFalse (by simp [h])
  | scalar _, enumeration _ | scalar _, array _ | scalar _, tuple .. | scalar _, anyOf _ | scalar _, object ..
  | enumeration _, scalar _ | enumeration _, array _ | enumeration _, tuple .. | enumeration _, anyOf _
  | enumeration _, object .. | array _, scalar _ | array _, enumeration _ | array _, tuple .. | array _, anyOf _
  | array _, object .. | tuple .., scalar _ | tuple .., enumeration _ | tuple .., array _ | tuple .., anyOf _
  | tuple .., object .. | anyOf _, scalar _ | anyOf _, enumeration _ | anyOf _, array _ | anyOf _, tuple ..
  | anyOf _, object .. | object .., scalar _ | object .., enumeration _ | object .., array _ | object .., tuple ..
  | object .., anyOf _ => isFalse (by simp)

/-- Equality of lists of schemas, member by member. -/
def decEqAll : (ss ts : List Schema) → Decidable (ss = ts)
  | [], [] => isTrue rfl
  | s :: ss, t :: ts =>
    match decEq s t, decEqAll ss ts with
    | isTrue h, isTrue hs => isTrue (by rw [h, hs])
    | isFalse h, _ => isFalse (by simp [h])
    | _, isFalse hs => isFalse (by simp [hs])
  | [], _ :: _ | _ :: _, [] => isFalse (by simp)

/-- Equality of the schemas of properties, property by property. -/
def decEqFields : (ps qs : List (String × Schema)) → Decidable (ps = qs)
  | [], [] => isTrue rfl
  | (a, s) :: ps, (b, t) :: qs =>
    match decEq s t, decEqFields ps qs with
    | isTrue h, isTrue hs => decidable_of_iff (a = b) (by simp [h, hs])
    | isFalse h, _ => isFalse (by simp [h])
    | _, isFalse hs => isFalse (by simp [hs])
  | [], _ :: _ | _ :: _, [] => isFalse (by simp)

end

instance : DecidableEq Schema := decEq

/-! ## The JSON form -/

/-- The dialect that an object schema declares. -/
def draft : String := "http://json-schema.org/draft-07/schema#"

mutual

/-- The JSON form of a schema. -/
def toJson : Schema → Json
  | scalar type => .object [("type", .string type.jsonType)]
  | enumeration cases => .object [("type", .string "string"), ("enum", .array (cases.map .string))]
  | array items => .object [("type", .string "array"), ("items", toJson items)]
  | tuple item count =>
    .object [("type", .string "array"), ("items", .object [("type", .string item.jsonType)]),
      ("maxItems", .number (.integer count))]
  | anyOf members => .object [("anyOf", .array (toJsonAll members))]
  | object _ properties =>
    .object [("$schema", .string draft), ("type", .string "object"), ("properties", .object (toJsonFields properties))]

/-- The JSON forms of several schemas. -/
def toJsonAll : List Schema → List Json
  | [] => []
  | s :: ss => toJson s :: toJsonAll ss

/-- The JSON forms of the schemas of several properties. -/
def toJsonFields : List (String × Schema) → List (String × Json)
  | [] => []
  | (name, s) :: rest => (name, toJson s) :: toJsonFields rest

end

end Schema

end ClassSchema
