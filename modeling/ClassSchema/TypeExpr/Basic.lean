/-!
# Type expressions

The type of a property, as its annotation writes it: a name, a generic with one argument, a union of members in their
written order, or a tuple of elements. Nothing is flattened or merged: `a|a` has two members.

`TypeExpr.render` is the one canonical spelling of an expression. It uses no sugar: an array of `T` is written `array<T>`
and a nullable `T` is written `T|null`.
-/

namespace ClassSchema

/-- The type of a property, as written. -/
inductive TypeExpr where
  /-- The name of a class, of an enumeration or of a scalar. -/
  | ident (name : String)
  /-- A generic applied to its only argument. -/
  | generic (base : String) (arg : TypeExpr)
  /-- The alternatives of a union, in the order written. -/
  | union (members : List TypeExpr)
  /-- The elements of a tuple; there may be none. -/
  | tuple (elements : List TypeExpr)
  deriving Repr, Inhabited

namespace TypeExpr

/-- The one generic that stands for a list, and the one name that takes elements in braces. -/
def arrayName : String := "array"

/-- The name `array`, in any mixture of ASCII upper and lower case. -/
def isArrayName (name : String) : Bool := name.toList.map Char.toLower == arrayName.toList

/-- A list of `arg`, which the sugar `arg[]` stands for. -/
def arrayOf (arg : TypeExpr) : TypeExpr := generic arrayName arg

/-- `inner` or null, which the sugar `?inner` stands for. -/
def nullable (inner : TypeExpr) : TypeExpr := union [inner, ident "null"]

/-- The name, if the expression is nothing but a name. -/
def asIdentifier : TypeExpr → Option String
  | ident name => some name
  | _ => none

/-! ## Equality -/

mutual

/-- Equality of expressions, decided by comparing them part by part. -/
def decEq : (s t : TypeExpr) → Decidable (s = t)
  | ident a, ident b => decidable_of_iff (a = b) (by simp)
  | generic a s, generic b t =>
    match decEq s t with
    | isTrue h => decidable_of_iff (a = b) (by simp [h])
    | isFalse h => isFalse (by simp [h])
  | union ss, union ts =>
    match decEqAll ss ts with
    | isTrue h => isTrue (by rw [h])
    | isFalse h => isFalse (by simp [h])
  | tuple ss, tuple ts =>
    match decEqAll ss ts with
    | isTrue h => isTrue (by rw [h])
    | isFalse h => isFalse (by simp [h])
  | ident _, generic _ _ | ident _, union _ | ident _, tuple _
  | generic _ _, ident _ | generic _ _, union _ | generic _ _, tuple _
  | union _, ident _ | union _, generic _ _ | union _, tuple _
  | tuple _, ident _ | tuple _, generic _ _ | tuple _, union _ => isFalse (by simp)

/-- Equality of lists of expressions, member by member. -/
def decEqAll : (ss ts : List TypeExpr) → Decidable (ss = ts)
  | [], [] => isTrue rfl
  | s :: ss, t :: ts =>
    match decEq s t, decEqAll ss ts with
    | isTrue h, isTrue hs => isTrue (by rw [h, hs])
    | isFalse h, _ => isFalse (by simp [h])
    | _, isFalse hs => isFalse (by simp [hs])
  | [], _ :: _ | _ :: _, [] => isFalse (by simp)

end

instance : DecidableEq TypeExpr := decEq

/-! ## The canonical spelling -/

mutual

/-- The canonical spelling: no blanks and no sugar. -/
def render : TypeExpr → String
  | ident name => name
  | generic base arg => base ++ "<" ++ render arg ++ ">"
  | union members => "|".intercalate (renderAll members)
  | tuple elements => arrayName ++ "\x7b" ++ ",".intercalate (renderAll elements) ++ "\x7d"

/-- The canonical spellings of several expressions. -/
def renderAll : List TypeExpr → List String
  | [] => []
  | t :: ts => render t :: renderAll ts

end

theorem renderAll_eq_map (ts : List TypeExpr) : renderAll ts = ts.map render := by
  induction ts with
  | nil => rfl
  | cons t ts ih => rw [renderAll, ih, List.map_cons]

end TypeExpr

end ClassSchema
