/-!
# Heights of expressions

A character, an escape and a place have the height zero. A set, a group and a repetition are one higher than what they
hold, and so is a number of things side by side or to choose from, unless it is one thing alone. An expression must not be
higher than `maxHeight`.
-/

namespace ClassSchema

namespace Pattern

/-- The height that an expression may have. -/
def maxHeight : Nat := 250

/-- The height of things of these heights together. -/
def heightOf : List Nat → Nat
  | [] => 0
  | [h] => h
  | hs => hs.foldl Nat.max 0 + 1

end Pattern

end ClassSchema
