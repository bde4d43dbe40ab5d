/-!
# Counts on a command line

A count is written in decimal digits, perhaps after a plus sign, and has to fit 64 bits. Its digits are read from the
left, so that of two faults the first is reported: a character that is no digit, or a digit with which the count no
longer fits.
-/

namespace ClassSchema

/-- Why a text is no count. -/
inductive CountError where
  | empty
  | invalidDigit
  | tooLarge
  deriving DecidableEq, Repr

/-- The words for a refused count. -/
def CountError.message : CountError → String
  | .empty => "cannot parse integer from empty string"
  | .invalidDigit => "invalid digit found in string"
  | .tooLarge => "number too large to fit in target type"

/-- The largest count. -/
def maxCount : Nat := Nat.pow 2 64 - 1

/-- Reads digits after those that make up a number. -/
def readDigits (number : Nat) : List Char → Except CountError Nat
  | [] => .ok number
  | c :: cs =>
    if !c.isDigit then .error .invalidDigit
    else if maxCount < 10 * number + (c.toNat - '0'.toNat) then .error .tooLarge
    else readDigits (10 * number + (c.toNat - '0'.toNat)) cs

/-- The count that a text writes. -/
def parseCount (text : String) : Except CountError Nat :=
  match text.toList with
  | [] => .error .empty
  | ['+'] => .error .invalidDigit
  | '+' :: cs => readDigits 0 cs
  | cs => readDigits 0 cs

end ClassSchema
