import ClassSchema.Pattern.Expression

/-!
# Patterns for the values of fields

A directive of a log may name a field with a pattern for its value: a number, or a regular expression. Nothing is matched
here, since the events happen in no span. What is told is whether a text is a pattern at all: a log with a directive that
is malformed is not used.
-/

namespace ClassSchema

/-- Whether a text is a number without a sign. -/
def isDecimalNumber (cs : List Char) : Bool :=
  let whole := cs.takeWhile Char.isDigit
  let rest := cs.drop whole.length
  let fraction := match rest with
    | '.' :: more => more.takeWhile Char.isDigit
    | _ => []
  let after := if rest.head? = some '.' then rest.drop (fraction.length + 1) else rest
  let hasExponent := match after with
    | [] => true
    | e :: more =>
      let digits := if more.head? = some '+' ∨ more.head? = some '-' then more.drop 1 else more
      e.toLower == 'e' && digits != [] && digits.all Char.isDigit
  String.ofList (cs.map Char.toLower) ∈ ["inf", "infinity", "nan"] || (whole ++ fraction != [] && hasExponent)

/-- Whether a text is a pattern for the value of a field. A number without a plus before it is a regular expression. -/
def isValuePattern (text : List Char) : Bool :=
  (text.head? = some '+' && isDecimalNumber (text.drop 1)) || Pattern.isExpression text

end ClassSchema
