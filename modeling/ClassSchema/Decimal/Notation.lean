import ClassSchema.Decimal.Shortest

/-!
# How a decimal is laid out

A number is written in plain notation or in scientific notation, by the power of ten of its first digit. The bounds are
the fields of a `FloatNotation`. Plain notation has at least one digit on either side of the point. Scientific notation
has one digit before the point, no point if that is the only digit, and a sign before the exponent.
-/

namespace ClassSchema

/-- The powers of ten of the first digit between which plain notation is used. -/
structure FloatNotation where
  plainFrom : Int
  plainTo : Int
  deriving DecidableEq, Repr

/-- A decimal laid out as a notation says. -/
def Decimal.write (format : FloatNotation) (d : Decimal) : String :=
  let digits := Nat.toDigits 10 d.digits
  let count : Int := digits.length
  let first := d.exponent + count - 1
  if format.plainFrom ≤ first ∧ first ≤ format.plainTo then
    if 0 ≤ d.exponent then
      String.ofList (digits ++ List.replicate d.exponent.toNat '0') ++ ".0"
    else if 0 ≤ first then
      String.ofList (digits.take (first + 1).toNat) ++ "." ++ String.ofList (digits.drop (first + 1).toNat)
    else "0." ++ String.ofList (List.replicate (-first - 1).toNat '0' ++ digits)
  else
    let mantissa := match digits with
      | [digit] => String.singleton digit
      | digits => String.ofList (digits.take 1) ++ "." ++ String.ofList (digits.drop 1)
    mantissa ++ "e" ++ (if first < 0 then "-" else "+") ++ toString first.natAbs

/-- A finite double, written with the fewest digits that read back. -/
def writeFloat (format : FloatNotation) (x : Float) : String :=
  let bits := x.toBits.toNat
  let sign := if bits < Nat.pow 2 63 then "" else "-"
  let magnitude := bits % Nat.pow 2 63
  sign ++ (if magnitude = 0 then ⟨0, 0⟩ else (BinaryFloat.ofBits magnitude).shortest : Decimal).write format

end ClassSchema
