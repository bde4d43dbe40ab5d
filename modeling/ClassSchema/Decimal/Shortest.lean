/-!
# The shortest decimal that reads back

Many decimals lie so close to a binary floating-point number that they read back as it: those in an interval around it
whose ends are halfway to its two neighbours. Here the one is found that has the fewest digits and, among those with
the fewest digits, is nearest to the number.

A decimal with few digits lies on a coarse grid, the multiples of `10 ^ e` for a large `e`. If any point of a grid lies
in the interval, then one of the two points around the number itself does. So the grids are tried from the coarsest to
the finest, and on each only these two points are looked at. All arithmetic is exact.
-/

namespace ClassSchema

/-- The number `digits * 10 ^ exponent`. -/
structure Decimal where
  digits : Nat
  exponent : Int
  deriving DecidableEq, Repr

/-- A positive number `mantissa * 2 ^ exponent` of a binary format. Its lower neighbour is half as far away as its upper
one if `atBoundary`, which is so for the least mantissa of an exponent. -/
structure BinaryFloat where
  mantissa : Nat
  exponent : Int
  atBoundary : Bool
  deriving DecidableEq, Repr

namespace BinaryFloat

/-- The positive double that has these bits, the sign apart. -/
def ofBits (bits : Nat) : BinaryFloat :=
  let fraction : Nat := bits % Nat.pow 2 52
  let biased : Nat := bits / Nat.pow 2 52 % Nat.pow 2 11
  if biased = 0 then ⟨fraction, -1074, false⟩
  else ⟨Nat.pow 2 52 + fraction, (biased : Int) - 1075, fraction == 0 && 1 < biased⟩

/-- Four times the mantissa of the lower end of the interval that reads back as the number. -/
def low (x : BinaryFloat) : Nat := 4 * x.mantissa - (if x.atBoundary then 1 else 2)

/-- Four times the mantissa of the upper end of the interval that reads back as the number. -/
def high (x : BinaryFloat) : Nat := 4 * x.mantissa + 2

/-- A fraction: what a quarter of a unit of the mantissa is worth on the grid of `10 ^ e`. -/
def quarter (x : BinaryFloat) (e : Int) : Nat × Nat :=
  let power := x.exponent - 2
  (Nat.pow 2 power.toNat * Nat.pow 10 (-e).toNat, Nat.pow 2 (-power).toNat * Nat.pow 10 e.toNat)

/-- Whether the point `c` of the grid of `10 ^ e` reads back as the number. The ends of the interval do if the mantissa
is even. -/
def readsBack (x : BinaryFloat) (e : Int) (c : Nat) : Bool :=
  let (num, den) := x.quarter e
  if x.mantissa % 2 = 0 then x.low * num ≤ c * den && c * den ≤ x.high * num
  else x.low * num < c * den && c * den < x.high * num

/-- The point of the grid of `10 ^ e` that is nearest to the number, if one of the two around it reads back. At the same
distance the even one is taken. -/
def onGrid? (x : BinaryFloat) (e : Int) : Option Nat :=
  let (num, den) := x.quarter e
  let value := 4 * x.mantissa * num
  let below := value / den
  let fromBelow := value - below * den
  let toAbove := (below + 1) * den - value
  let nearest :=
    if fromBelow < toAbove ∨ (fromBelow = toAbove ∧ below % 2 = 0) then below else below + 1
  let other := if nearest = below then below + 1 else below
  if x.readsBack e nearest then some nearest
  else if x.readsBack e other then some other
  else none

/-- The exponents of the grids to be tried, the coarsest first: from one above the largest double to one below the
spacing of the least. -/
def gridExponents : List Int := (List.range 635).map fun (n : Nat) => (310 : Int) - n

/-- The shortest decimal that reads back as the number. -/
def shortest (x : BinaryFloat) : Decimal :=
  (gridExponents.findSome? fun e => (x.onGrid? e).map fun digits => ⟨digits, e⟩).getD ⟨0, 0⟩

end BinaryFloat

end ClassSchema
