import ClassSchema.Json.Fault
import ClassSchema.Json.Position

/-!
# Reading a JSON number

A number has digits, perhaps a fraction and perhaps an exponent (`NumberText`); what it is worth is decided from these
(`NumberText.value?`). An integer that fits 64 bits, unsigned or signed, is kept as an integer; every other number
becomes a double, and one beyond the doubles is refused.

The digits are collected in a significand of 64 bits. A digit of the integer part that no longer fits raises the
exponent instead, and so do all after it; a digit of the fraction that no longer fits is dropped with all after it. The
double is the significand, rounded, times or divided by a rounded power of ten.
-/

namespace ClassSchema

/-- A place in a text: what is left of it, and the position. -/
structure Cursor where
  rest : List Char
  position : Position
  deriving Repr

namespace Cursor

/-- The cursor after its first characters, as many as given. -/
def skip (cur : Cursor) (count : Nat) : Cursor :=
  ⟨cur.rest.drop count, cur.position.afterAll (cur.rest.take count)⟩

/-- The position a number of bytes on, or at the end of the text. -/
def byteOn (cur : Cursor) (count : Nat) : Position := cur.position.afterBytes count cur.rest

/-- The values of the digits that the rest starts with. -/
def digits (cur : Cursor) : List Nat := (cur.rest.takeWhile Char.isDigit).map fun c => c.toNat - '0'.toNat

/-- The cursor after those digits. -/
def skipDigits (cur : Cursor) : Cursor := cur.skip cur.digits.length

theorem length_skip (cur : Cursor) (count : Nat) : (cur.skip count).rest.length = cur.rest.length - count := by
  simp [skip]

theorem length_digits_le (cur : Cursor) : cur.digits.length ≤ cur.rest.length := by
  simpa [digits] using (List.takeWhile_prefix Char.isDigit).length_le

end Cursor

/-- A fault and its position. -/
abbrev PlacedFault := JsonFault × Position

/-- The largest unsigned integer of 64 bits. -/
def maxSignificand : Nat := Nat.pow 2 64 - 1

/-- The largest exponent that is counted. -/
def maxExponent : Nat := Nat.pow 2 31 - 1

/-- Appends digits to a number as long as it stays within a bound; the digits from the first that does not fit are left
over. -/
def appendDigits (bound number : Nat) : List Nat → Nat × List Nat
  | [] => (number, [])
  | d :: ds => if number * 10 + d ≤ bound then appendDigits bound (number * 10 + d) ds else (number, d :: ds)

/-- A double times a power of ten, if that is a double. A number too small for the table of powers is divided in steps. -/
def timesPowerOfTen (x : Float) (e : Int) : Option Float :=
  if x == 0 then some x
  else if 308 < e then none
  else if 0 ≤ e then
    let y := x * Float.ofScientific 1 false e.toNat
    if y.isInf then none else some y
  else if -308 ≤ e then some (x / Float.ofScientific 1 false (-e).toNat)
  else timesPowerOfTen (x / Float.ofScientific 1 false 308) (e + 308)
  termination_by (-e).toNat

/-- An exponent as written: its sign and its digits. -/
structure ExponentText where
  negative : Bool
  digits : List Nat
  deriving DecidableEq, Repr

/-- The parts of a number as written. -/
structure NumberText where
  negative : Bool
  whole : List Nat
  fraction : List Nat
  exponent : Option ExponentText
  deriving DecidableEq, Repr

namespace NumberText

/-- The significand, and the power of ten it is to be multiplied by before the written exponent. -/
def significand (n : NumberText) : Nat × Int :=
  let (whole, raised) := appendDigits maxSignificand 0 n.whole
  let (significand, dropped) := appendDigits maxSignificand whole n.fraction
  (significand, raised.length - (n.fraction.length - dropped.length : Nat))

/-- How many digits of the exponent are read before it is found to be beyond counting, if it is. -/
def exponentOverflow? (e : ExponentText) : Option Nat :=
  match appendDigits maxExponent 0 e.digits with
  | (_, []) => none
  | (_, left) => some (e.digits.length - left.length + 1)

/-- The number with its sign. -/
def signed (negative : Bool) (x : Float) : JsonNumber := .float (if negative then -x else x)

/-- What a number is worth, if that is an integer of 64 bits or a double. -/
def value? (n : NumberText) : Option JsonNumber :=
  let (significand, power) := n.significand
  match n.exponent with
  | none =>
    if n.fraction = [] ∧ power = 0 ∧ (n.negative → 0 < significand ∧ significand ≤ Nat.pow 2 63) then
      some (.integer (if n.negative then -significand else significand))
    else (timesPowerOfTen (UInt64.ofNat significand).toFloat power).map (signed n.negative)
  | some e =>
    match appendDigits maxExponent 0 e.digits with
    | (written, []) =>
      (timesPowerOfTen (UInt64.ofNat significand).toFloat (if e.negative then power - written else power + written)).map
        (signed n.negative)
    | _ => if significand ≠ 0 ∧ !e.negative then none else some (signed n.negative 0)

/-- The fraction at a cursor, if there is one, and the cursor after it. -/
def readFraction (cur : Cursor) : Except PlacedFault (List Nat × Cursor) :=
  match cur.rest with
  | '.' :: cs =>
    let inside := cur.skip 1
    if inside.digits.isEmpty then
      .error (if cs.isEmpty then .endInValue else .invalidNumber, inside.byteOn 1)
    else .ok (inside.digits, inside.skipDigits)
  | _ => .ok ([], cur)

/-- The digits of an exponent at a cursor, after the sign. -/
def readExponentDigits (negative : Bool) (cur : Cursor) : Except PlacedFault (Option ExponentText × Cursor) :=
  if cur.digits.isEmpty then .error (if cur.rest.isEmpty then .endInValue else .invalidNumber, cur.byteOn 1)
  else .ok (some ⟨negative, cur.digits⟩, cur.skipDigits)

/-- The exponent at a cursor, if there is one, and the cursor after it. -/
def readExponent (cur : Cursor) : Except PlacedFault (Option ExponentText × Cursor) :=
  if cur.rest.head? = some 'e' ∨ cur.rest.head? = some 'E' then
    let inside := cur.skip 1
    if inside.rest.head? = some '-' then readExponentDigits true (inside.skip 1)
    else if inside.rest.head? = some '+' then readExponentDigits false (inside.skip 1)
    else readExponentDigits false inside
  else .ok (none, cur)

/-- The parts of the number at a cursor that stands after the minus sign, if there is one, and the cursor after them. -/
def readParts (negative : Bool) (cur : Cursor) : Except PlacedFault (NumberText × Cursor) :=
  if cur.digits.isEmpty then .error (if cur.rest.isEmpty then .endInValue else .invalidNumber, cur.byteOn 1)
  else if cur.digits.head? = some 0 ∧ 1 < cur.digits.length then .error (.invalidNumber, cur.byteOn 2)
  else do
    let (fraction, afterFraction) ← readFraction cur.skipDigits
    let (exponent, stop) ← readExponent afterFraction
    return (⟨negative, cur.digits, fraction, exponent⟩, stop)

/-- Where a number that is no double is found to be none: at its end, or at the digit of its exponent that goes beyond
counting. -/
def outOfRangeAt (n : NumberText) (stop : Position) : Position :=
  match n.exponent with
  | none => stop
  | some e =>
    match exponentOverflow? e with
    | none => stop
    | some read => ⟨stop.line, stop.column - (e.digits.length - read)⟩

/-- A number that has been read to a cursor, as what it is worth. -/
def worth (n : NumberText) (stop : Cursor) : Except PlacedFault (JsonNumber × Cursor) :=
  match n.value? with
  | some value => .ok (value, stop)
  | none => .error (.numberOutOfRange, n.outOfRangeAt stop.position)

/-- The number at a cursor, which stands at a minus sign or a digit, and the cursor after it. -/
def read (cur : Cursor) : Except PlacedFault (JsonNumber × Cursor) := do
  let (n, stop) ← if cur.rest.head? = some '-' then readParts true (cur.skip 1) else readParts false cur
  n.worth stop

/-! ## A number has at least one character -/

theorem length_le_of_readFraction {cur stop : Cursor} {ds : List Nat} (h : readFraction cur = .ok (ds, stop)) :
    stop.rest.length ≤ cur.rest.length := by
  unfold readFraction at h
  split at h
  · simp only at h
    split at h
    · cases h
    · cases h
      simp only [Cursor.skipDigits, Cursor.length_skip]
      omega
  · cases h
    exact Nat.le_refl _

theorem length_le_of_readExponentDigits {negative : Bool} {cur stop : Cursor} {e : Option ExponentText}
    (h : readExponentDigits negative cur = .ok (e, stop)) : stop.rest.length ≤ cur.rest.length := by
  unfold readExponentDigits at h
  split at h
  · cases h
  · cases h
    simp only [Cursor.skipDigits, Cursor.length_skip]
    omega

theorem length_le_of_readExponent {cur stop : Cursor} {e : Option ExponentText}
    (h : readExponent cur = .ok (e, stop)) : stop.rest.length ≤ cur.rest.length := by
  unfold readExponent at h
  split at h
  · simp only at h
    split at h
    · have := length_le_of_readExponentDigits h
      simp only [Cursor.length_skip] at this
      omega
    · split at h
      · have := length_le_of_readExponentDigits h
        simp only [Cursor.length_skip] at this
        omega
      · have := length_le_of_readExponentDigits h
        simp only [Cursor.length_skip] at this
        omega
  · cases h
    exact Nat.le_refl _

theorem length_lt_of_readParts {negative : Bool} {cur stop : Cursor} {n : NumberText}
    (h : readParts negative cur = .ok (n, stop)) : stop.rest.length < cur.rest.length := by
  unfold readParts at h
  split at h
  · cases h
  · rename_i hd
    split at h
    · cases h
    · rcases hf : readFraction cur.skipDigits with e | ⟨fraction, afterFraction⟩
      · simp [hf, bind, Except.bind] at h
      rcases he : readExponent afterFraction with e | ⟨exponent, stop'⟩
      · simp [hf, he, bind, Except.bind] at h
      simp only [hf, he, bind, Except.bind, pure, Except.pure, Except.ok.injEq, Prod.mk.injEq] at h
      obtain ⟨-, rfl⟩ := h
      have h1 := length_le_of_readFraction hf
      have h2 := length_le_of_readExponent he
      have h3 := cur.length_digits_le
      have h4 : 0 < cur.digits.length := List.length_pos_iff.2 (by simpa using hd)
      simp only [Cursor.skipDigits, Cursor.length_skip] at h1
      omega

theorem eq_of_worth {n : NumberText} {stop stop' : Cursor} {value : JsonNumber}
    (h : n.worth stop = .ok (value, stop')) : stop' = stop := by
  unfold worth at h
  split at h <;> cases h
  rfl

theorem length_lt_of_read {cur stop : Cursor} {value : JsonNumber} (h : read cur = .ok (value, stop)) :
    stop.rest.length < cur.rest.length := by
  unfold read at h
  split at h
  · rcases hp : readParts true (cur.skip 1) with e | ⟨n, stop'⟩
    · simp [hp, bind, Except.bind] at h
    · simp only [hp, bind, Except.bind] at h
      have := length_lt_of_readParts hp
      rw [Cursor.length_skip] at this
      rw [eq_of_worth h]
      omega
  · rcases hp : readParts false cur with e | ⟨n, stop'⟩
    · simp [hp, bind, Except.bind] at h
    · simp only [hp, bind, Except.bind] at h
      rw [eq_of_worth h]
      exact length_lt_of_readParts hp

end NumberText

end ClassSchema
