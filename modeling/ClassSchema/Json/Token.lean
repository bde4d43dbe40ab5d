import ClassSchema.Json.Number
import ClassSchema.Text.Hexadecimal
import ClassSchema.Text.Size

/-!
# The tokens of a JSON text

A text is cut into tokens before anything is made of them: the six marks, and the scalars with their values. A character
that starts no token, and a scalar that breaks off, become one last token that holds its fault: nothing is read beyond
it. Whether that fault is the one to report is decided by who reads the tokens, since where a comma is wanted any other
token is wrong for that reason alone.

A token knows where it starts, where it ends, and the position one byte after its start, at which a token that is not
wanted is reported.
-/

namespace ClassSchema

/-- A piece of a JSON text. -/
inductive JsonToken where
  | openArray | closeArray | openObject | closeObject | comma | colon
  | null
  | bool (value : Bool)
  | number (value : JsonNumber)
  | string (value : String)
  /-- A string that breaks off, with its fault and the position of the fault. -/
  | brokenString (fault : JsonFault) (position : Position)
  /-- What is no token, or a scalar other than a string that breaks off. -/
  | broken (fault : JsonFault) (position : Position)
  deriving DecidableEq, Repr

/-- A token and its place. -/
structure Lexeme where
  token : JsonToken
  start : Position
  /-- One byte after the start. -/
  peek : Position
  stop : Position
  deriving DecidableEq, Repr

namespace JsonToken

/-- White space between tokens. -/
def isSpace (c : Char) : Bool := c == ' ' || c == '\n' || c == '\t' || c == '\r'

/-! ## Literals -/

/-- Reads the other letters of a literal. -/
def readLetters (cur : Cursor) : List Char → Except PlacedFault Cursor
  | [] => .ok cur
  | letter :: letters =>
    match cur.rest.head? with
    | none => .error (.endInValue, cur.position)
    | some c => if c = letter then readLetters (cur.skip 1) letters else .error (.expectedIdent, cur.byteOn 1)

/-! ## Strings -/

/-- The character that the escape of a letter stands for. -/
def escaped? : Char → Option Char
  | '"' => some '"'
  | '\\' => some '\\'
  | '/' => some '/'
  | 'b' => some '\x08'
  | 'f' => some '\x0c'
  | 'n' => some '\n'
  | 'r' => some '\r'
  | 't' => some '\t'
  | _ => none

/-- The code unit whose four hexadecimal digits stand at a cursor. -/
def readCodeUnit (cur : Cursor) : Except PlacedFault Nat :=
  if utf8Length cur.rest < 4 then .error (.endInString, cur.position.afterAll cur.rest)
  else match hexNumber? (cur.rest.take 4) with
    | some unit => .ok unit
    | none => .error (.invalidEscape, cur.byteOn 4)

/-- Whether a code unit is the first half of a pair. -/
def isLeading (unit : Nat) : Bool := 0xD800 ≤ unit && unit ≤ 0xDBFF

/-- Whether a code unit is the second half of a pair. -/
def isTrailing (unit : Nat) : Bool := 0xDC00 ≤ unit && unit ≤ 0xDFFF

/-- The wanted character stands at a cursor, inside an escape. -/
def readEscapeMark (cur : Cursor) (wanted : Char) : Except PlacedFault Unit :=
  match cur.rest.head? with
  | none => .error (.endInString, cur.position)
  | some c => if c = wanted then .ok () else .error (.endOfEscape, cur.byteOn 1)

/-- The character that the code units at a cursor stand for, and how many characters of the text they take. -/
def readCodePoint (cur : Cursor) : Except PlacedFault (Char × Nat) := do
  let first ← readCodeUnit cur
  if isTrailing first then throw (.loneSurrogate, (cur.skip 4).position)
  else if isLeading first then
    readEscapeMark (cur.skip 4) '\\'
    readEscapeMark (cur.skip 5) 'u'
    let second ← readCodeUnit (cur.skip 6)
    if isTrailing second then return (.ofNat (0x10000 + (first - 0xD800) * 0x400 + (second - 0xDC00)), 10)
    else throw (.loneSurrogate, (cur.skip 10).position)
  else return (.ofNat first, 4)

/-- The character that an escape at a cursor after its backslash stands for, and how many characters the escape takes
without the backslash. -/
def readEscape (cur : Cursor) : Except PlacedFault (Char × Nat) :=
  match cur.rest.head? with
  | none => .error (.endInString, cur.position)
  | some c =>
    if c = 'u' then (readCodePoint (cur.skip 1)).map fun r => (r.1, r.2 + 1)
    else match escaped? c with
      | some d => .ok (d, 1)
      | none => .error (.invalidEscape, cur.byteOn 1)

/-- What stands at a cursor inside a string: its closing quote, or a character and how many characters of the text after
the first it takes. -/
def readStringChar (cur : Cursor) : Except PlacedFault (Option (Char × Nat)) :=
  match cur.rest.head? with
  | none => .error (.endInString, cur.position)
  | some c =>
    if c = '"' then .ok none
    else if c = '\\' then (readEscape (cur.skip 1)).map some
    else if c.toNat < 0x20 then .error (.controlCharacter, cur.byteOn 1)
    else .ok (some (c, 0))

theorem rest_ne_nil_of_readStringChar {cur : Cursor} {r : Option (Char × Nat)} (h : readStringChar cur = .ok r) :
    0 < cur.rest.length := by
  rcases hr : cur.rest with _ | ⟨c, cs⟩
  · simp [readStringChar, hr] at h
  · simp

/-- The characters of a string from a cursor inside it to its closing quote, and the cursor after the quote. -/
def readString (cur : Cursor) : Except PlacedFault (List Char × Cursor) :=
  match _step : readStringChar cur with
  | .error e => .error e
  | .ok none => .ok ([], cur.skip 1)
  | .ok (some (c, more)) => do
    let (cs, stop) ← readString (cur.skip (more + 1))
    return (c :: cs, stop)
  termination_by cur.rest.length
  decreasing_by
    have := rest_ne_nil_of_readStringChar _step
    rw [Cursor.length_skip]
    omega

theorem length_lt_of_readString {cur stop : Cursor} {cs : List Char} (h : readString cur = .ok (cs, stop)) :
    stop.rest.length < cur.rest.length := by
  fun_induction readString cur generalizing cs with
  | case1 cur e hs => cases h
  | case2 cur hs =>
    cases h
    have := rest_ne_nil_of_readStringChar hs
    rw [Cursor.length_skip]
    omega
  | case3 cur c more hs ih =>
    rcases hr : readString (cur.skip (more + 1)) with e | ⟨cs', stop'⟩
    · simp [hr, bind, Except.bind] at h
    · simp only [hr, bind, Except.bind, pure, Except.pure, Except.ok.injEq, Prod.mk.injEq] at h
      obtain ⟨-, rfl⟩ := h
      have := ih hr
      rw [Cursor.length_skip] at this
      omega

/-! ## Tokens -/

/-- The scalar whose other letters follow its first one. -/
def readLiteral (cur : Cursor) (letters : String) (token : JsonToken) : JsonToken × Cursor :=
  match readLetters (cur.skip 1) letters.toList with
  | .ok stop => (token, stop)
  | .error (fault, position) => (.broken fault position, ⟨[], position⟩)

/-- The string at a cursor, which stands at its opening quote. -/
def readStringToken (cur : Cursor) : JsonToken × Cursor :=
  match readString (cur.skip 1) with
  | .ok (cs, stop) => (.string (.ofList cs), stop)
  | .error (fault, position) => (.brokenString fault position, ⟨[], position⟩)

/-- The number at a cursor, which stands at its first character. -/
def readNumberToken (cur : Cursor) : JsonToken × Cursor :=
  match NumberText.read cur with
  | .ok (n, stop) => (.number n, stop)
  | .error (fault, position) => (.broken fault position, ⟨[], position⟩)

/-- The token that starts with a character at a cursor, and the cursor after it. -/
def read (cur : Cursor) (first : Char) : JsonToken × Cursor :=
  match first with
  | '[' => (.openArray, cur.skip 1)
  | ']' => (.closeArray, cur.skip 1)
  | '{' => (.openObject, cur.skip 1)
  | '}' => (.closeObject, cur.skip 1)
  | ',' => (.comma, cur.skip 1)
  | ':' => (.colon, cur.skip 1)
  | 'n' => readLiteral cur "ull" .null
  | 't' => readLiteral cur "rue" (.bool true)
  | 'f' => readLiteral cur "alse" (.bool false)
  | '"' => readStringToken cur
  | c =>
    if c = '-' ∨ c.isDigit then readNumberToken cur
    else (.broken .expectedValue (cur.byteOn 1), ⟨[], cur.byteOn 1⟩)

theorem length_le_of_readLetters {cur stop : Cursor} {letters : List Char}
    (h : readLetters cur letters = .ok stop) : stop.rest.length ≤ cur.rest.length := by
  induction letters generalizing cur with
  | nil =>
    cases h
    exact Nat.le_refl _
  | cons letter letters ih =>
    unfold readLetters at h
    split at h
    · cases h
    · split at h
      · have := ih h
        rw [Cursor.length_skip] at this
        omega
      · cases h

/-- A token has at least one character. -/
theorem length_read_lt {cur : Cursor} {first : Char} (hpos : 0 < cur.rest.length) :
    (read cur first).2.rest.length < cur.rest.length := by
  have hskip : (cur.skip 1).rest.length < cur.rest.length := by
    rw [Cursor.length_skip]
    omega
  have hliteral : ∀ letters token, (readLiteral cur letters token).2.rest.length < cur.rest.length := by
    intro letters token
    unfold readLiteral
    split
    · rename_i stop h
      exact Nat.lt_of_le_of_lt (length_le_of_readLetters h) hskip
    · exact hpos
  unfold read
  split <;> try first | exact hskip | exact hliteral _ _
  · unfold readStringToken
    split
    · rename_i cs stop h
      exact Nat.lt_trans (length_lt_of_readString h) hskip
    · exact hpos
  · split
    · unfold readNumberToken
      split
      · rename_i n stop h
        exact NumberText.length_lt_of_read h
      · exact hpos
    · exact hpos

/-- The tokens from a cursor on. -/
def scan (cur : Cursor) : List Lexeme :=
  match _rest : cur.rest with
  | [] => []
  | c :: _ =>
    if isSpace c then scan (cur.skip 1)
    else ⟨(read cur c).1, cur.position, cur.byteOn 1, (read cur c).2.position⟩ :: scan (read cur c).2
  termination_by cur.rest.length
  decreasing_by
    · rw [Cursor.length_skip, _rest]
      simp
    · exact length_read_lt (by simp [_rest])

end JsonToken

end ClassSchema
