import ClassSchema.Pattern.Mode
import ClassSchema.Text.Hexadecimal

/-!
# Escapes

A backslash and what follows it stand for one character, for the characters of a class, or for a place in the text. In a
mode of bytes there is no class of Unicode, no complement of a class, and no single byte that is not a character of
ASCII. The boundaries of words are places of bytes: for Unicode they are refused.
-/

namespace ClassSchema

namespace Pattern

/-- What an escape stands for. -/
inductive Escape where
  | char (code : Nat)
  /-- The characters of a class. -/
  | charClass
  /-- A place in the text: its start, its end, or a boundary of words. -/
  | place
  deriving DecidableEq, Repr

/-- The value of a number of hexadecimal digits and the rest of the text; `n` is the value of the digits before. -/
def hexDigits? (m : Mode) : Nat → Nat → List Char → Option (Nat × List Char)
  | 0, n, cs => some (n, cs)
  | count + 1, n, cs =>
    match m.skip cs with
    | [] => none
    | c :: rest => do hexDigits? m count (16 * n + (← hexValue? c)) rest

/-- The character whose code point is written in a number of hexadecimal digits, and the rest of the text. -/
def hexEscape? (m : Mode) (count : Nat) (cs : List Char) : Option (Escape × List Char) := do
  let (code, rest) ← hexDigits? m count 0 cs
  if code.isValidChar then some (.char code, rest) else none

/-- The letters of the classes with names of one letter. -/
def generalCategories : List Char := ['c', 'l', 'm', 'n', 'p', 's', 'z']

/-- The characters with an escape of one letter. -/
def namedChar? : Char → Option Nat
  | 'a' => some 0x07
  | 't' => some 0x09
  | 'n' => some 0x0A
  | 'v' => some 0x0B
  | 'f' => some 0x0C
  | 'r' => some 0x0D
  | _ => none

/-- A mark: a character of ASCII, no letter and no digit, that stands for itself after a backslash. -/
def isMark (c : Char) : Bool := c.toNat < 0x80 && !c.isAlphanum && c != '<' && c != '>'

/-- The escape after a backslash, and the rest of the text. -/
def escape? (m : Mode) : List Char → Option (Escape × List Char)
  | [] => none
  | 'x' :: cs => do
    let (escape, rest) ← hexEscape? m 2 cs
    match escape with
    | .char code => if m.unicode || code < 0x80 then some (.char code, rest) else none
    | _ => none
  | 'u' :: cs => hexEscape? m 4 cs
  | 'U' :: cs => hexEscape? m 8 cs
  | c :: cs =>
    if c = 'p' ∨ c = 'P' then
      match m.skip cs with
      | category :: rest =>
        if m.unicode && category.toLower ∈ generalCategories then some (.charClass, rest) else none
      | [] => none
    else if c ∈ ['d', 's', 'w'] then some (.charClass, cs)
    else if c ∈ ['D', 'S', 'W'] then if m.unicode then some (.charClass, cs) else none
    else if c = 'A' ∨ c = 'z' then some (.place, cs)
    else if c ∈ ['b', 'B', '<', '>'] then if m.unicode then none else some (.place, cs)
    else match namedChar? c with
      | some code => some (.char code, cs)
      | none => if isMark c then some (.char c.toNat, cs) else none

end Pattern

end ClassSchema
