/-!
# Positions in a text

A position counts lines from one and, in the line, the bytes of the UTF-8 form since the last line feed. A carriage
return is a byte like any other. A fault in the middle of a text may be placed between the bytes of a character.
-/

namespace ClassSchema

/-- A place in a text: the number of its line and of the bytes before it in that line. -/
structure Position where
  line : Nat
  column : Nat
  deriving DecidableEq, Repr

namespace Position

/-- The start of a text. -/
def start : Position := ⟨1, 0⟩

/-- The place after a character. -/
def after (p : Position) (c : Char) : Position :=
  if c = '\n' then ⟨p.line + 1, 0⟩ else ⟨p.line, p.column + c.utf8Size⟩

/-- The place after all characters of a text that starts here. -/
def afterAll (p : Position) (cs : List Char) : Position := cs.foldl after p

/-- The place after a number of bytes of the text that starts here, or at its end if it has fewer. -/
def afterBytes (p : Position) (count : Nat) : List Char → Position
  | [] => p
  | c :: cs =>
    if count < c.utf8Size then ⟨p.line, p.column + count⟩ else (p.after c).afterBytes (count - c.utf8Size) cs

end Position

end ClassSchema
