import ClassSchema.Pattern.Escape
import ClassSchema.Pattern.Height

/-!
# Sets in brackets

A set has members: characters, escapes, ranges of characters, sets with a name between colons, and sets in brackets.
Operators between members make a set of two sets: what is in both, in the first alone, or in one of them alone. At the
start of a set dashes stand for themselves, and else a closing bracket does. In a mode of bytes the members are of ASCII,
and there is no complement.
-/

namespace ClassSchema

namespace Pattern

/-- A set that is open: the heights of the members since its last operator, and the height of what is before it.
`dashed` says that only dashes have been read. -/
structure OpenSet where
  members : List Nat
  before : Option Nat
  dashed : Bool
  deriving DecidableEq, Repr

namespace OpenSet

/-- A set that has just been opened. -/
def start : OpenSet := ⟨[], none, true⟩

/-- The set with a dash at its start. -/
def addDash (s : OpenSet) : OpenSet := { s with members := 0 :: s.members }

/-- The set with a member of a height. -/
def add (s : OpenSet) (height : Nat) : OpenSet := ⟨height :: s.members, s.before, false⟩

/-- The height of what has been read. -/
def height (s : OpenSet) : Nat := heightOf (heightOf s.members :: s.before.toList)

/-- The set with an operator after what has been read. -/
def operate (s : OpenSet) : OpenSet := ⟨[], some s.height, false⟩

end OpenSet

/-- The names of the sets that are written between colons. -/
def setNames : List String :=
  ["alnum", "alpha", "ascii", "blank", "cntrl", "digit", "graph", "lower", "print", "punct", "space", "upper", "word",
   "xdigit"]

/-- Whether a set with a name is a complement, and the rest of the text after its colons and its closing bracket. -/
def namedSet? : List Char → Option (Bool × List Char)
  | ':' :: cs =>
    let negated := cs.head? == some '^'
    let cs := if negated then cs.drop 1 else cs
    let name := cs.takeWhile (· != ':')
    match cs.drop name.length with
    | ':' :: ']' :: rest => if String.ofList name ∈ setNames then some (negated, rest) else none
    | _ => none
  | _ => none

/-- The rest of a text after the mark of a complement at the start of a set. -/
def afterComplement? (m : Mode) (cs : List Char) : Option (List Char) :=
  match m.skip cs with
  | '^' :: rest => if m.unicode then some rest else none
  | rest => some rest

/-- A character or an escape in a set. -/
def setItem? (m : Mode) (cs : List Char) : Option (Escape × List Char) := do
  let (item, rest) ← match cs with
    | [] => none
    | '\\' :: cs => escape? m cs
    | c :: cs => some (.char c.toNat, cs)
  match item with
  | .char code => if m.unicode || code < 0x80 then some (item, rest) else none
  | .charClass => some (item, rest)
  | .place => none

/-- The character that decides whether a dash makes a range: the next one that is no blank. Where blanks stand for
nothing, so does a `#` before it, but not the comment that it begins. -/
def Mode.afterDash? (m : Mode) (cs : List Char) : Option Char :=
  if m.spaced then
    match cs.dropWhile isBlank with
    | '#' :: rest => (rest.dropWhile isBlank).head?
    | rest => rest.head?
  else cs.head?

/-- The rest of a text after a member of a set: a range, or one item. -/
def setMember? (m : Mode) (cs : List Char) : Option (List Char) := do
  let (first, rest) ← setItem? m cs
  match m.skip rest with
  | '-' :: more =>
    if m.afterDash? more = some ']' ∨ m.afterDash? more = some '-' then some ('-' :: more)
    else
      match first, ← setItem? m (m.skip more) with
      | .char low, (.char high, after) => if low ≤ high then some after else none
      | _, _ => none
  | rest => some rest

/-- The height of a set that is open, and the rest of the text after it, found within a number of steps; `outer` are the
sets that are open around it, the innermost first. -/
def setEnd? (m : Mode) : Nat → List OpenSet → OpenSet → List Char → Option (Nat × List Char)
  | 0, _, _, _ => none
  | fuel + 1, outer, s, cs =>
    match m.skip cs with
    | [] => none
    | '-' :: '-' :: rest =>
      if s.dashed then setEnd? m fuel outer s.addDash ('-' :: rest) else setEnd? m fuel outer s.operate rest
    | '&' :: '&' :: rest => setEnd? m fuel outer s.operate rest
    | '~' :: '~' :: rest => setEnd? m fuel outer s.operate rest
    | ']' :: rest =>
      if s = .start then setEnd? m fuel outer (s.add 0) rest
      else match outer with
        | [] => some (s.height + 1, rest)
        | around :: outer => setEnd? m fuel outer (around.add (s.height + 1)) rest
    | '[' :: rest =>
      match namedSet? rest with
      | some (negated, after) =>
        if negated && !m.unicode then none else setEnd? m fuel outer (s.add 0) after
      | none => (afterComplement? m rest).bind (setEnd? m fuel (s :: outer) .start)
    | c :: rest =>
      if c = '-' ∧ s.dashed then setEnd? m fuel outer s.addDash rest
      else (setMember? m (c :: rest)).bind (setEnd? m fuel outer (s.add 0))

/-- The height of the set whose bracket is open before a text, and the rest of the text after it. -/
def set? (m : Mode) (cs : List Char) : Option (Nat × List Char) :=
  (afterComplement? m cs).bind (setEnd? m (cs.length + 1) [] .start)

end Pattern

end ClassSchema
