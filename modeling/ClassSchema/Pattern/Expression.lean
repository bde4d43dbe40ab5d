import ClassSchema.Pattern.CharSet
import ClassSchema.Text.Alphanumeric

/-!
# Regular expressions

An expression is made of characters, escapes, sets in brackets, groups, branches to choose from, and repetitions. A group
may have a name, which no other group of the expression has, or flags; flags in parentheses of their own hold to the end
of the group around them, in its later branches as well.

Nothing is matched here. What is told is whether a text is an expression at all. Not in the language are counted
repetitions, escapes and names of classes in braces, and looks around a place: a text without closing braces, commas and
equality signs has none of them.
-/

namespace ClassSchema

namespace Pattern

/-! ## Groups -/

/-- What a parenthesis opens. -/
inductive Opening where
  /-- A group, and the mode inside it. -/
  | group (name : Option (List Char)) (mode : Mode)
  /-- Flags alone, and the mode from here on. -/
  | flags (mode : Mode)
  deriving DecidableEq, Repr

/-- Whether a text is the name of a group. -/
def isGroupName : List Char → Bool
  | [] => false
  | c :: cs => (c == '_' || isAlphabetic c) && cs.all fun c => c ∈ ['_', '.', '[', ']'] || isAlphanumeric c

/-- The name of a group, and the rest of the text after it. -/
def groupName? (cs : List Char) : Option (List Char × List Char) :=
  let name := cs.takeWhile (· != '>')
  match cs.drop name.length with
  | _ :: rest => if isGroupName name then some (name, rest) else none
  | [] => none

/-- What a parenthesis before a text opens, and the rest of the text. -/
def opening? (m : Mode) (cs : List Char) : Option (Opening × List Char) :=
  match m.skip cs with
  | '?' :: 'P' :: '<' :: rest => (groupName? rest).map fun r => (.group (some r.1) m, r.2)
  | '?' :: '<' :: rest => (groupName? rest).map fun r => (.group (some r.1) m, r.2)
  | '?' :: rest =>
    let flags := rest.takeWhile fun c => c != ':' && c != ')'
    if !isFlags flags then none
    else match rest.drop flags.length with
      | ':' :: after => some (.group none (m.withFlags flags), after)
      | ')' :: after => if flags = [] then none else some (.flags (m.withFlags flags), after)
      | _ => none
  | rest => some (.group none m, rest)

/-! ## Expressions -/

/-- A member of a branch. -/
inductive Member where
  /-- Flags, which cannot be repeated. -/
  | flags
  /-- A part that is matched, and its height. -/
  | part (height : Nat)
  deriving DecidableEq, Repr

/-- The height of a member. -/
def Member.height : Member → Nat
  | flags => 0
  | part height => height

/-- A group that is open: the mode at this place, the heights of the branches that are complete, and the members of the
branch being read, the last first. The whole expression is a group without parentheses. -/
structure OpenGroup where
  mode : Mode
  branches : List Nat
  members : List Member
  deriving DecidableEq, Repr

namespace OpenGroup

/-- A group that has just been opened. -/
def start (mode : Mode) : OpenGroup := ⟨mode, [], []⟩

/-- The group with one more member. -/
def add (g : OpenGroup) (member : Member) : OpenGroup := { g with members := member :: g.members }

/-- The height of the branch being read. -/
def branchHeight (g : OpenGroup) : Nat := heightOf (g.members.map Member.height)

/-- The group at the start of a new branch. -/
def branch (g : OpenGroup) : OpenGroup := ⟨g.mode, g.branchHeight :: g.branches, []⟩

/-- The group with its last member repeated, if there is one that can be. -/
def repeatLast? (g : OpenGroup) : Option OpenGroup :=
  match g.members with
  | .part height :: members => some { g with members := .part (height + 1) :: members }
  | _ => none

/-- The height of what has been read of the group. -/
def height (g : OpenGroup) : Nat := heightOf (g.branchHeight :: g.branches)

end OpenGroup

/-- A place in an expression: the names of groups so far, the group being read, and the groups that are open around it,
the innermost first. -/
structure Reading where
  names : List (List Char)
  outer : List OpenGroup
  group : OpenGroup
  deriving DecidableEq, Repr

namespace Reading

/-- The start of an expression. -/
def initial : Reading := ⟨[], [], .start .initial⟩

/-- The place after one more member of the group being read. -/
def add (r : Reading) (member : Member) : Reading := { r with group := r.group.add member }

/-- The place after an opening parenthesis and what belongs to it; a name must be new. -/
def openGroup? (r : Reading) : Opening → Option Reading
  | .flags mode => some { r with group := { r.group.add .flags with mode } }
  | .group name mode =>
    if name.any (· ∈ r.names) then none else some ⟨name.toList ++ r.names, r.group :: r.outer, .start mode⟩

/-- The place after a closing parenthesis, if a group is open. -/
def closeGroup? (r : Reading) : Option Reading :=
  match r.outer with
  | [] => none
  | around :: outer => some ⟨r.names, outer, around.add (.part (r.group.height + 1))⟩

/-- The place after a character and what belongs to it, and the rest of the text. In a mode of bytes nothing matches any
byte. -/
def step? (r : Reading) (c : Char) (cs : List Char) : Option (Reading × List Char) :=
  match c with
  | '(' => (opening? r.group.mode cs).bind fun o => (r.openGroup? o.1).map (·, o.2)
  | ')' => r.closeGroup?.map (·, cs)
  | '|' => some ({ r with group := r.group.branch }, cs)
  | '[' => (set? r.group.mode cs).map fun s => (r.add (.part s.1), s.2)
  | '\\' => (escape? r.group.mode cs).map fun e => (r.add (.part 0), e.2)
  | '.' => if r.group.mode.unicode then some (r.add (.part 0), cs) else none
  | '{' => none
  | c =>
    if c = '?' ∨ c = '*' ∨ c = '+' then
      r.group.repeatLast?.map fun g => ({ r with group := g }, if cs.head? = some '?' then cs.drop 1 else cs)
    else some (r.add (.part 0), cs)

/-- Whether a text is the rest of an expression after a place, found out within a number of steps. -/
def completes : Nat → Reading → List Char → Bool
  | 0, _, _ => false
  | fuel + 1, r, cs =>
    match r.group.mode.skip cs with
    | [] => r.outer.isEmpty && r.group.height ≤ maxHeight
    | c :: rest =>
      match r.step? c rest with
      | some (next, after) => next.completes fuel after
      | none => false

end Reading

/-- Whether a text is a regular expression. -/
def isExpression (cs : List Char) : Bool := Reading.initial.completes (cs.length + 1) cs

end Pattern

end ClassSchema
