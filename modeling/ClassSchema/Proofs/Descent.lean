import ClassSchema.TypeExpr.Parser

/-!
# Reading an annotation by descent

Another way to read an annotation: one procedure for each rule of the grammar, and the procedures call one another. They share a
cursor into the characters of the text and a counter of the members that are open; the counter is raised before a member is read
and lowered after it, whether it could be read or not, and a member that would make it greater than the limit is refused. That is
all that keeps the procedures from calling one another forever.

A procedure may run forever, as far as its definition goes: nothing in it says that it ends. Every call is noted when it returns,
with the calls around it and with the cursor and the counter before and after it, and so is every index at which a character is
named as unexpected.
-/

namespace ClassSchema

namespace Descent

/-- The rules that have procedures of their own. -/
inductive Rule where
  | union | member | memberInner | primary | list
  deriving DecidableEq, Repr

/-- How many characters have been read, and how many members are open by the counter. -/
structure Progress where
  pos : Nat
  depth : Nat
  deriving DecidableEq, Repr

/-- A call that has returned. -/
structure Call where
  rule : Rule
  /-- The calls that it was made in, the innermost first. -/
  around : List Rule
  start : Progress
  stop : Progress
  succeeded : Bool
  deriving DecidableEq, Repr

/-- What the procedures read and change, and what is noted about them. -/
structure Ledger where
  progress : Progress
  calls : List Call
  /-- The indices at which a character has been named as unexpected. -/
  asked : List Nat
  deriving DecidableEq, Repr

/-- The ledger before the first call. -/
def Ledger.start : Ledger := ⟨⟨0, 0⟩, [], []⟩

/-- A computation that changes a ledger, may fail, and may run forever. A failure keeps the ledger as it is. -/
abbrev Procedure := ExceptT Fault (StateT Ledger Option)

variable {α : Type}

/-- What a procedure does from a ledger; nothing, if it runs forever. -/
def runFrom (x : Procedure α) (l : Ledger) : Option (Except Fault α × Ledger) := x.run.run l

/-- The progress so far. -/
def progress : StateT Ledger Option Progress := return (← get).progress

/-- Changes the progress. -/
def change (f : Progress → Progress) : StateT Ledger Option Unit := modify fun l => { l with progress := f l.progress }

/-- Notes a call that returns. -/
def note (rule : Rule) (around : List Rule) (start : Progress) (out : Except Fault α) :
    StateT Ledger Option (Except Fault α) := do
  let stop ← progress
  modify fun l => { l with calls := l.calls ++ [⟨rule, around, start, stop, out.isOk⟩] }
  return out

/-! ## Characters -/

section

variable (cs : List Char)

/-- Reads a number of characters. -/
def advance (n : Nat) : Procedure Unit := change fun p => { p with pos := p.pos + n }

/-- The next character. -/
def peek : Procedure (Option Char) := return cs[(← progress).pos]?

/-- Reads blanks. -/
def skipBlanks : Procedure Unit := do advance ((cs.drop (← progress).pos).takeWhile isBlank).length

/-- Whether the next character that is no blank is this one. -/
def peekIs (c : Char) : Procedure Bool := do
  skipBlanks cs
  return (← peek cs) = some c

/-- Reads a character if it is the next that is no blank. -/
def eat (c : Char) : Procedure Bool := do
  if ← peekIs cs c then
    advance 1
    return true
  else return false

/-- Fails because of the character at an index. -/
def unexpectedAt (i : Nat) : Procedure α := do
  modify fun l => { l with asked := l.asked ++ [i] }
  match cs[i]? with
  | some c => throw (.unexpected (utf8Length (cs.take i)) c)
  | none => throw (.unexpectedEnd .name)

/-- Fails because of the next character. -/
def unexpected : Procedure α := do unexpectedAt cs (← progress).pos

/-- Fails because of the next character, or because there is none where something was wanted. -/
def unexpectedOrEnd (expected : Expected) : Procedure α := do
  match ← peek cs with
  | some _ => unexpected cs
  | none => throw (.unexpectedEnd expected)

/-- Reads a character, which has to be the next that is no blank. -/
def expect (c : Char) (expected : Expected) : Procedure Unit := do
  if ← eat cs c then return ()
  else unexpectedOrEnd cs expected

/-- The longest word at the beginning of a text. -/
def firstWord : List Char → List Char
  | [] => []
  | c :: cs => if isWordStart c then c :: cs.takeWhile isWordChar else []

/-- Reads a word, which has to be there and must not end with a dash. -/
def nameOf (word : List Char) : Procedure String := do
  advance word.length
  if word.isEmpty then unexpectedOrEnd cs .name
  else if word.getLast? = some '-' then unexpectedAt cs ((← progress).pos - 1)
  else return .ofList word

/-- The generic of a name and its arguments; if there are none, the closing mark is what was not expected. -/
def genericOf (name : String) : List TypeExpr → Procedure TypeExpr
  | [] => do unexpectedAt cs ((← progress).pos - 1)
  | [arg] => return .generic name arg
  | args => throw (.tooManyArguments name args.length)

/-- Reads a name. -/
def ident : Procedure String := do
  skipBlanks cs
  nameOf cs (firstWord (cs.drop (← progress).pos))

end

/-! ## Rules -/

section

variable (limit : Nat) (cs : List Char)

/-- Raises the counter, unless it has reached the limit. -/
def descend : Procedure Unit := do
  if limit ≤ (← progress).depth then throw (.tooDeep limit)
  else change fun p => { p with depth := p.depth + 1 }

/-- Reads suffixes after an expression that has been wrapped by some. -/
def suffixes (wraps : Nat) (expr : TypeExpr) : Procedure TypeExpr := do
  let more : Nat → TypeExpr → Procedure TypeExpr := by apply suffixes
  if ← eat cs '[' then
    expect cs ']' .closeSquare
    if limit < (← progress).depth + (wraps + 1) then throw (.tooDeep limit)
    else more (wraps + 1) expr.arrayOf
  else return expr
  partial_fixpoint

mutual

/-- Reads members and the marks between them. -/
def union (around : List Rule) : Procedure TypeExpr := (do
  -- Here and below the calls are named by a tactic: such a call keeps no record of where in the file it stands.
  let first : List Rule → Procedure TypeExpr := by apply member
  let others : List Rule → List TypeExpr → TypeExpr → Procedure TypeExpr := by apply moreMembers
  let start ← progress
  let out ← (do others (.union :: around) [] (← first (.union :: around)) : Procedure TypeExpr).run
  note .union around start out : StateT Ledger Option (Except Fault TypeExpr))
  partial_fixpoint

/-- Reads members as long as there are marks before them. -/
def moreMembers (around : List Rule) (before : List TypeExpr) (last : TypeExpr) : Procedure TypeExpr := do
  let next : List Rule → Procedure TypeExpr := by apply member
  let others : List Rule → List TypeExpr → TypeExpr → Procedure TypeExpr := by apply moreMembers
  if ← eat cs '|' then others around (before ++ [last]) (← next around)
  else return unionOf before last
  partial_fixpoint

/-- Reads a member while the counter is raised. -/
def member (around : List Rule) : Procedure TypeExpr := (do
  let inside : List Rule → Procedure TypeExpr := by apply memberInner
  let start ← progress
  let out ← (do
    descend limit
    (do
      let out ← (inside (.member :: around)).run
      change fun p => { p with depth := p.depth - 1 }
      return out : StateT Ledger Option (Except Fault TypeExpr)) : Procedure TypeExpr).run
  note .member around start out : StateT Ledger Option (Except Fault TypeExpr))
  partial_fixpoint

/-- Reads what a member is made of. -/
def memberInner (around : List Rule) : Procedure TypeExpr := (do
  let inside : List Rule → Procedure TypeExpr := by apply member
  let plain : List Rule → Procedure TypeExpr := by apply primary
  let start ← progress
  let out ← (do
    if ← eat cs '?' then return (← inside (.memberInner :: around)).nullable
    else suffixes limit cs 0 (← plain (.memberInner :: around)) : Procedure TypeExpr).run
  note .memberInner around start out : StateT Ledger Option (Except Fault TypeExpr))
  partial_fixpoint

/-- Reads a name and the entries in its brackets. -/
def primary (around : List Rule) : Procedure TypeExpr := (do
  let entries : List Rule → Bracket → Procedure (List TypeExpr) := by apply list
  let start ← progress
  let out ← (do
    let name ← ident cs
    if ← eat cs '<' then genericOf cs name (← entries (.primary :: around) .angle)
    else if ← peekIs cs '{' then
      if TypeExpr.isArrayName name then
        let _ ← eat cs '{'
        return .tuple (← entries (.primary :: around) .brace)
      else throw (.shapeBase name)
    else return .ident name : Procedure TypeExpr).run
  note .primary around start out : StateT Ledger Option (Except Fault TypeExpr))
  partial_fixpoint

/-- Reads entries up to the mark that closes their bracket. -/
def list (around : List Rule) (bracket : Bracket) : Procedure (List TypeExpr) := (do
  let entries : List Rule → Bracket → List TypeExpr → Procedure (List TypeExpr) := by apply moreEntries
  let start ← progress
  let out ← (do
    if ← eat cs bracket.close then return []
    else entries (.list :: around) bracket [] : Procedure (List TypeExpr)).run
  note .list around start out : StateT Ledger Option (Except Fault (List TypeExpr)))
  partial_fixpoint

/-- Reads an entry and those after it. -/
def moreEntries (around : List Rule) (bracket : Bracket) (done : List TypeExpr) : Procedure (List TypeExpr) := do
  let entry : List Rule → Procedure TypeExpr := by apply union
  let others : List Rule → Bracket → List TypeExpr → Procedure (List TypeExpr) := by apply moreEntries
  let e ← entry around
  if ← eat cs ',' then others around bracket (done ++ [e])
  else
    expect cs bracket.close (.entryEnd bracket)
    return done ++ [e]
  partial_fixpoint

end

/-- Reads a whole annotation. -/
def whole : Procedure TypeExpr := do
  skipBlanks cs
  if (← peek cs).isNone then throw .empty
  else
    let expr ← union limit cs []
    skipBlanks cs
    if (← peek cs).isNone then return expr
    else unexpected cs

end

end Descent

end ClassSchema
