import ClassSchema.TypeExpr.Basic
import ClassSchema.TypeExpr.SyntaxError
import ClassSchema.TypeExpr.Token

/-!
# Reading an annotation

The grammar, loosest first; blanks may stand around every token:

```text
annotation := member ( '|' member )*
member     := '?' member
            | primary ( '[' ']' )*
primary    := name
            | name '<' annotation '>'
            | 'array' '{' [ annotation ( ',' annotation )* ] '}'
```

The tokens are read one after the other by a machine whose state says what may come next (`Phase`) and what has begun
and is not finished (`Frame`). A frame is a member inside which another member is being read: one that began with `?`,
or one whose name is followed by an open bracket. So the number of frames is the nesting of the place being read, and
the limit is a bound on that number; the suffixes `[]` of a member count on top of it, since each of them makes the
expression one level higher.

A generic with several arguments is read to its closing mark, so that they can be counted, and then refused.
-/

namespace ClassSchema

/-- The nesting that an annotation may have. -/
def maxNesting : Nat := 64

/-- A member that has begun and waits for a member inside it. -/
inductive Frame where
  /-- A `?`, which waits for the member that it makes nullable. -/
  | nullable
  /-- A name and an open bracket, the entries that are complete, and the members of the union outside that the name
  belongs to. -/
  | entries (base : String) (bracket : Bracket) (done outer : List TypeExpr)
  deriving DecidableEq, Repr

/-- What has been read last, and with it what may come next. -/
inductive Phase where
  /-- Nothing of a member yet: one has to begin. -/
  | start
  /-- A name and the bracket after it: the bracket closes, or its first entry begins. -/
  | opened (base : String) (bracket : Bracket)
  /-- A name: a bracket may open. -/
  | named (name : String)
  /-- An expression, wrapped by a number of suffixes `[]`: another may follow, or the member ends. -/
  | suffixed (expr : TypeExpr) (wraps : Nat)
  /-- The `[` of a suffix: its `]` has to follow. -/
  | square (expr : TypeExpr) (wraps : Nat)
  deriving DecidableEq, Repr

/-- A place in an annotation: the frames around it, innermost first, the complete members of the union being read, and
what has been read last. -/
structure Place where
  frames : List Frame
  members : List TypeExpr
  phase : Phase
  deriving DecidableEq, Repr

/-- The place before the first token. -/
def Place.initial : Place := ⟨[], [], .start⟩

/-- A union of the members before and the last one; a member alone is no union. -/
def unionOf (before : List TypeExpr) (last : TypeExpr) : TypeExpr :=
  if before.isEmpty then last else .union (before ++ [last])

/-- The fault of a token that cannot stand where it does. -/
def Located.unexpected (t : Located) : Fault := .unexpected t.offset t.token.firstChar

/-- A member begins with this token: with `?`, or with a word that does not end in `-`. A member too deep is refused
before its token is looked at. -/
def beginMember (limit : Nat) (frames : List Frame) (members : List TypeExpr) (t : Located) : Except Fault Place :=
  if limit ≤ frames.length then .error (.tooDeep limit)
  else match t.token with
    | .word c cs =>
      if cs.getLast? = some '-' then .error (.unexpected (t.offset + cs.length) '-')
      else .ok ⟨frames, members, .named (.ofList (c :: cs))⟩
    | .mark c => if c = '?' then .ok ⟨.nullable :: frames, members, .start⟩ else .error t.unexpected

/-- The expression that a name makes with the entries in its bracket. -/
def closeEntries (base : String) : Bracket → List TypeExpr → Except Fault TypeExpr
  | .brace, entries => .ok (.tuple entries)
  | .angle, [arg] => .ok (.generic base arg)
  | .angle, args => .error (.tooManyArguments base args.length)

/-- A member is complete, and this token follows it: another member of its union, another entry of the bracket around
it, or the end of that bracket. -/
def endMember (members : List TypeExpr) (t : Located) : List Frame → TypeExpr → Except Fault Place
  | .nullable :: frames, expr => endMember members t frames expr.nullable
  | [], expr =>
    if t.token = .mark '|' then .ok ⟨[], members ++ [expr], .start⟩ else .error t.unexpected
  | .entries base bracket done outer :: frames, expr =>
    if t.token = .mark '|' then .ok ⟨.entries base bracket done outer :: frames, members ++ [expr], .start⟩
    else if t.token = .mark ',' then
      .ok ⟨.entries base bracket (done ++ [unionOf members expr]) outer :: frames, [], .start⟩
    else if t.token = .mark bracket.close then
      (closeEntries base bracket (done ++ [unionOf members expr])).map fun e => ⟨frames, outer, .suffixed e 0⟩
    else .error t.unexpected

/-- An expression is complete but for suffixes, and this token follows it: the `[` of a suffix, or what follows the
member. -/
def afterExpr (frames : List Frame) (members : List TypeExpr) (expr : TypeExpr) (wraps : Nat) (t : Located) :
    Except Fault Place :=
  if t.token = .mark '[' then .ok ⟨frames, members, .square expr wraps⟩ else endMember members t frames expr

/-- The place after a token. -/
def Place.step (limit : Nat) (p : Place) (t : Located) : Except Fault Place :=
  match p.phase with
  | .start => beginMember limit p.frames p.members t
  | .opened base bracket =>
    if t.token = .mark bracket.close then
      match bracket with
      | .brace => .ok { p with phase := .suffixed (.tuple []) 0 }
      | .angle => .error t.unexpected
    else beginMember limit (.entries base bracket [] p.members :: p.frames) [] t
  | .named name =>
    if t.token = .mark '<' then .ok { p with phase := .opened name .angle }
    else if t.token = .mark '{' then
      if TypeExpr.isArrayName name then .ok { p with phase := .opened name .brace } else .error (.shapeBase name)
    else afterExpr p.frames p.members (.ident name) 0 t
  | .suffixed expr wraps => afterExpr p.frames p.members expr wraps t
  | .square expr wraps =>
    if t.token = .mark ']' then
      if limit ≤ p.frames.length + wraps + 1 then .error (.tooDeep limit)
      else .ok { p with phase := .suffixed expr.arrayOf (wraps + 1) }
    else .error t.unexpected

/-- A member is complete, and the text ends after it: nothing but `?` may still be open. -/
def endText (members : List TypeExpr) : List Frame → TypeExpr → Except Fault TypeExpr
  | .nullable :: frames, expr => endText members frames expr.nullable
  | [], expr => .ok (unionOf members expr)
  | .entries _ bracket _ _ :: _, _ => .error (.unexpectedEnd (.entryEnd bracket))

/-- What has been read when the text ends. -/
def Place.finish (limit : Nat) (p : Place) : Except Fault TypeExpr :=
  match p.phase with
  | .start => .error (if limit ≤ p.frames.length then .tooDeep limit else .unexpectedEnd .name)
  | .opened .. => .error (if limit ≤ p.frames.length + 1 then .tooDeep limit else .unexpectedEnd .name)
  | .named name => endText p.members p.frames (.ident name)
  | .suffixed expr _ => endText p.members p.frames expr
  | .square .. => .error (.unexpectedEnd .closeSquare)

/-- The expression that tokens write, with a limit on the nesting. -/
def TypeExpr.ofTokens (limit : Nat) (ts : List Located) : Except Fault TypeExpr :=
  if ts.isEmpty then .error .empty else do (← ts.foldlM (Place.step limit) .initial).finish limit

/-- The expression that an annotation writes, or the first fault in it. -/
def TypeExpr.parse (text : String) : Except SyntaxError TypeExpr :=
  (TypeExpr.ofTokens maxNesting (Token.scan 0 text.toList)).mapError (⟨text, ·⟩)

end ClassSchema
