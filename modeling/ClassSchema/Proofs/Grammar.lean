import ClassSchema.TypeExpr.Parser
import Mathlib.Logic.Function.Iterate

/-!
# The grammar of annotations

The annotations that may be written, as trees with one constructor for each alternative of the grammar:

```text
alternation := member | member '|' alternation
member      := '?' member | primary ( '[' ']' )*
primary     := name | name '<' entries '>' | 'array' '{' '}' | 'array' '{' entries '}'
entries     := alternation | alternation ',' entries
```

An annotation is an alternation.

A tree says what it is written as (`tokens`), which expression it stands for (`expr?`: none if a generic in it has several
arguments), and how deep it is nested (`cost`). A text writes a tree if it consists of the tokens of the tree with any blanks
around them (`Spells`). Nothing here mentions how an annotation is read.
-/

namespace ClassSchema

namespace Grammar

/-! ## Trees -/

/-- A name: ASCII letters, digits, `_` and `-`, at least one character, with no `-` at either end. -/
structure Name where
  head : Char
  tail : List Char
  head_start : isWordStart head = true
  tail_word : ∀ c ∈ tail, isWordChar c = true
  last_ne : tail.getLast? ≠ some '-'

/-- The text of a name. -/
def Name.text (n : Name) : String := .ofList (n.head :: n.tail)

/-- A name as a token. -/
def Name.token (n : Name) : Token := .word n.head n.tail

/-- A name before a bracket: in front of a brace it is `array`. -/
def Name.Opens (n : Name) (bracket : Bracket) : Prop := bracket = .brace → TypeExpr.isArrayName n.text = true

mutual

/-- The members of a union, or one member by itself. -/
inductive Alternation where
  | single (m : Member)
  | alternative (m : Member) (rest : Alternation)

/-- A member of a union. -/
inductive Member where
  /-- A member made nullable by the `?` before it. -/
  | nullable (inner : Member)
  /-- A primary with a number of suffixes `[]`. -/
  | plain (p : Primary) (wraps : Nat)

/-- A member without `?` and suffixes. -/
inductive Primary where
  | name (n : Name)
  /-- The shape without elements. -/
  | empty (base : Name) (opens : base.Opens .brace)
  /-- A generic with its arguments, or a shape with its elements. -/
  | bracketed (base : Name) (bracket : Bracket) (opens : base.Opens bracket) (entries : Entries)

/-- The entries in a bracket; there is at least one. -/
inductive Entries where
  | single (a : Alternation)
  | more (a : Alternation) (rest : Entries)

end

/-! ## What a tree is written as -/

/-- The mark that opens a bracket. -/
def opening : Bracket → Char
  | .angle => '<'
  | .brace => '{'

/-- A number of suffixes. -/
def suffixTokens : Nat → List Token
  | 0 => []
  | wraps + 1 => .mark '[' :: .mark ']' :: suffixTokens wraps

mutual

/-- The tokens of an annotation. -/
def Alternation.tokens : Alternation → List Token
  | .single m => m.tokens
  | .alternative m rest => m.tokens ++ .mark '|' :: rest.tokens

/-- The tokens of a member. -/
def Member.tokens : Member → List Token
  | .nullable inner => .mark '?' :: inner.tokens
  | .plain p wraps => p.tokens ++ suffixTokens wraps

/-- The tokens of a primary. -/
def Primary.tokens : Primary → List Token
  | .name n => [n.token]
  | .empty base _ => [base.token, .mark (opening .brace), .mark (Bracket.close .brace)]
  | .bracketed base bracket _ entries =>
    base.token :: .mark (opening bracket) :: (entries.tokens ++ [.mark bracket.close])

/-- The tokens of entries. -/
def Entries.tokens : Entries → List Token
  | .single a => a.tokens
  | .more a rest => a.tokens ++ .mark ',' :: rest.tokens

end

/-! ## How deep a tree is nested -/

mutual

/-- The cost of an annotation is that of its costliest member. -/
def Alternation.cost : Alternation → Nat
  | .single m => m.cost
  | .alternative m rest => max m.cost rest.cost

/-- The cost of a member: a `?` adds one, and the suffixes count as so many levels around a name. -/
def Member.cost : Member → Nat
  | .nullable inner => 1 + inner.cost
  | .plain p wraps => max (1 + wraps) p.cost

/-- The cost of a primary: a bracket adds one to its costliest entry. -/
def Primary.cost : Primary → Nat
  | .name _ => 1
  | .empty _ _ => 1
  | .bracketed _ _ _ entries => 1 + entries.cost

/-- The cost of entries is that of the costliest. -/
def Entries.cost : Entries → Nat
  | .single a => a.cost
  | .more a rest => max a.cost rest.cost

end

/-! ## What a tree stands for -/

/-- The expression of the members of a union: a member alone is no union. -/
def ofMembers : List TypeExpr → TypeExpr
  | [t] => t
  | ts => .union ts

/-- The expression of a bracket: a generic has exactly one argument. -/
def ofEntries (base : String) : Bracket → List TypeExpr → Option TypeExpr
  | .brace, elements => some (.tuple elements)
  | .angle, [arg] => some (.generic base arg)
  | .angle, _ => none

mutual

/-- The expressions of the members of an annotation. -/
def Alternation.members? : Alternation → Option (List TypeExpr)
  | .single m => m.expr?.map ([·])
  | .alternative m rest => m.expr?.bind fun t => rest.members?.map (t :: ·)

/-- The expression of a member: `?T` is short for `T|null`, and `T[]` for `array<T>`. -/
def Member.expr? : Member → Option TypeExpr
  | .nullable inner => inner.expr?.map fun t => .union [t, .ident "null"]
  | .plain p wraps => p.expr?.map ((TypeExpr.generic "array")^[wraps])

/-- The expression of a primary. -/
def Primary.expr? : Primary → Option TypeExpr
  | .name n => some (.ident n.text)
  | .empty _ _ => some (.tuple [])
  | .bracketed base bracket _ entries => entries.exprs?.bind (ofEntries base.text bracket)

/-- The expressions of entries. -/
def Entries.exprs? : Entries → Option (List TypeExpr)
  | .single a => a.members?.map fun ts => [ofMembers ts]
  | .more a rest => a.members?.bind fun ts => rest.exprs?.map (ofMembers ts :: ·)

end

/-- The tree of `?T` is the one that the type expressions have for it. -/
theorem Member.expr?_nullable (inner : Member) : (Member.nullable inner).expr? = inner.expr?.map TypeExpr.nullable := rfl

/-- The tree of `T[]` is the one that the type expressions have for it. -/
theorem Member.expr?_plain (p : Primary) (wraps : Nat) :
    (Member.plain p wraps).expr? = p.expr?.map (TypeExpr.arrayOf^[wraps]) := rfl

/-- The expression of an annotation, if no generic in it has several arguments. -/
def Alternation.expr? (a : Alternation) : Option TypeExpr := a.members?.map ofMembers

/-! ## Texts -/

/-- The characters of a token. -/
def tokenText : Token → List Char
  | .word c cs => c :: cs
  | .mark c => [c]

/-- A text that consists of tokens in order, with any blanks before, between and after them. -/
inductive Spells : List Char → List Token → Prop where
  | nil {blanks : List Char} : (∀ c ∈ blanks, isBlank c = true) → Spells blanks []
  | cons {blanks cs : List Char} {t : Token} {ts : List Token} :
      (∀ c ∈ blanks, isBlank c = true) → Spells cs ts → Spells (blanks ++ tokenText t ++ cs) (t :: ts)

/-- A text that writes an annotation. -/
def Alternation.Writes (a : Alternation) (text : String) : Prop := Spells text.toList a.tokens

end Grammar

end ClassSchema
