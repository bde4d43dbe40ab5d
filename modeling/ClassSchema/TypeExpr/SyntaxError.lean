/-!
# What is wrong with an annotation

A fault is the first reason why a text is no annotation; a syntax error is a fault together with the text it was found
in. `SyntaxError.message` is the one place that words them.

`Fault.tooManyArguments` differs from the others: the generic it names was written correctly and is refused, because a
generic has one argument (`SyntaxError.isUnsupported`).
-/

namespace ClassSchema

/-- The brackets that hold entries after a name. -/
inductive Bracket where
  | angle | brace
  deriving DecidableEq, Repr

/-- The mark that closes a bracket. -/
def Bracket.close : Bracket → Char
  | .angle => '>'
  | .brace => '}'

/-- What was wanted where a text ends too early. -/
inductive Expected where
  /-- A name, which every member starts with. -/
  | name
  /-- The `]` after a `[`. -/
  | closeSquare
  /-- A comma, or the end of the entries in a bracket. -/
  | entryEnd (bracket : Bracket)
  deriving DecidableEq, Repr

/-- The words for what was wanted. -/
def Expected.text : Expected → String
  | .name => "a type name"
  | .closeSquare => "`]`"
  | .entryEnd .angle => "`,` or `>`"
  | .entryEnd .brace => "`,` or `\x7d`"

/-- The first reason why a text is no annotation. -/
inductive Fault where
  /-- There are only blanks. -/
  | empty
  /-- A character that cannot stand where it does, and the byte offset at which it stands. -/
  | unexpected (offset : Nat) (found : Char)
  /-- The text ends where something is still wanted. -/
  | unexpectedEnd (expected : Expected)
  /-- Elements in braces after a name other than `array`. -/
  | shapeBase (base : String)
  /-- A generic with more than one argument. -/
  | tooManyArguments (base : String) (count : Nat)
  /-- More constructs inside one another than the limit allows. -/
  | tooDeep (limit : Nat)
  deriving DecidableEq, Repr

/-- A fault and the annotation it was found in. -/
structure SyntaxError where
  text : String
  fault : Fault
  deriving DecidableEq, Repr

/-- Whether the annotation was refused for what it says, not for how it is written. -/
def SyntaxError.isUnsupported (e : SyntaxError) : Bool :=
  match e.fault with
  | .tooManyArguments .. => true
  | _ => false

/-- The words for a syntax error. -/
def SyntaxError.message (e : SyntaxError) : String :=
  match e.fault with
  | .empty => "empty type annotation"
  | .unexpected offset found => s!"unexpected `{found}` at offset {offset} in `{e.text}`"
  | .unexpectedEnd expected => s!"unexpected end of `{e.text}`, expected {expected.text}"
  | .shapeBase base => s!"`{base}\x7b..\x7d` is not a shape; only `array\x7b..\x7d` takes elements"
  | .tooManyArguments base count => s!"generic `{base}` takes one argument, found {count}"
  | .tooDeep limit => s!"type nesting deeper than {limit} levels"

end ClassSchema
