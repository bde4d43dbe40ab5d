import ClassSchema.Text.Blank

/-!
# The types that a doc comment declares

A tag is `@var` with at least one space or tab after it; its body is the rest of the line. Tags are found from left to
right, and the body of one is not searched for another, so a line holds at most one. A line ends at a line feed or at a
carriage return.

The type stands at the start of the body (`leadingType`) and may itself hold blanks, as in `array{float, float}`. It
ends at the first blank outside the brackets `<>` and `{}` that does not touch the `|` of a union and does not follow a
`?`. Blanks outside the brackets that do not end the type are dropped, those inside are kept. The closing `*/` of the
comment is no part of the type.
-/

namespace ClassSchema

namespace DocComment

/-- A blank that may stand between `@var` and the body. -/
def isGap (c : Char) : Bool := c == ' ' || c == '\t'

/-- A character that ends a line. -/
def isLineEnd (c : Char) : Bool := c == '\r' || c == '\n'

/-- What follows a tag and its gap, if the text starts with a tag. -/
def afterTag? : List Char → Option (List Char)
  | '@' :: 'v' :: 'a' :: 'r' :: c :: cs => if isGap c then some (cs.dropWhile isGap) else none
  | _ => none

theorem length_lt_of_afterTag? {cs rest : List Char} (h : afterTag? cs = some rest) : rest.length < cs.length := by
  unfold afterTag? at h
  split at h
  · rename_i c cs
    split at h
    · cases h
      have := (List.dropWhile_suffix (l := cs) isGap).length_le
      simp only [List.length_cons]
      omega
    · cases h
  · cases h

/-- The bodies of the tags of a text, in order. -/
def bodies : List Char → List (List Char)
  | [] => []
  | c :: cs =>
    match _tag : afterTag? (c :: cs) with
    | some rest => rest.takeWhile (!isLineEnd ·) :: bodies (rest.dropWhile (!isLineEnd ·))
    | none => bodies cs
  termination_by cs => cs.length
  decreasing_by
    · have h1 := length_lt_of_afterTag? _tag
      have h2 := (List.dropWhile_suffix (l := rest) (!isLineEnd ·)).length_le
      omega
    · simp

/-- A reversed text without the comment ends `*/` that it starts with. -/
def dropClosers : List Char → List Char
  | '/' :: '*' :: cs => dropClosers cs
  | cs => cs

/-- The body of a tag without the comment ends after it and without the blanks around it. -/
def trimBody (body : List Char) : List Char := trim (dropClosers (trimEnd body).reverse).reverse

/-- By how much a character changes the number of open brackets. -/
def bracketStep (c : Char) : Int :=
  if c = '<' ∨ c = '{' then 1 else if c = '>' ∨ c = '}' then -1 else 0

/-- Whether the blanks at the start of `cs`, which follow the character `last`, stand inside a type: `last` is `|` or
`?`, or the next character after them is `|`. -/
def blanksJoin (last : Option Char) (cs : List Char) : Bool :=
  last == some '|' || last == some '?' || (cs.dropWhile isBlank).head? == some '|'

/-- The type at the start of a text, given the number of brackets open before it and the last character kept. -/
def typeFrom (depth : Int) (last : Option Char) : List Char → List Char
  | [] => []
  | c :: cs =>
    if isBlank c ∧ depth ≤ 0 then
      if blanksJoin last (c :: cs) then typeFrom depth last cs else []
    else c :: typeFrom (depth + bracketStep c) (some c) cs

/-- The type at the start of the body of a tag. -/
def leadingType (body : List Char) : List Char := typeFrom 0 none (trimBody body)

/-- The types that a doc comment declares, in order; a tag without a type declares none. -/
def annotations (doc : String) : List String :=
  (((bodies doc.toList).map leadingType).filter (!·.isEmpty)).map String.ofList

end DocComment

end ClassSchema
