/-!
# Cutting a text at a mark

A text with `n` marks has `n + 1` parts, some of them perhaps empty; joined with the mark they are the text again.
-/

namespace ClassSchema

/-- The part before the first mark, and the parts after it. -/
def splitAtMark (mark : Char) : List Char → List Char × List (List Char)
  | [] => ([], [])
  | c :: cs =>
    let (part, parts) := splitAtMark mark cs
    if c = mark then ([], part :: parts) else (c :: part, parts)

/-- The parts of a text between the marks in it. -/
def partsOf (mark : Char) (text : String) : List String :=
  let (part, parts) := splitAtMark mark text.toList
  (part :: parts).map String.ofList

end ClassSchema
