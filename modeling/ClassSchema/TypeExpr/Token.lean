import ClassSchema.Text.Blank
import ClassSchema.Text.Size

/-!
# The tokens of an annotation

An annotation is cut into words and marks. A word is a longest run of ASCII letters, digits, `_` and `-` that does not
start with `-`; every other character that is not a blank is a mark of its own. Blanks stand between tokens and are
dropped. A token remembers the byte offset at which it starts in the UTF-8 form of the text, so that a fault can point
into the text.

A word may end with `-`. It is then no name, but it is still one word: the fault is found where the word is used.
-/

namespace ClassSchema

/-- A character that a word may start with. -/
def isWordStart (c : Char) : Bool := c.isAlphanum || c == '_'

/-- A character that a word may go on with. -/
def isWordChar (c : Char) : Bool := isWordStart c || c == '-'

/-- A piece of an annotation. -/
inductive Token where
  /-- A longest run of word characters: its first character and the others. -/
  | word (head : Char) (tail : List Char)
  /-- Any other character but a blank. -/
  | mark (char : Char)
  deriving DecidableEq, Repr

/-- A token and the byte offset at which it starts. -/
structure Located where
  offset : Nat
  token : Token
  deriving DecidableEq, Repr

/-- The tokens of a text that starts at a byte offset. -/
def Token.scan (offset : Nat) : List Char → List Located
  | [] => []
  | c :: cs =>
    if isBlank c then scan (offset + c.utf8Size) cs
    else if isWordStart c then
      ⟨offset, .word c (cs.takeWhile isWordChar)⟩ ::
        scan (offset + utf8Length (c :: cs.takeWhile isWordChar)) (cs.dropWhile isWordChar)
    else ⟨offset, .mark c⟩ :: scan (offset + c.utf8Size) cs
  termination_by cs => cs.length
  decreasing_by
    all_goals simp only [List.length_cons]
    · omega
    · exact Nat.lt_succ_of_le (List.dropWhile_suffix _).length_le
    · omega

/-- The first character of a token, at which the token is reported when it stands in the wrong place. -/
def Token.firstChar : Token → Char
  | .word c _ => c
  | .mark c => c

end ClassSchema
