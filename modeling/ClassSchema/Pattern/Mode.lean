import ClassSchema.Text.Blank

/-!
# How an expression is read

The flags of a regular expression say how its characters are read. Two of them decide what is well formed: whether the
characters are those of Unicode or bytes, and whether blanks and comments stand for nothing. A list of flags turns on what
it names before a dash and off what it names after it.
-/

namespace ClassSchema

namespace Pattern

/-- How a part of an expression is read. -/
structure Mode where
  /-- The characters are those of Unicode; otherwise they are bytes, and what is no text in UTF-8 must not be matched. -/
  unicode : Bool
  /-- Blanks and comments stand for nothing. -/
  spaced : Bool
  deriving DecidableEq, Repr

/-- The mode at the start of an expression. -/
def Mode.initial : Mode := ⟨true, false⟩

/-! ## Blanks and comments -/

/-- The rest of a text after blanks and comments. A comment begins with `#` and ends with its line; `commented` says
whether the text starts inside one. -/
def afterBlanks (commented : Bool) : List Char → List Char
  | [] => []
  | c :: cs =>
    if commented then afterBlanks (c != '\n') cs
    else if isBlank c then afterBlanks false cs
    else if c = '#' then afterBlanks true cs
    else c :: cs

/-- The rest of a text after what stands for nothing. -/
def Mode.skip (m : Mode) (cs : List Char) : List Char := if m.spaced then afterBlanks false cs else cs

/-- What stands for nothing is skipped once. -/
theorem afterBlanks_idem (commented : Bool) (cs : List Char) :
    afterBlanks false (afterBlanks commented cs) = afterBlanks commented cs := by
  fun_induction afterBlanks commented cs with
  | case1 => rfl
  | case2 _ _ ih => exact ih
  | case3 _ _ _ _ _ ih => exact ih
  | case4 _ _ _ _ ih => exact ih
  | case5 _ _ _ _ hb hc => simp [afterBlanks, hb, hc]

/-! ## Flags -/

/-- Whether a text is a list of flags: letters without repetition, and a dash that a letter follows. -/
def isFlags (cs : List Char) : Bool :=
  cs.all (· ∈ ['i', 'm', 's', 'U', 'u', 'R', 'x', '-']) && cs.eraseDups.length == cs.length && cs.getLast? != some '-'

/-- What a list of flags makes of one flag. -/
def setting (flags : List Char) (flag : Char) (before : Bool) : Bool :=
  if flag ∈ flags then flag ∈ flags.takeWhile (· != '-') else before

/-- The mode after a list of flags. -/
def Mode.withFlags (m : Mode) (flags : List Char) : Mode := ⟨setting flags 'u' m.unicode, setting flags 'x' m.spaced⟩

end Pattern

end ClassSchema
