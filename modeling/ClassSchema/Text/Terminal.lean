/-!
# Texts without what a terminal obeys

A terminal shows some characters of a text and obeys others: control characters, and the sequences that an escape
character begins. A message that repeats what a user has written is put on a terminal without them. The tab, the line
feed, the form feed and the carriage return are kept.

Inside a sequence the characters kept are the blanks that a terminal obeys at once. What follows such a blank is kept as
well, up to the next character that is not shown; there the sequence goes on.
-/

namespace ClassSchema

/-- Where a place in a text is: outside of all sequences, or in a part of one. -/
inductive SequenceState where
  | outside
  /-- After the escape character. -/
  | escape
  /-- After the escape character and characters that a final character follows. -/
  | escapeIntermediate
  /-- In a control sequence, which a final character ends. -/
  | control
  /-- At the start of a device control string. -/
  | deviceEntry
  /-- In the parameters of a device control string. -/
  | deviceParameter
  /-- After the parameters of a device control string. -/
  | deviceIntermediate
  /-- In the characters of a string that a terminator ends. -/
  | string
  /-- In an operating system command, which the bell ends as well. -/
  | command
  deriving DecidableEq, Repr

/-- A blank that a terminal obeys by moving. -/
def isMovement (c : Char) : Bool := c == '\t' || c == '\n' || c == '\x0c' || c == '\r'

/-- A character that is kept outside of all sequences. -/
def isKept (c : Char) : Bool := isMovement c || (0x20 ≤ c.toNat && c.toNat != 0x7F)

/-- Whether the encoding of a character has the byte that ends a string: six bits of its code point are 0x1C. -/
def hasTerminator (c : Char) : Bool :=
  let n := c.toNat
  (0x80 ≤ n && n % 0x40 == 0x1C) || (0x800 ≤ n && n / 0x40 % 0x40 == 0x1C) ||
    (0x10000 ≤ n && n / 0x1000 % 0x40 == 0x1C)

namespace SequenceState

/-- Where the text is after a character that does not begin a sequence and does not cancel one. -/
def after (s : SequenceState) (c : Char) : SequenceState :=
  let n := c.toNat
  let within (low high : Nat) : Bool := low ≤ n && n ≤ high
  match s with
  | outside => outside
  | escape =>
    if within 0x20 0x2F then escapeIntermediate
    else if c = '[' then control
    else if c = ']' then command
    else if c = 'P' then deviceEntry
    else if c = 'X' ∨ c = '^' ∨ c = '_' then string
    else if within 0x30 0x7E then outside
    else escape
  | escapeIntermediate => if within 0x30 0x7E then outside else escapeIntermediate
  | control => if within 0x40 0x7E then outside else control
  | deviceEntry =>
    if within 0x20 0x2F then deviceIntermediate
    else if within 0x30 0x3F then deviceParameter
    else if within 0x40 0x7E then string
    else deviceEntry
  | deviceParameter =>
    if within 0x20 0x2F then deviceIntermediate
    else if within 0x3C 0x7E then string
    else deviceParameter
  | deviceIntermediate => if within 0x30 0x7E then string else deviceIntermediate
  | string => if hasTerminator c then outside else string
  | command => if c = '\x07' then outside else command

/-- Where the text is after a character. The escape character begins a sequence anywhere, and U+0018 and U+001A cancel
one. -/
def next (s : SequenceState) (c : Char) : SequenceState :=
  if c = '\x1b' then escape else if c = '\x18' ∨ c = '\x1a' then outside else s.after c

/-- Whether a character is kept where the text is. -/
def keeps (s : SequenceState) (c : Char) : Bool :=
  match s with
  | outside => isKept c
  | escape | escapeIntermediate | control => isMovement c
  | deviceEntry | deviceParameter | deviceIntermediate | string | command => false

/-- The characters of a text that are kept, from a place in it on, given whether the character before was kept. A
character outside of ASCII that follows a kept one ends the sequence. -/
def kept (s : SequenceState) (shown : Bool) : List Char → List Char
  | [] => []
  | c :: cs =>
    if shown && isKept c then c :: kept (if c.toNat < 0x80 then s else outside) true cs
    else if s.keeps c then c :: kept (s.next c) true cs
    else kept (s.next c) false cs

theorem after_outside (c : Char) : outside.after c = outside := rfl

/-- A text of characters that are kept is kept as it is. -/
theorem kept_eq_self {cs : List Char} (h : ∀ c ∈ cs, isKept c = true) (shown : Bool) :
    kept outside shown cs = cs := by
  induction cs generalizing shown with
  | nil => rfl
  | cons c cs ih =>
    have hc : isKept c = true := h c (by simp)
    have hn : outside.next c = outside := by
      have h1 : c ≠ '\x1b' := by rintro rfl; exact absurd hc (by decide)
      simp [next, after_outside, h1]
    simp [kept, keeps, hc, hn, ih fun d hd => h d (by simp [hd])]

end SequenceState

/-- A text without what a terminal obeys. -/
def withoutControls (text : String) : String := String.ofList (SequenceState.outside.kept false text.toList)

end ClassSchema
