import ClassSchema.Json.Token

/-!
# The texts of JSON scalars

What numbers and strings look like in a text, said without the reader. A number has digits, perhaps a fraction and perhaps
an exponent (`NumberText.Written`). Inside the quotes of a string every character has a text of its own (`CharText`): itself,
or an escape.

The reader takes these texts and no others. A string ends at the first quote that is no part of a character
(`exists_readString`, `exists_stringText`). A number has no end of its own: it is read as far as it goes, which is to its end only before
characters that do not continue it (`EndsBefore`, `NumberText.exists_read_of_written`), and what is read is a number
(`NumberText.exists_written_of_read`).
-/

namespace ClassSchema

/-- One step after another succeeds when both do. -/
theorem bind_eq_ok {ε α β : Type} {x : Except ε α} {f : α → Except ε β} {b : β} :
    x >>= f = .ok b ↔ ∃ a, x = .ok a ∧ f a = .ok b := by
  cases x <;> simp [bind, Except.bind]

/-! ## Digits -/

/-- These characters are digits and have these values. -/
structure DigitText (ds : List Nat) (text : List Char) : Prop where
  isDigit : ∀ c ∈ text, c.isDigit = true
  values : text.map (fun c => c.toNat - '0'.toNat) = ds

/-- Where there are digits, the first character is one. -/
theorem DigitText.exists_first {ds : List Nat} {text : List Char} (h : DigitText ds text) (hne : ds ≠ []) :
    ∃ c cs, text = c :: cs ∧ c.isDigit = true := by
  cases text with
  | nil => exact absurd h.values.symm hne
  | cons c cs => exact ⟨c, cs, rfl, h.isDigit c List.mem_cons_self⟩

/-- A text goes on with no digit and with none of these characters. -/
def EndsBefore (marks rest : List Char) : Prop := ∀ c ∈ rest.head?, c.isDigit = false ∧ c ∉ marks

theorem EndsBefore.mono {marks marks' rest : List Char} (h : EndsBefore marks rest) (hsub : marks' ⊆ marks) :
    EndsBefore marks' rest := by
  intro c hc
  exact ⟨(h c hc).1, fun hmem => (h c hc).2 (hsub hmem)⟩

namespace Cursor

/-- After a text that stands at a cursor comes what stands after the text. -/
theorem rest_skip_length {cur : Cursor} (text : List Char) {rest : List Char} (h : cur.rest = text ++ rest) :
    (cur.skip text.length).rest = rest := by
  unfold skip
  rw [h, List.drop_left]

theorem rest_skip_one {cur : Cursor} {c : Char} {rest : List Char} (h : cur.rest = c :: rest) :
    (cur.skip 1).rest = rest := rest_skip_length [c] h

/-- Digits are read to the end if no digit follows them. -/
theorem digits_eq {cur : Cursor} {ds : List Nat} {text marks rest : List Char} (h : cur.rest = text ++ rest)
    (ht : DigitText ds text) (hend : EndsBefore marks rest) : cur.digits = ds ∧ cur.skipDigits.rest = rest := by
  have htake : cur.rest.takeWhile Char.isDigit = text := by
    rw [h, List.takeWhile_append_of_pos ht.isDigit]
    cases rest with
    | nil => simp
    | cons c rest =>
      have hc : c.isDigit = false := (hend c rfl).1
      rw [List.takeWhile_cons_of_neg (by simp [hc]), List.append_nil]
  have hdigits : cur.digits = ds := by
    unfold digits
    rw [htake, ht.values]
  refine ⟨hdigits, ?_⟩
  unfold skipDigits
  rw [hdigits, ← ht.values, List.length_map]
  exact rest_skip_length _ h

/-- What is read as digits is the text of digits. -/
theorem exists_digitText (cur : Cursor) : ∃ text, cur.rest = text ++ cur.skipDigits.rest ∧ DigitText cur.digits text := by
  have hsplit : cur.rest = cur.rest.takeWhile Char.isDigit ++ cur.rest.dropWhile Char.isDigit :=
    List.takeWhile_append_dropWhile.symm
  have hlength : cur.digits.length = (cur.rest.takeWhile Char.isDigit).length := List.length_map ..
  have hrest : cur.skipDigits.rest = cur.rest.dropWhile Char.isDigit := by
    unfold skipDigits
    rw [hlength]
    exact rest_skip_length _ hsplit
  refine ⟨cur.rest.takeWhile Char.isDigit, by rw [hrest]; exact hsplit, ?_, rfl⟩
  intro c hc
  exact List.all_eq_true.1 List.all_takeWhile c hc

end Cursor

/-! ## Numbers -/

/-- The text of a fraction: a point and digits, or nothing. -/
inductive FractionText : List Nat → List Char → Prop where
  | absent : FractionText [] []
  | digits {ds : List Nat} {text : List Char} : DigitText ds text → ds ≠ [] → FractionText ds ('.' :: text)

/-- The text of the sign of an exponent, which is negative or not. -/
inductive ExponentSign : Bool → List Char → Prop where
  | minus : ExponentSign true ['-']
  | plus : ExponentSign false ['+']
  | absent : ExponentSign false []

namespace ExponentText

/-- The text of an exponent: a letter, perhaps a sign, and digits, or nothing. -/
inductive Written : Option ExponentText → List Char → Prop where
  | absent : Written none []
  | digits {letter : Char} {negative : Bool} {sign text : List Char} {ds : List Nat} :
      letter = 'e' ∨ letter = 'E' → ExponentSign negative sign → DigitText ds text → ds ≠ [] →
      Written (some ⟨negative, ds⟩) (letter :: (sign ++ text))

end ExponentText

namespace NumberText

/-- The text of a number without its sign. The first digit is a zero only if it is the only one before the fraction. -/
inductive PartsWritten (n : NumberText) : List Char → Prop where
  | intro {whole fraction exponent : List Char} : DigitText n.whole whole → n.whole ≠ [] →
      ¬(n.whole.head? = some 0 ∧ 1 < n.whole.length) → FractionText n.fraction fraction →
      ExponentText.Written n.exponent exponent → PartsWritten n (whole ++ (fraction ++ exponent))

/-- The text of a number. -/
inductive Written (n : NumberText) : List Char → Prop where
  | negative {text : List Char} : n.negative = true → PartsWritten n text → Written n ('-' :: text)
  | unsigned {text : List Char} : n.negative = false → PartsWritten n text → Written n text

/-- The characters other than digits that would continue a number. -/
def continuing : List Char := ['.', 'e', 'E']

section Read

variable {cur stop : Cursor} {text rest : List Char}

theorem exists_readFraction {ds : List Nat} (h : cur.rest = text ++ rest) (ht : FractionText ds text)
    (hend : EndsBefore ['.'] rest) : ∃ stop, readFraction cur = .ok (ds, stop) ∧ stop.rest = rest := by
  unfold readFraction
  cases ht with
  | absent =>
    split
    · next cs hcs =>
      rw [h] at hcs
      exact absurd (List.mem_singleton_self '.') (hend '.' (by rw [List.nil_append] at hcs; rw [hcs]; rfl)).2
    · exact ⟨cur, rfl, h⟩
  | digits hdigits hne =>
    have hskip := Cursor.rest_skip_one h
    obtain ⟨hread, hrest⟩ := Cursor.digits_eq hskip hdigits hend
    simp only [h, List.cons_append, hread, List.isEmpty_iff, hne, if_false]
    exact ⟨_, rfl, hrest⟩

theorem exists_fractionText {ds : List Nat} (h : readFraction cur = .ok (ds, stop)) :
    ∃ text, cur.rest = text ++ stop.rest ∧ FractionText ds text := by
  unfold readFraction at h
  split at h
  · next cs hcs =>
    dsimp only at h
    split at h
    · nomatch h
    · next hne =>
      cases h
      obtain ⟨text, htext, hdigits⟩ := (cur.skip 1).exists_digitText
      rw [Cursor.rest_skip_one hcs] at htext
      refine ⟨'.' :: text, by rw [hcs, htext, List.cons_append], .digits hdigits ?_⟩
      simpa using hne
  · cases h
    exact ⟨[], rfl, .absent⟩

theorem exists_readExponentDigits {negative : Bool} {ds : List Nat} (h : cur.rest = text ++ rest)
    (ht : DigitText ds text) (hne : ds ≠ []) (hend : EndsBefore continuing rest) :
    ∃ stop, readExponentDigits negative cur = .ok (some ⟨negative, ds⟩, stop) ∧ stop.rest = rest := by
  obtain ⟨hread, hrest⟩ := Cursor.digits_eq h ht hend
  unfold readExponentDigits
  simp only [hread, List.isEmpty_iff, hne, if_false]
  exact ⟨_, rfl, hrest⟩

theorem exists_written_of_readExponentDigits {negative : Bool} {e : Option ExponentText}
    (h : readExponentDigits negative cur = .ok (e, stop)) : ∃ ds text, e = some ⟨negative, ds⟩ ∧
      cur.rest = text ++ stop.rest ∧ DigitText ds text ∧ ds ≠ [] := by
  unfold readExponentDigits at h
  split at h
  · nomatch h
  · next hne =>
    cases h
    obtain ⟨text, htext, hdigits⟩ := cur.exists_digitText
    exact ⟨cur.digits, text, rfl, htext, hdigits, by simpa using hne⟩

theorem exists_readExponent {e : Option ExponentText} (h : cur.rest = text ++ rest) (ht : ExponentText.Written e text)
    (hend : EndsBefore continuing rest) : ∃ stop, readExponent cur = .ok (e, stop) ∧ stop.rest = rest := by
  unfold readExponent
  cases ht with
  | absent =>
    rw [List.nil_append] at h
    have hmark : ¬(cur.rest.head? = some 'e' ∨ cur.rest.head? = some 'E') := by
      rw [h]
      rintro (he | he)
      · exact (hend 'e' he).2 (by decide)
      · exact (hend 'E' he).2 (by decide)
    rw [if_neg hmark]
    exact ⟨cur, rfl, h⟩
  | @digits letter negative sign digits ds hletter hsign hdigits hne =>
    have hmark : cur.rest.head? = some 'e' ∨ cur.rest.head? = some 'E' := by
      rw [h]
      rcases hletter with rfl | rfl
      · exact Or.inl rfl
      · exact Or.inr rfl
    have hskip := Cursor.rest_skip_one h
    rw [if_pos hmark]
    dsimp only
    cases hsign with
    | minus =>
      rw [if_pos (by rw [hskip]; rfl)]
      exact exists_readExponentDigits (Cursor.rest_skip_one hskip) hdigits hne hend
    | plus =>
      rw [if_neg (by rw [hskip]; exact nofun), if_pos (by rw [hskip]; rfl)]
      exact exists_readExponentDigits (Cursor.rest_skip_one hskip) hdigits hne hend
    | absent =>
      -- The first character is a digit and therefore no sign.
      obtain ⟨d, ds', rfl, hdigit⟩ := hdigits.exists_first hne
      have hfirst : ∀ c, (cur.skip 1).rest.head? = some c → c.isDigit = true := by
        intro c hc
        rw [hskip] at hc
        cases hc
        exact hdigit
      rw [if_neg (fun hc => absurd (hfirst '-' hc) (by decide)), if_neg (fun hc => absurd (hfirst '+' hc) (by decide))]
      exact exists_readExponentDigits hskip hdigits hne hend

theorem exists_written_of_readExponent {e : Option ExponentText} (h : readExponent cur = .ok (e, stop)) :
    ∃ text, cur.rest = text ++ stop.rest ∧ ExponentText.Written e text := by
  unfold readExponent at h
  split at h
  · next hmark =>
    obtain ⟨letter, cs, hcs, hletter⟩ : ∃ letter cs, cur.rest = letter :: cs ∧ (letter = 'e' ∨ letter = 'E') := by
      rcases hmark with hmark | hmark
      · obtain ⟨cs, hcs⟩ := List.head?_eq_some_iff.1 hmark
        exact ⟨'e', cs, hcs, Or.inl rfl⟩
      · obtain ⟨cs, hcs⟩ := List.head?_eq_some_iff.1 hmark
        exact ⟨'E', cs, hcs, Or.inr rfl⟩
    have hskip := Cursor.rest_skip_one hcs
    -- Whatever sign there is, digits follow it.
    have hrest : ∀ {negative sign} {inside : Cursor}, ExponentSign negative sign → cs = sign ++ inside.rest →
        readExponentDigits negative inside = .ok (e, stop) →
        ∃ text, cur.rest = text ++ stop.rest ∧ ExponentText.Written e text := by
      intro negative sign inside hsign hinside hread
      obtain ⟨ds, text, rfl, htext, hdigits, hne⟩ := exists_written_of_readExponentDigits hread
      refine ⟨letter :: (sign ++ text), ?_, .digits hletter hsign hdigits hne⟩
      rw [hcs, hinside, htext, List.cons_append, List.append_assoc]
    dsimp only at h
    split at h
    · next hminus =>
      obtain ⟨ds, hds⟩ := List.head?_eq_some_iff.1 hminus
      exact hrest .minus (by rw [Cursor.rest_skip_one hds, ← hskip, hds]; rfl) h
    · split at h
      · next hplus =>
        obtain ⟨ds, hds⟩ := List.head?_eq_some_iff.1 hplus
        exact hrest .plus (by rw [Cursor.rest_skip_one hds, ← hskip, hds]; rfl) h
      · exact hrest .absent (by rw [hskip, List.nil_append]) h
  · cases h
    exact ⟨[], rfl, .absent⟩

/-- A fraction goes on with what no digit and no point starts, whatever exponent stands after it. -/
theorem endsBefore_of_written {e : Option ExponentText} (h : ExponentText.Written e text)
    (hend : EndsBefore continuing rest) : EndsBefore ['.'] (text ++ rest) := by
  cases h with
  | absent => exact hend.mono (by decide)
  | digits hletter =>
    intro c hc
    cases hc
    rcases hletter with rfl | rfl <;> decide

/-- After its digits a number goes on with no digit. -/
theorem endsBefore_of_fractionText {ds : List Nat} (h : FractionText ds text) (hend : EndsBefore ['.'] rest) :
    EndsBefore [] (text ++ rest) := by
  cases h with
  | absent => exact hend.mono (List.nil_subset _)
  | digits =>
    intro c hc
    cases hc
    decide

theorem exists_readParts {n : NumberText} (h : cur.rest = text ++ rest) (ht : PartsWritten n text)
    (hend : EndsBefore continuing rest) : ∃ stop, readParts n.negative cur = .ok (n, stop) ∧ stop.rest = rest := by
  cases ht with
  | @intro whole fraction exponent hwhole hne hzero hfraction hexponent =>
    rw [List.append_assoc, List.append_assoc] at h
    have hend' := endsBefore_of_written hexponent hend
    obtain ⟨hdigits, hrest⟩ := Cursor.digits_eq h hwhole (endsBefore_of_fractionText hfraction hend')
    obtain ⟨afterFraction, hread, hrest'⟩ := exists_readFraction hrest hfraction hend'
    obtain ⟨stop, hread', hstop⟩ := exists_readExponent hrest' hexponent hend
    refine ⟨stop, ?_, hstop⟩
    unfold readParts
    rw [hdigits, if_neg (by simpa using hne), if_neg hzero]
    exact bind_eq_ok.2 ⟨_, hread, bind_eq_ok.2 ⟨_, hread', rfl⟩⟩

theorem exists_partsWritten {negative : Bool} {n : NumberText} (h : readParts negative cur = .ok (n, stop)) :
    n.negative = negative ∧ ∃ text, cur.rest = text ++ stop.rest ∧ PartsWritten n text := by
  unfold readParts at h
  split at h
  · nomatch h
  · next hne =>
    split at h
    · nomatch h
    · next hzero =>
      obtain ⟨⟨ds, afterFraction⟩, hfraction, h⟩ := bind_eq_ok.1 h
      obtain ⟨⟨e, stop'⟩, hexponent, h⟩ := bind_eq_ok.1 h
      cases h
      obtain ⟨whole, hwhole, hdigits⟩ := cur.exists_digitText
      obtain ⟨fraction, hfraction, hpoint⟩ := exists_fractionText hfraction
      obtain ⟨exponent, hexponent, hletter⟩ := exists_written_of_readExponent hexponent
      refine ⟨rfl, _, ?_, .intro hdigits (by simpa using hne) hzero hpoint hletter⟩
      rw [hwhole, hfraction, hexponent, List.append_assoc, List.append_assoc]

/-- A number is read to its end where nothing follows that would continue it. -/
theorem exists_read_of_written {n : NumberText} {value : JsonNumber} (h : cur.rest = text ++ rest) (ht : Written n text)
    (hvalue : n.value? = some value) (hend : EndsBefore continuing rest) :
    ∃ stop, read cur = .ok (value, stop) ∧ stop.rest = rest := by
  have hworth : ∀ stop, n.worth stop = .ok (value, stop) := by
    intro stop
    unfold worth
    rw [hvalue]
  unfold read
  cases ht with
  | negative hneg hparts =>
    obtain ⟨stop, hread, hstop⟩ := exists_readParts (Cursor.rest_skip_one h) hparts hend
    rw [if_pos (by rw [h]; rfl)]
    rw [hneg] at hread
    exact ⟨stop, bind_eq_ok.2 ⟨_, hread, hworth stop⟩, hstop⟩
  | unsigned hneg hparts =>
    obtain ⟨stop, hread, hstop⟩ := exists_readParts h hparts hend
    -- The first character is a digit and therefore no sign.
    have hminus : cur.rest.head? ≠ some '-' := by
      cases hparts with
      | intro hwhole hne =>
        obtain ⟨c, cs, rfl, hdigit⟩ := hwhole.exists_first hne
        rw [h]
        intro hc
        cases hc
        exact absurd hdigit (by decide)
    rw [if_neg hminus]
    rw [hneg] at hread
    exact ⟨stop, bind_eq_ok.2 ⟨_, hread, hworth stop⟩, hstop⟩

/-- What is read as a number is the text of one. -/
theorem exists_written_of_read {value : JsonNumber} (h : read cur = .ok (value, stop)) :
    ∃ n text, cur.rest = text ++ stop.rest ∧ Written n text ∧ n.value? = some value := by
  have hworth : ∀ {n : NumberText} {stop' : Cursor}, n.worth stop' = .ok (value, stop) →
      stop = stop' ∧ n.value? = some value := by
    intro n stop' h
    refine ⟨eq_of_worth h, ?_⟩
    unfold worth at h
    split at h
    · next hvalue =>
      cases h
      exact hvalue
    · nomatch h
  unfold read at h
  split at h
  · next hminus =>
    obtain ⟨cs, hcs⟩ := List.head?_eq_some_iff.1 hminus
    obtain ⟨⟨n, stop'⟩, hread, h⟩ := bind_eq_ok.1 h
    obtain ⟨rfl, hvalue⟩ := hworth h
    obtain ⟨hneg, text, htext, hparts⟩ := exists_partsWritten hread
    rw [Cursor.rest_skip_one hcs] at htext
    exact ⟨n, '-' :: text, by rw [hcs, htext, List.cons_append], .negative hneg hparts, hvalue⟩
  · obtain ⟨⟨n, stop'⟩, hread, h⟩ := bind_eq_ok.1 h
    obtain ⟨rfl, hvalue⟩ := hworth h
    obtain ⟨hneg, text, htext, hparts⟩ := exists_partsWritten hread
    exact ⟨n, text, htext, .unsigned hneg hparts, hvalue⟩

end Read

end NumberText

/-! ## Strings -/

/-- The text of a code unit: its four hexadecimal digits. -/
structure UnitText (unit : Nat) (ds : List Char) : Prop where
  length : ds.length = 4
  value : hexNumber? ds = some unit

/-- The text of a character after the letter of its escape: its code unit, or a pair of those of which the second has an
escape of its own. -/
inductive CodePointText : Char → List Char → Prop where
  | unit {unit : Nat} {ds : List Char} : UnitText unit ds → JsonToken.isLeading unit = false →
      JsonToken.isTrailing unit = false → CodePointText (.ofNat unit) ds
  | pair {first second : Nat} {ds es : List Char} : UnitText first ds → JsonToken.isLeading first = true →
      UnitText second es → JsonToken.isTrailing second = true →
      CodePointText (.ofNat (0x10000 + (first - 0xD800) * 0x400 + (second - 0xDC00))) (ds ++ '\\' :: 'u' :: es)

/-- The text of a character after a backslash. -/
inductive EscapeText : Char → List Char → Prop where
  | letter {letter c : Char} : JsonToken.escaped? letter = some c → EscapeText c [letter]
  | codePoint {c : Char} {text : List Char} : CodePointText c text → EscapeText c ('u' :: text)

/-- The text of a character inside the quotes of a string. -/
inductive CharText : Char → List Char → Prop where
  | plain {c : Char} : c ≠ '"' → c ≠ '\\' → ¬c.toNat < 0x20 → CharText c [c]
  | escape {c : Char} {text : List Char} : EscapeText c text → CharText c ('\\' :: text)

/-- The text of characters inside the quotes of a string. -/
inductive StringText : List Char → List Char → Prop where
  | nil : StringText [] []
  | cons {c : Char} {cs text texts : List Char} : CharText c text → StringText cs texts →
      StringText (c :: cs) (text ++ texts)

/-- Hexadecimal digits have one byte each. -/
theorem utf8Size_of_hexValue? {c : Char} {n : Nat} (h : hexValue? c = some n) : c.utf8Size = 1 := by
  have hlow : c.toNat ≤ 127 := by
    unfold hexValue? at h
    simp only [Char.isDigit, Bool.and_eq_true, decide_eq_true_eq, Char.le_def, UInt32.le_iff_toNat_le] at h
    split at h
    · next hd => exact Nat.le_trans hd.2 (by decide)
    · split at h
      · next hd => exact Nat.le_trans hd.2 (by decide)
      · split at h
        · next hd => exact Nat.le_trans hd.2 (by decide)
        · nomatch h
  exact Char.utf8Size_eq_one_iff.2 hlow

/-- Hexadecimal digits have as many bytes as characters. -/
theorem utf8Length_of_hexNumber? {cs : List Char} {n : Nat} (h : hexNumber? cs = some n) :
    utf8Length cs = cs.length := by
  unfold hexNumber? at h
  generalize 0 = start at h
  induction cs generalizing start with
  | nil => rfl
  | cons c cs ih =>
    rw [List.foldlM_cons] at h
    obtain ⟨value, hvalue, h⟩ := Option.bind_eq_some_iff.1 h
    obtain ⟨digit, hdigit, -⟩ := Option.map_eq_some_iff.1 hvalue
    rw [utf8Length, utf8Size_of_hexValue? hdigit, ih value h, List.length_cons, Nat.add_comm]

namespace JsonToken

/-- The second half of a pair is no first half. -/
theorem isTrailing_of_isLeading {unit : Nat} (h : isLeading unit = true) : isTrailing unit = false := by
  simp only [isLeading, isTrailing, Bool.and_eq_true, decide_eq_true_eq, Bool.and_eq_false_iff, decide_eq_false_iff_not]
    at h ⊢
  omega

theorem readCodeUnit_eq_ok_iff {cur : Cursor} {unit : Nat} :
    readCodeUnit cur = .ok unit ↔ ∃ ds rest, cur.rest = ds ++ rest ∧ UnitText unit ds := by
  unfold readCodeUnit
  constructor
  · intro h
    split at h
    · nomatch h
    · next hlong =>
      split at h
      · next value hvalue =>
        cases h
        refine ⟨cur.rest.take 4, cur.rest.drop 4, (List.take_append_drop 4 cur.rest).symm, ?_, hvalue⟩
        have hbytes := utf8Length_of_hexNumber? hvalue
        rw [List.length_take]
        by_cases hshort : cur.rest.length < 4
        · rw [List.take_of_length_le (Nat.le_of_lt hshort)] at hbytes
          omega
        · omega
      · nomatch h
  · rintro ⟨ds, rest, hrest, ht⟩
    have hlong := length_le_utf8Length cur.rest
    rw [hrest, List.length_append, ht.length] at hlong
    have htake : cur.rest.take 4 = ds := by rw [hrest, ← ht.length, List.take_left]
    rw [if_neg (by rw [hrest]; omega), htake, ht.value]

theorem readEscapeMark_eq_ok_iff {cur : Cursor} {wanted : Char} :
    readEscapeMark cur wanted = .ok () ↔ ∃ rest, cur.rest = wanted :: rest := by
  unfold readEscapeMark
  cases hrest : cur.rest with
  | nil => simp
  | cons c cs =>
    simp only [List.head?_cons, List.cons.injEq, exists_and_left, exists_eq', and_true]
    split <;> simp [*]

/-- Where a backslash and its letter have been found, they stand. -/
theorem rest_eq_of_readEscapeMark {cur : Cursor} (hback : readEscapeMark (cur.skip 4) '\\' = .ok ())
    (hu : readEscapeMark (cur.skip 5) 'u' = .ok ()) :
    cur.rest = cur.rest.take 4 ++ '\\' :: 'u' :: (cur.skip 6).rest := by
  obtain ⟨cs, hcs⟩ := readEscapeMark_eq_ok_iff.1 hback
  obtain ⟨ds, hds⟩ := readEscapeMark_eq_ok_iff.1 hu
  have hafter : ∀ n, (cur.skip n).rest = cur.rest.drop n := fun n => rfl
  rw [hafter] at hcs hds
  have hcs' : cs = 'u' :: ds := by
    rw [← hds, ← List.tail_drop, hcs, List.tail_cons]
  have hds' : ds = cur.rest.drop 6 := by
    rw [← List.tail_drop, hds, List.tail_cons]
  rw [hafter, ← hds', ← hcs', ← hcs, List.take_append_drop]

/-- A code point is read from its text. -/
theorem readCodePoint_eq_ok_iff {cur : Cursor} {c : Char} {count : Nat} :
    readCodePoint cur = .ok (c, count) ↔
      ∃ text rest, cur.rest = text ++ rest ∧ text.length = count ∧ CodePointText c text := by
  unfold readCodePoint
  rw [bind_eq_ok]
  constructor
  · rintro ⟨first, hfirst, h⟩
    obtain ⟨ds, rest, hrest, hds⟩ := readCodeUnit_eq_ok_iff.1 hfirst
    split at h
    · nomatch h
    · next htrailing =>
      split at h
      · next hleading =>
        obtain ⟨⟨⟩, hback, h⟩ := bind_eq_ok.1 h
        obtain ⟨⟨⟩, hu, h⟩ := bind_eq_ok.1 h
        obtain ⟨second, hsecond, h⟩ := bind_eq_ok.1 h
        split at h
        · next hpair =>
          obtain ⟨rfl, rfl⟩ := Prod.mk.inj (Except.ok.inj h)
          obtain ⟨es, rest', hes, hvalue⟩ := readCodeUnit_eq_ok_iff.1 hsecond
          have hmarks := rest_eq_of_readEscapeMark hback hu
          rw [hes, hrest, ← hds.length, List.take_left] at hmarks
          refine ⟨ds ++ '\\' :: 'u' :: es, rest', ?_, ?_, .pair hds hleading hvalue hpair⟩
          · rw [hrest, hmarks, List.append_assoc, List.cons_append, List.cons_append]
          · rw [List.length_append, List.length_cons, List.length_cons, hds.length, hvalue.length]
        · nomatch h
      · next hleading =>
        cases h
        exact ⟨ds, rest, hrest, hds.length, .unit hds (by simpa using hleading) (by simpa using htrailing)⟩
  · rintro ⟨text, rest, hrest, rfl, ht⟩
    cases ht with
    | unit hunit hleading htrailing =>
      refine ⟨_, readCodeUnit_eq_ok_iff.2 ⟨_, rest, hrest, hunit⟩, ?_⟩
      rw [if_neg (by simp [htrailing]), if_neg (by simp [hleading]), hunit.length]
      rfl
    | @pair first second ds es hfirst hleading hsecond htrailing =>
      rw [List.append_assoc] at hrest
      have hback := Cursor.rest_skip_length _ hrest
      have hmarks : cur.rest = ds ++ ['\\'] ++ 'u' :: (es ++ rest) := by rw [hrest]; simp
      have hdigits : cur.rest = ds ++ ['\\', 'u'] ++ (es ++ rest) := by rw [hrest]; simp
      have hu := Cursor.rest_skip_length (ds ++ ['\\']) hmarks
      have hunit := Cursor.rest_skip_length (ds ++ ['\\', 'u']) hdigits
      rw [hfirst.length] at hback
      rw [List.length_append, hfirst.length] at hu hunit
      refine ⟨first, readCodeUnit_eq_ok_iff.2 ⟨ds, _, hrest, hfirst⟩, ?_⟩
      rw [if_neg (by simp [isTrailing_of_isLeading hleading]), if_pos hleading]
      refine bind_eq_ok.2 ⟨(), readEscapeMark_eq_ok_iff.2 ⟨_, hback⟩, ?_⟩
      refine bind_eq_ok.2 ⟨(), readEscapeMark_eq_ok_iff.2 ⟨_, hu⟩, ?_⟩
      refine bind_eq_ok.2 ⟨second, readCodeUnit_eq_ok_iff.2 ⟨es, rest, hunit, hsecond⟩, ?_⟩
      rw [if_pos htrailing, List.length_append, List.length_cons, List.length_cons, hfirst.length, hsecond.length]
      rfl

/-- An escape is read from its text. -/
theorem readEscape_eq_ok_iff {cur : Cursor} {c : Char} {count : Nat} :
    readEscape cur = .ok (c, count) ↔
      ∃ text rest, cur.rest = text ++ rest ∧ text.length = count ∧ EscapeText c text := by
  unfold readEscape
  constructor
  · intro h
    split at h
    · nomatch h
    · next first hfirst =>
      obtain ⟨cs, hcs⟩ := List.head?_eq_some_iff.1 hfirst
      split at h
      · next hu =>
        cases hread : readCodePoint (cur.skip 1) with
        | error e =>
          rw [hread] at h
          nomatch h
        | ok r =>
          rw [hread] at h
          cases h
          obtain ⟨text, rest, hrest, hlength, ht⟩ := readCodePoint_eq_ok_iff.1 hread
          rw [Cursor.rest_skip_one hcs] at hrest
          refine ⟨'u' :: text, rest, ?_, ?_, .codePoint ht⟩
          · rw [hcs, hu, hrest, List.cons_append]
          · rw [List.length_cons, hlength]
      · split at h
        · next hletter =>
          cases h
          exact ⟨[first], cs, hcs, rfl, .letter hletter⟩
        · nomatch h
  · rintro ⟨text, rest, hrest, rfl, ht⟩
    cases ht with
    | @letter letter _ hletter =>
      have hu : letter ≠ 'u' := by
        rintro rfl
        nomatch hletter
      simp only [hrest, List.cons_append, List.head?_cons, hu, if_false, hletter, List.length_singleton]
    | @codePoint _ text ht =>
      have hread := readCodePoint_eq_ok_iff.2 ⟨text, rest, Cursor.rest_skip_one hrest, rfl, ht⟩
      simp only [hrest, List.cons_append, List.head?_cons, if_true, hread, Except.map, List.length_cons]

/-- A character inside the quotes is read from its text. -/
theorem readStringChar_eq_some_iff {cur : Cursor} {c : Char} {more : Nat} :
    readStringChar cur = .ok (some (c, more)) ↔
      ∃ text rest, cur.rest = text ++ rest ∧ text.length = more + 1 ∧ CharText c text := by
  unfold readStringChar
  constructor
  · intro h
    split at h
    · nomatch h
    · next first hfirst =>
      obtain ⟨cs, hcs⟩ := List.head?_eq_some_iff.1 hfirst
      split at h
      · nomatch h
      · next hquote =>
        split at h
        · next hback =>
          cases hread : readEscape (cur.skip 1) with
          | error e =>
            rw [hread] at h
            nomatch h
          | ok r =>
            rw [hread] at h
            cases h
            obtain ⟨text, rest, hrest, hlength, ht⟩ := readEscape_eq_ok_iff.1 hread
            rw [Cursor.rest_skip_one hcs] at hrest
            refine ⟨'\\' :: text, rest, ?_, ?_, .escape ht⟩
            · rw [hcs, hback, hrest, List.cons_append]
            · rw [List.length_cons, hlength]
        · next hback =>
          split at h
          · nomatch h
          · next hcontrol =>
            cases h
            exact ⟨[c], cs, hcs, rfl, .plain hquote hback hcontrol⟩
  · rintro ⟨text, rest, hrest, hlength, ht⟩
    cases ht with
    | plain hquote hback hcontrol =>
      cases hlength
      simp only [hrest, List.cons_append, List.head?_cons, hquote, hback, hcontrol, if_false]
    | @escape text ht =>
      cases hlength
      have hread := readEscape_eq_ok_iff.2 ⟨text, rest, Cursor.rest_skip_one hrest, rfl, ht⟩
      have hquote : '\\' ≠ '"' := by decide
      simp only [hrest, List.cons_append, List.head?_cons, hquote, if_false, if_true, hread, Except.map]

/-- Inside a string a quote is its end. -/
theorem readStringChar_eq_none_iff {cur : Cursor} :
    readStringChar cur = .ok none ↔ ∃ rest, cur.rest = '"' :: rest := by
  unfold readStringChar
  constructor
  · intro h
    split at h
    · nomatch h
    · next first hfirst =>
      split at h
      · next hquote => exact List.head?_eq_some_iff.1 (hquote ▸ hfirst)
      · split at h
        · cases hread : readEscape (cur.skip 1) with
          | error e =>
            rw [hread] at h
            nomatch h
          | ok r =>
            rw [hread] at h
            nomatch h
        · split at h <;> nomatch h
  · rintro ⟨rest, hrest⟩
    simp only [hrest, List.head?_cons, if_true]

/-- A string is read from the texts of its characters and the quote after them. -/
theorem exists_readString {cur : Cursor} {cs text rest : List Char} (h : cur.rest = text ++ '"' :: rest)
    (ht : StringText cs text) : ∃ stop, readString cur = .ok (cs, stop) ∧ stop.rest = rest := by
  induction ht generalizing cur with
  | nil =>
    have hstep := readStringChar_eq_none_iff.2 ⟨rest, h⟩
    unfold readString
    split
    · next e hread => rw [hstep] at hread; cases hread
    · exact ⟨_, rfl, Cursor.rest_skip_one h⟩
    · next c more hread => rw [hstep] at hread; cases hread
  | @cons c cs text texts hchar _ ih =>
    rw [List.append_assoc] at h
    obtain ⟨more, hmore⟩ : ∃ more, text.length = more + 1 := by
      cases hchar <;> exact ⟨_, rfl⟩
    have hstep := readStringChar_eq_some_iff.2 ⟨text, _, h, hmore, hchar⟩
    unfold readString
    split
    · next e hread => rw [hstep] at hread; cases hread
    · next hread => rw [hstep] at hread; cases hread
    · next c' more' hread =>
      rw [hstep] at hread
      cases hread
      have hskip := Cursor.rest_skip_length _ h
      rw [hmore] at hskip
      obtain ⟨stop, hread, hstop⟩ := ih hskip
      exact ⟨stop, bind_eq_ok.2 ⟨_, hread, rfl⟩, hstop⟩

/-- What is read as a string is the texts of its characters and the quote after them. -/
theorem exists_stringText {cur stop : Cursor} {cs : List Char} (h : readString cur = .ok (cs, stop)) :
    ∃ text, cur.rest = text ++ '"' :: stop.rest ∧ StringText cs text := by
  fun_induction readString cur generalizing cs with
  | case1 cur e hstep => cases h
  | case2 cur hstep =>
    cases h
    obtain ⟨rest, hrest⟩ := readStringChar_eq_none_iff.1 hstep
    exact ⟨[], by rw [Cursor.rest_skip_one hrest, hrest, List.nil_append], .nil⟩
  | case3 cur c more hstep ih =>
    obtain ⟨⟨cs', stop'⟩, hread, h⟩ := bind_eq_ok.1 h
    cases h
    obtain ⟨text, rest, hrest, hlength, hchar⟩ := readStringChar_eq_some_iff.1 hstep
    obtain ⟨texts, htexts, ht⟩ := ih hread
    have hskip := Cursor.rest_skip_length _ hrest
    rw [hlength, htexts] at hskip
    exact ⟨text ++ texts, by rw [hrest, ← hskip, List.append_assoc], .cons hchar ht⟩

end JsonToken

end ClassSchema
