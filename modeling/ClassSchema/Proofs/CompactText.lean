import ClassSchema.Json.Printer
import ClassSchema.Proofs.JsonText

/-!
# The compact text of a value

The text that `Json.compact` writes of a value is a text of the value (`Json.spells_compact`), if its numbers are integers
that 64 bits hold: these are read as written, while other numbers become doubles.
-/

namespace ClassSchema

/-! ## Decimal digits -/

/-- The decimal digits of a number, the first one first. -/
def decimalDigits (n : Nat) : List Nat := (Nat.toDigits 10 n).map fun c => c.toNat - '0'.toNat

theorem digitText_decimalDigits (n : Nat) : DigitText (decimalDigits n) (Nat.toDigits 10 n) :=
  ⟨fun _ hc => Nat.isDigit_of_mem_toDigits (by decide) (by decide) hc, rfl⟩

/-- A number below ten is its only digit. -/
theorem decimalDigits_of_lt {n : Nat} (h : n < 10) : decimalDigits n = [n] := by
  have hdigit : ∀ d < 10, (Nat.digitChar d).toNat - '0'.toNat = d := by decide
  rw [decimalDigits, Nat.toDigits_of_lt_base h, List.map_singleton, hdigit n h]

/-- A larger number has the digits of its tens before its last digit. -/
theorem decimalDigits_of_le {n : Nat} (h : 10 ≤ n) : decimalDigits n = decimalDigits (n / 10) ++ [n % 10] := by
  have htens : 0 < n / 10 := Nat.div_pos h (by decide)
  have hunits : n % 10 < 10 := Nat.mod_lt n (by decide)
  have hdigits := Nat.toDigits_append_toDigits (b := 10) (n := n / 10) (d := n % 10) (by decide) htens hunits
  rw [Nat.div_add_mod] at hdigits
  rw [decimalDigits, ← hdigits, List.map_append, ← decimalDigits, ← decimalDigits, decimalDigits_of_lt hunits]

theorem decimalDigits_ne_nil (n : Nat) : decimalDigits n ≠ [] := by
  by_cases h : n < 10
  · rw [decimalDigits_of_lt h]
    exact List.cons_ne_nil _ _
  · rw [decimalDigits_of_le (Nat.le_of_not_lt h)]
    exact List.concat_ne_nil _ _

/-- A number other than zero does not start with a zero. -/
theorem head?_decimalDigits_ne {n : Nat} (h : 0 < n) : (decimalDigits n).head? ≠ some 0 := by
  induction n using Nat.strong_induction_on with
  | h n ih =>
    by_cases hlt : n < 10
    · rw [decimalDigits_of_lt hlt, List.head?_cons, ne_eq, Option.some.injEq]
      exact Nat.ne_of_gt h
    · have hle := Nat.le_of_not_lt hlt
      rw [decimalDigits_of_le hle, List.head?_append_of_ne_nil _ (decimalDigits_ne_nil _)]
      exact ih (n / 10) (Nat.div_lt_self h (by decide)) (Nat.div_pos hle (by decide))

/-- The first digit is a zero only if it is the only one. -/
theorem not_zero_first_decimalDigits (n : Nat) :
    ¬((decimalDigits n).head? = some 0 ∧ 1 < (decimalDigits n).length) := by
  rintro ⟨hzero, hlength⟩
  rcases Nat.eq_zero_or_pos n with rfl | hpos
  · rw [decimalDigits_of_lt (by decide)] at hlength
    exact absurd hlength (Nat.lt_irrefl 1)
  · exact head?_decimalDigits_ne hpos hzero

/-- Digits that all fit are appended before those after them. -/
theorem appendDigits_append {bound m k : Nat} {ds es : List Nat} (h : appendDigits bound m ds = (k, [])) :
    appendDigits bound m (ds ++ es) = appendDigits bound k es := by
  induction ds generalizing m with
  | nil =>
    cases h
    rfl
  | cons d ds ih =>
    rw [appendDigits] at h
    rw [List.cons_append, appendDigits]
    split at h
    · next hfits =>
      rw [if_pos hfits]
      exact ih h
    · nomatch h

/-- The digits of a number within the bound make up the number. -/
theorem appendDigits_decimalDigits {bound n : Nat} (h : n ≤ bound) :
    appendDigits bound 0 (decimalDigits n) = (n, []) := by
  induction n using Nat.strong_induction_on with
  | h n ih =>
    by_cases hlt : n < 10
    · rw [decimalDigits_of_lt hlt, appendDigits, if_pos (by omega), Nat.zero_mul, Nat.zero_add, appendDigits]
    · have hle := Nat.le_of_not_lt hlt
      have htens := ih (n / 10) (by omega) (by omega)
      have hwhole : n / 10 * 10 + n % 10 = n := Nat.div_add_mod' n 10
      rw [decimalDigits_of_le hle, appendDigits_append htens, appendDigits, hwhole, if_pos h, appendDigits]

/-! ## Integers -/

/-- An integer that 64 bits hold, with a sign or without. -/
def JsonNumber.IsInteger64 (n : JsonNumber) : Prop :=
  ∃ i, n = .integer i ∧ -9223372036854775808 ≤ i ∧ i ≤ 18446744073709551615

namespace NumberText

/-- The parts of an integer as it is printed. -/
def ofDigits (negative : Bool) (n : Nat) : NumberText := ⟨negative, decimalDigits n, [], none⟩

/-- The digits of an integer make up its significand, if they fit. -/
theorem significand_ofDigits {negative : Bool} {n : Nat} (h : n ≤ maxSignificand) :
    (ofDigits negative n).significand = (n, 0) := by
  unfold significand ofDigits
  simp only [appendDigits_decimalDigits h, appendDigits, List.length_nil]
  rfl

theorem value?_ofDigits_false {n : Nat} (h : n ≤ maxSignificand) :
    (ofDigits false n).value? = some (.integer n) := by
  unfold value?
  rw [significand_ofDigits h]
  simp [ofDigits]

theorem value?_ofDigits_true {n : Nat} (hpos : 0 < n) (h : n ≤ 9223372036854775808) :
    (ofDigits true n).value? = some (.integer (-n)) := by
  have hfits : n ≤ maxSignificand := Nat.le_trans h (by decide)
  have hsigned : n ≤ Nat.pow 2 63 := h
  unfold value?
  rw [significand_ofDigits hfits]
  simp [ofDigits, hpos, hsigned]

theorem partsWritten_ofDigits (negative : Bool) (n : Nat) :
    PartsWritten (ofDigits negative n) (Nat.toDigits 10 n) := by
  have h := PartsWritten.intro (n := ofDigits negative n) (digitText_decimalDigits n) (decimalDigits_ne_nil n)
    (not_zero_first_decimalDigits n) .absent .absent
  rwa [List.append_nil, List.append_nil] at h

end NumberText

namespace JsonToken

/-- An integer is printed as its text. -/
theorem written_number {n : JsonNumber} (h : n.IsInteger64) : Written (.number n) n.render.toList := by
  obtain ⟨i, rfl, hlow, hhigh⟩ := h
  have hmax : maxSignificand = 18446744073709551615 := rfl
  cases i with
  | ofNat n =>
    have hprint : (JsonNumber.integer (.ofNat n)).render.toList = Nat.toDigits 10 n := String.toList_ofList
    rw [hprint]
    refine .number (.unsigned rfl (NumberText.partsWritten_ofDigits false n)) (NumberText.value?_ofDigits_false ?_)
    rw [hmax]
    exact Int.ofNat_le.1 hhigh
  | negSucc n =>
    have hprint : (JsonNumber.integer (.negSucc n)).render.toList = '-' :: Nat.toDigits 10 (n + 1) := by
      show ("-" ++ Nat.repr (n + 1)).toList = _
      rw [String.toList_append, Nat.toList_repr]
      rfl
    rw [hprint]
    refine .number (.negative rfl (NumberText.partsWritten_ofDigits true (n + 1)))
      (NumberText.value?_ofDigits_true (Nat.succ_pos n) ?_)
    omega

/-- Control characters are printed as their code units. -/
theorem unitText_control {n : Nat} (h : n < 0x20) :
    UnitText n ['0', '0', Nat.digitChar (n / 16), Nat.digitChar (n % 16)] := by
  have hvalue : ∀ n < 0x20, hexNumber? ['0', '0', Nat.digitChar (n / 16), Nat.digitChar (n % 16)] = some n := by decide
  exact ⟨rfl, hvalue n h⟩

/-- A character is printed as a text of it. -/
theorem charText_escapeChar (c : Char) : CharText c (Json.escapeChar c) := by
  unfold Json.escapeChar
  split_ifs with hquote hback hb hf hn hr ht hcontrol
  · subst hquote
    exact .escape (.letter rfl)
  · subst hback
    exact .escape (.letter rfl)
  · subst hb
    exact .escape (.letter rfl)
  · subst hf
    exact .escape (.letter rfl)
  · subst hn
    exact .escape (.letter rfl)
  · subst hr
    exact .escape (.letter rfl)
  · subst ht
    exact .escape (.letter rfl)
  · have hleading : isLeading c.toNat = false := by simp [isLeading]; omega
    have htrailing : isTrailing c.toNat = false := by simp [isTrailing]; omega
    have hunit := CodePointText.unit (unitText_control hcontrol) hleading htrailing
    rw [Char.ofNat_toNat] at hunit
    exact .escape (.codePoint hunit)
  · exact .plain hquote hback hcontrol

theorem stringText_flatMap_escapeChar (cs : List Char) : StringText cs (cs.flatMap Json.escapeChar) := by
  induction cs with
  | nil => exact .nil
  | cons c cs ih => exact .cons (charText_escapeChar c) ih

/-- A string is printed as its text. -/
theorem written_string (s : String) : Written (.string s) (Json.quote s).toList := by
  rw [Json.quote, String.toList_ofList, List.cons_append]
  exact .string (stringText_flatMap_escapeChar s.toList)

/-! ## Values -/

/-- The texts of one token and of those after it. -/
theorem Spells.singleton {t : JsonToken} {text : List Char} (h : Written t text) : Spells [t] text := by
  have hspells := Spells.token h .nil
  rwa [List.append_nil] at hspells

/-- Two texts one after the other spell the tokens of both. -/
theorem Spells.append {ts us : List JsonToken} {text texts : List Char} (h : Spells ts text) (hus : Spells us texts) :
    Spells (ts ++ us) (text ++ texts) := by
  induction h with
  | nil => exact hus
  | space hc _ ih => exact .space hc ih
  | token hwritten _ ih =>
    rw [List.append_assoc]
    exact .token hwritten ih

/-- Entries are spelled with commas between them and the closing bracket at the end. -/
theorem spells_listed {closing : JsonToken} {c : Char} (hclosing : Written closing [c]) {entries : List (List JsonToken)}
    {texts : List (List Char)} (h : List.Forall₂ Spells entries texts) :
    Spells (Json.listed closing entries) ([','].intercalate texts ++ [c]) := by
  induction h with
  | nil => exact .singleton hclosing
  | @cons entry text entries texts hentry hentries ih =>
    cases hentries with
    | nil =>
      rw [Json.listed, List.intercalate_singleton]
      exact hentry.append (.singleton hclosing)
    | @cons next text' entries texts hnext hentries =>
      rw [Json.listed, List.intercalate_cons_cons, List.append_assoc, List.append_assoc]
      exact hentry.append (.token .comma ih)

end JsonToken

namespace Json

open JsonToken

/-- A value stands in another, or is it. -/
inductive Part (w : Json) : Json → Prop where
  | self : Part w w
  | item {v : Json} {items : List Json} : v ∈ items → Part w v → Part w (.array items)
  | member {entry : String × Json} {members : List (String × Json)} :
      entry ∈ members → Part w entry.2 → Part w (.object members)

@[simp] theorem part_string_iff {w : Json} {s : String} : Part w (.string s) ↔ w = .string s := by
  constructor
  · rintro ⟨⟩
    rfl
  · rintro rfl
    exact .self

@[simp] theorem part_number_iff {w : Json} {n : JsonNumber} : Part w (.number n) ↔ w = .number n := by
  constructor
  · rintro ⟨⟩
    rfl
  · rintro rfl
    exact .self

@[simp] theorem part_array_iff {w : Json} {items : List Json} :
    Part w (.array items) ↔ w = .array items ∨ ∃ v ∈ items, Part w v := by
  constructor
  · intro h
    cases h with
    | self => exact Or.inl rfl
    | item hv hpart => exact Or.inr ⟨_, hv, hpart⟩
  · rintro (rfl | ⟨v, hv, hpart⟩)
    · exact .self
    · exact .item hv hpart

@[simp] theorem part_object_iff {w : Json} {members : List (String × Json)} :
    Part w (.object members) ↔ w = .object members ∨ ∃ entry ∈ members, Part w entry.2 := by
  constructor
  · intro h
    cases h with
    | self => exact Or.inl rfl
    | member hentry hpart => exact Or.inr ⟨_, hentry, hpart⟩
  · rintro (rfl | ⟨entry, hentry, hpart⟩)
    · exact .self
    · exact .member hentry hpart

/-- All numbers in a value are integers that 64 bits hold. -/
def OnlyIntegers64 (v : Json) : Prop := ∀ n, Part (.number n) v → n.IsInteger64

mutual

/-- The compact text of a value spells its tokens. -/
theorem spells_compact (v : Json) (h : v.OnlyIntegers64) : Spells v.tokens v.compact.toList := by
  cases v with
  | null => exact .singleton .literalNull
  | bool b =>
    cases b
    · exact .singleton .literalFalse
    · exact .singleton .literalTrue
  | number n => exact .singleton (written_number (h n .self))
  | string s => exact .singleton (written_string s)
  | array items =>
    have hitems := spells_compactItems items fun v hv n hn => h n (.item hv hn)
    rw [compact, String.toList_append, String.toList_append, String.toList_intercalate, List.append_assoc]
    exact .token .openArray (spells_listed .closeArray hitems)
  | object members =>
    have hmembers := spells_compactMembers members fun entry hentry n hn => h n (.member hentry hn)
    rw [compact, String.toList_append, String.toList_append, String.toList_intercalate, List.append_assoc]
    exact .token .openObject (spells_listed .closeObject hmembers)

theorem spells_compactItems (items : List Json) (h : ∀ v ∈ items, v.OnlyIntegers64) :
    List.Forall₂ Spells (itemTokens items) ((compactItems items).map String.toList) := by
  cases items with
  | nil => exact .nil
  | cons item items =>
    rw [List.forall_mem_cons] at h
    exact .cons (spells_compact item h.1) (spells_compactItems items h.2)

theorem spells_compactMembers (members : List (String × Json)) (h : ∀ entry ∈ members, entry.2.OnlyIntegers64) :
    List.Forall₂ Spells (memberTokens members) ((compactMembers members).map String.toList) := by
  cases members with
  | nil => exact .nil
  | cons entry members =>
    obtain ⟨name, value⟩ := entry
    rw [List.forall_mem_cons] at h
    refine .cons ?_ (spells_compactMembers members h.2)
    rw [String.toList_append, String.toList_append, List.append_assoc]
    exact .token (written_string name) (.token .colon (spells_compact value h.1))

end

end Json

end ClassSchema
