import ClassSchema.Proofs.Decoding
import ClassSchema.Proofs.JsonScalars
import Mathlib.Data.List.Chain

/-!
# The texts of JSON values

A text spells tokens when it consists of their texts, with any white space before, between and after them
(`JsonToken.Spells`). A text of a value is one that spells its tokens.

The scanner finds the tokens that are spelled at the front of a text (`JsonToken.exists_startsWith_scan`), and what it finds
there is spelled there (`JsonToken.exists_spells`). So a decoder for arrays and objects succeeds on exactly the texts that
begin with the text of a value it reads, whatever comes after it (`Decoder.run_eq_ok_iff`).
-/

namespace ClassSchema

namespace JsonToken

/-! ## The texts of tokens -/

/-- The text of a token. -/
inductive Written : JsonToken → List Char → Prop where
  | openArray : Written .openArray ['[']
  | closeArray : Written .closeArray [']']
  | openObject : Written .openObject ['{']
  | closeObject : Written .closeObject ['}']
  | comma : Written .comma [',']
  | colon : Written .colon [':']
  | literalNull : Written .null ['n', 'u', 'l', 'l']
  | literalTrue : Written (.bool true) ['t', 'r', 'u', 'e']
  | literalFalse : Written (.bool false) ['f', 'a', 'l', 's', 'e']
  | number {n : NumberText} {value : JsonNumber} {text : List Char} :
      n.Written text → n.value? = some value → Written (.number value) text
  | string {s : String} {text : List Char} : StringText s.toList text → Written (.string s) ('"' :: (text ++ ['"']))

/-- A text spells tokens: their texts stand in it one after the other, with any white space around them. -/
inductive Spells : List JsonToken → List Char → Prop where
  | nil : Spells [] []
  | space {c : Char} {ts : List JsonToken} {text : List Char} : isSpace c = true → Spells ts text → Spells ts (c :: text)
  | token {t : JsonToken} {ts : List JsonToken} {text texts : List Char} :
      Written t text → Spells ts texts → Spells (t :: ts) (text ++ texts)

/-- Whether a token is what a text breaks off with. -/
def isBroken : JsonToken → Bool
  | .brokenString .. | .broken .. => true
  | _ => false

/-- Whether a token is a number. -/
def isNumber : JsonToken → Bool
  | .number _ => true
  | _ => false

/-- Whether a token is a mark. -/
def isMark : JsonToken → Bool
  | .openArray | .closeArray | .openObject | .closeObject | .comma | .colon => true
  | _ => false

/-! ## Reading one token -/

theorem rest_eq_of_readLetters {letters : List Char} {cur stop : Cursor} (h : readLetters cur letters = .ok stop) :
    cur.rest = letters ++ stop.rest := by
  induction letters generalizing cur with
  | nil =>
    cases h
    rfl
  | cons letter letters ih =>
    unfold readLetters at h
    split at h
    · nomatch h
    · next c hc =>
      obtain ⟨cs, hcs⟩ := List.head?_eq_some_iff.1 hc
      split at h
      · next heq =>
        have hrest := ih h
        rw [Cursor.rest_skip_one hcs] at hrest
        rw [hcs, heq, hrest, List.cons_append]
      · nomatch h

theorem exists_readLetters {letters rest : List Char} {cur : Cursor} (h : cur.rest = letters ++ rest) :
    ∃ stop, readLetters cur letters = .ok stop ∧ stop.rest = rest := by
  induction letters generalizing cur with
  | nil => exact ⟨cur, rfl, h⟩
  | cons letter letters ih =>
    obtain ⟨stop, hread, hstop⟩ := ih (Cursor.rest_skip_one h)
    refine ⟨stop, ?_, hstop⟩
    unfold readLetters
    simp only [h, List.cons_append, List.head?_cons, if_true]
    exact hread

/-- A minus sign and a digit start a number. -/
theorem read_eq_readNumberToken {cur : Cursor} {c : Char} (hc : c = '-' ∨ c.isDigit = true) :
    read cur c = readNumberToken cur := by
  unfold read
  split
  case h_11 => rw [if_pos hc]
  all_goals exact absurd hc (by decide)

/-- The text of a number starts with a minus sign or a digit. -/
theorem exists_first_of_numberWritten {n : NumberText} {text : List Char} (h : n.Written text) :
    ∃ c cs, text = c :: cs ∧ (c = '-' ∨ c.isDigit = true) := by
  cases h with
  | negative => exact ⟨'-', _, rfl, Or.inl rfl⟩
  | unsigned _ hparts =>
    cases hparts with
    | intro hwhole hne =>
      obtain ⟨c, cs, rfl, hdigit⟩ := hwhole.exists_first hne
      exact ⟨c, _, rfl, Or.inr hdigit⟩

/-- A literal is read from its letters. -/
theorem exists_readLiteral {cur : Cursor} {c : Char} {letters : String} {rest : List Char} {t : JsonToken}
    (h : cur.rest = c :: (letters.toList ++ rest)) :
    ∃ stop, readLiteral cur letters t = (t, stop) ∧ stop.rest = rest := by
  obtain ⟨stop, hread, hstop⟩ := exists_readLetters (Cursor.rest_skip_one h)
  refine ⟨stop, ?_, hstop⟩
  unfold readLiteral
  rw [hread]

/-- What is read as a literal is its letters. -/
theorem rest_eq_of_readLiteral {cur stop : Cursor} {c : Char} {letters : String} {cs : List Char} {t u : JsonToken}
    (hrest : cur.rest = c :: cs) (h : readLiteral cur letters t = (u, stop)) (hu : u.isBroken = false) :
    u = t ∧ cur.rest = c :: letters.toList ++ stop.rest := by
  unfold readLiteral at h
  split at h
  · next hread =>
    cases h
    have hletters := rest_eq_of_readLetters hread
    rw [Cursor.rest_skip_one hrest] at hletters
    exact ⟨rfl, by rw [hrest, hletters, List.cons_append]⟩
  · cases h
    nomatch hu

/-- A token is read from its text. A number is read to its end only before what does not continue it. -/
theorem exists_read {cur : Cursor} {t : JsonToken} {text rest : List Char} (h : cur.rest = text ++ rest)
    (ht : Written t text) (hend : t.isNumber = true → EndsBefore NumberText.continuing rest) :
    ∃ c cs, text = c :: cs ∧ isSpace c = false ∧ ∃ stop, read cur c = (t, stop) ∧ stop.rest = rest := by
  cases ht with
  | openArray | closeArray | openObject | closeObject | comma | colon =>
    exact ⟨_, _, rfl, rfl, _, rfl, Cursor.rest_skip_one h⟩
  | literalNull | literalTrue | literalFalse => exact ⟨_, _, rfl, rfl, exists_readLiteral h⟩
  | number hwritten hvalue =>
    obtain ⟨c, cs, rfl, hc⟩ := exists_first_of_numberWritten hwritten
    refine ⟨c, cs, rfl, ?_, ?_⟩
    · rw [Bool.eq_false_iff]
      intro hspace
      simp only [isSpace, Bool.or_eq_true, beq_iff_eq] at hspace
      rcases hspace with ((rfl | rfl) | rfl) | rfl <;> exact absurd hc (by decide)
    · obtain ⟨stop, hread, hstop⟩ := NumberText.exists_read_of_written h hwritten hvalue (hend rfl)
      refine ⟨stop, ?_, hstop⟩
      rw [read_eq_readNumberToken hc, readNumberToken, hread]
  | string hstring =>
    rw [List.cons_append, List.append_assoc, List.singleton_append] at h
    obtain ⟨stop, hread, hstop⟩ := exists_readString (Cursor.rest_skip_one h) hstring
    refine ⟨'"', _, rfl, rfl, stop, ?_, hstop⟩
    show readStringToken cur = _
    rw [readStringToken, hread]
    simp only [String.ofList_toList]

/-- What is read as a token is its text. -/
theorem exists_written {cur stop : Cursor} {c : Char} {cs : List Char} {t : JsonToken} (hrest : cur.rest = c :: cs)
    (h : read cur c = (t, stop)) (ht : t.isBroken = false) :
    ∃ text, cur.rest = text ++ stop.rest ∧ Written t text := by
  have hmark : cur.rest = [c] ++ (cur.skip 1).rest := by
    rw [Cursor.rest_skip_one hrest]
    exact hrest
  unfold read at h
  split at h
  · cases h
    exact ⟨_, hmark, .openArray⟩
  · cases h
    exact ⟨_, hmark, .closeArray⟩
  · cases h
    exact ⟨_, hmark, .openObject⟩
  · cases h
    exact ⟨_, hmark, .closeObject⟩
  · cases h
    exact ⟨_, hmark, .comma⟩
  · cases h
    exact ⟨_, hmark, .colon⟩
  · obtain ⟨rfl, hletters⟩ := rest_eq_of_readLiteral hrest h ht
    exact ⟨_, hletters, .literalNull⟩
  · obtain ⟨rfl, hletters⟩ := rest_eq_of_readLiteral hrest h ht
    exact ⟨_, hletters, .literalTrue⟩
  · obtain ⟨rfl, hletters⟩ := rest_eq_of_readLiteral hrest h ht
    exact ⟨_, hletters, .literalFalse⟩
  · unfold readStringToken at h
    split at h
    · next hread =>
      cases h
      obtain ⟨text, htext, hstring⟩ := exists_stringText hread
      rw [Cursor.rest_skip_one hrest] at htext
      refine ⟨'"' :: (text ++ ['"']), ?_, .string (by rw [String.toList_ofList]; exact hstring)⟩
      rw [hrest, htext, List.cons_append, List.append_assoc, List.singleton_append]
    · cases h
      nomatch ht
  · split at h
    · unfold readNumberToken at h
      split at h
      · next hread =>
        cases h
        obtain ⟨n, text, htext, hwritten, hvalue⟩ := NumberText.exists_written_of_read hread
        exact ⟨text, htext, .number hwritten hvalue⟩
      · cases h
        nomatch ht
    · cases h
      nomatch ht

/-! ## Scanning -/

theorem scan_nil {cur : Cursor} (h : cur.rest = []) : scan cur = [] := by
  rw [scan]
  split
  · rfl
  · next hrest =>
    rw [h] at hrest
    cases hrest

theorem scan_space {cur : Cursor} {c : Char} {cs : List Char} (h : cur.rest = c :: cs) (hc : isSpace c = true) :
    scan cur = scan (cur.skip 1) := by
  rw [scan]
  split
  · next hrest =>
    rw [h] at hrest
    cases hrest
  · next hrest =>
    rw [h] at hrest
    cases hrest
    rw [if_pos hc]

theorem scan_token {cur : Cursor} {c : Char} {cs : List Char} (h : cur.rest = c :: cs) (hc : isSpace c = false) :
    scan cur =
      ⟨(read cur c).1, cur.position, cur.byteOn 1, (read cur c).2.position⟩ :: scan (read cur c).2 := by
  rw [scan]
  split
  · next hrest =>
    rw [h] at hrest
    cases hrest
  · next hrest =>
    rw [h] at hrest
    cases hrest
    rw [if_neg (by simp [hc])]

/-- Only in white space are no tokens found. -/
theorem forall_isSpace_of_scan {cur : Cursor} (h : scan cur = []) : ∀ c ∈ cur.rest, isSpace c = true := by
  induction hrest : cur.rest generalizing cur with
  | nil => exact nofun
  | cons c cs ih =>
    by_cases hc : isSpace c = true
    · rw [scan_space hrest hc] at h
      exact List.forall_mem_cons.2 ⟨hc, ih h (Cursor.rest_skip_one hrest)⟩
    · rw [scan_token hrest (by simpa using hc)] at h
      nomatch h

/-- Two tokens may stand next to each other: after a number there is a mark. -/
def Apart (t u : JsonToken) : Prop := t.isNumber = true → u.isMark = true

/-- Tokens that can be told apart in every text that spells them, and none of which is broken. -/
structure Separable (ts : List JsonToken) : Prop where
  sound : ∀ t ∈ ts, t.isBroken = false
  apart : ts.IsChain Apart

/-- White space and marks do not continue a number. -/
theorem endsBefore_of_spells {ts : List JsonToken} {text rest : List Char} (h : Spells ts text)
    (hnil : ts = [] → EndsBefore NumberText.continuing rest) (hmark : ∀ t ∈ ts.head?, t.isMark = true) :
    EndsBefore NumberText.continuing (text ++ rest) := by
  cases h with
  | nil => exact hnil rfl
  | @space c _ _ hspace =>
    intro d hd
    cases hd
    simp only [isSpace, Bool.or_eq_true, beq_iff_eq] at hspace
    rcases hspace with ((rfl | rfl) | rfl) | rfl <;> decide
  | @token t ts text texts hwritten =>
    have ht := hmark t rfl
    cases hwritten with
    | openArray | closeArray | openObject | closeObject | comma | colon =>
      intro d hd
      cases hd
      decide
    | literalNull | literalTrue | literalFalse | number | string => nomatch ht

/-- The scanner finds the tokens that are spelled at the front of a text, and goes on after them. -/
theorem exists_startsWith_scan (cur : Cursor) {ts : List JsonToken} {text rest : List Char}
    (h : cur.rest = text ++ rest) (hspells : Spells ts text) (hts : Separable ts)
    (hend : ∀ t ∈ ts.getLast?, t.isNumber = true → EndsBefore NumberText.continuing rest) :
    ∃ stop, StartsWith (scan cur) ts (scan stop) ∧ stop.rest = rest := by
  induction hspells generalizing cur with
  | nil => exact ⟨cur, startsWith_nil.2 rfl, h⟩
  | space hc _ ih =>
    obtain ⟨stop, hstarts, hstop⟩ := ih _ (Cursor.rest_skip_one h) hts hend
    exact ⟨stop, by rw [scan_space h hc]; exact hstarts, hstop⟩
  | @token t ts text texts hwritten hspells ih =>
    rw [List.append_assoc] at h
    -- After a number comes white space, a mark or the rest, and none of these continues it.
    have hnumber : t.isNumber = true → EndsBefore NumberText.continuing (texts ++ rest) := by
      intro ht
      refine endsBefore_of_spells hspells ?_ ?_
      · rintro rfl
        exact hend t rfl ht
      · intro u hu
        obtain ⟨us, rfl⟩ := List.head?_eq_some_iff.1 hu
        exact (List.isChain_cons_cons.1 hts.apart).1 ht
    obtain ⟨c, cs, rfl, hc, stop, hread, hstop⟩ := exists_read h hwritten hnumber
    have hts' : Separable ts := ⟨fun u hu => hts.sound u (List.mem_cons_of_mem t hu), hts.apart.tail⟩
    have hend' : ∀ u ∈ ts.getLast?, u.isNumber = true → EndsBefore NumberText.continuing rest := by
      intro u hu
      refine hend u ?_
      cases ts with
      | nil => nomatch hu
      | cons v vs => rwa [List.getLast?_cons_cons]
    obtain ⟨stop', hstarts, hstop'⟩ := ih _ hstop hts' hend'
    refine ⟨stop', startsWith_cons.2 ⟨_, _, scan_token h hc, ?_, ?_⟩, hstop'⟩
    · rw [hread]
    · rw [hread]
      exact hstarts

/-- The tokens that the scanner finds first are spelled at the front of the text, unless one of them is broken. -/
theorem exists_spells {ts : List JsonToken} {cur : Cursor} {rest : List Lexeme} (h : StartsWith (scan cur) ts rest)
    (hsound : ∀ t ∈ ts, t.isBroken = false) :
    ∃ text stop, cur.rest = text ++ stop.rest ∧ Spells ts text ∧ rest = scan stop := by
  -- By induction on what is left of the text: white space shortens it without taking a token.
  induction hn : cur.rest.length using Nat.strong_induction_on generalizing cur ts with
  | h n ih =>
    subst hn
    cases ts with
    | nil => exact ⟨[], cur, rfl, .nil, (startsWith_nil.1 h).symm⟩
    | cons t ts =>
      cases hrest : cur.rest with
      | nil =>
        rw [scan_nil hrest] at h
        obtain ⟨_, _, hnil, -⟩ := startsWith_cons.1 h
        nomatch hnil
      | cons c cs =>
        by_cases hc : isSpace c = true
        · have hskip := Cursor.rest_skip_one hrest
          rw [scan_space hrest hc] at h
          obtain ⟨text, stop, htext, hspells, hstop⟩ := ih _ (by rw [hskip, hrest]; exact Nat.lt_succ_self _) h hsound rfl
          rw [hskip] at htext
          exact ⟨c :: text, stop, by rw [htext, List.cons_append], .space hc hspells, hstop⟩
        · rw [Bool.not_eq_true] at hc
          rw [scan_token hrest hc] at h
          obtain ⟨_, _, heq, ht, hstarts⟩ := startsWith_cons.1 h
          cases heq
          obtain ⟨ht', hts⟩ := List.forall_mem_cons.1 hsound
          obtain ⟨text, htext, hwritten⟩ := exists_written hrest (Prod.ext ht rfl) ht'
          have hlt : ∀ c, (read cur c).2.rest.length < cur.rest.length := fun c =>
            length_read_lt (by rw [hrest]; exact Nat.succ_pos _)
          have hshorter := hlt c
          obtain ⟨texts, stop, htexts, hspells, hstop⟩ := ih _ hshorter hstarts hts rfl
          refine ⟨text ++ texts, stop, ?_, .token hwritten hspells, hstop⟩
          rw [← hrest, htext, htexts, List.append_assoc]

end JsonToken

/-! ## The tokens of a value can be told apart -/

namespace JsonToken

/-- A mark is not broken. -/
theorem isBroken_of_isMark {t : JsonToken} (h : t.isMark = true) : t.isBroken = false := by
  cases t with
  | brokenString | broken => nomatch h
  | _ => rfl

theorem separable_singleton {t : JsonToken} (h : t.isBroken = false) : Separable [t] :=
  ⟨List.forall_mem_singleton.2 h, .singleton t⟩

/-- Anything but a number may stand before tokens. -/
theorem Separable.cons {t : JsonToken} {ts : List JsonToken} (hts : Separable ts) (hsound : t.isBroken = false)
    (hnumber : t.isNumber = false) : Separable (t :: ts) := by
  refine ⟨List.forall_mem_cons.2 ⟨hsound, hts.sound⟩, List.isChain_cons.2 ⟨?_, hts.apart⟩⟩
  intro u _ ht
  rw [hnumber] at ht
  nomatch ht

/-- A mark may stand after tokens. -/
theorem Separable.append {ts us : List JsonToken} (hts : Separable ts) (hus : Separable us)
    (hmark : ∀ u ∈ us.head?, u.isMark = true) : Separable (ts ++ us) := by
  refine ⟨List.forall_mem_append.2 ⟨hts.sound, hus.sound⟩, List.isChain_append.2 ⟨hts.apart, hus.apart, ?_⟩⟩
  intro t _ u hu _
  exact hmark u hu

end JsonToken

namespace Json

open JsonToken

/-- Entries with commas between them can be told apart if each can by itself. -/
theorem separable_listed {closing : JsonToken} (hclosing : closing.isMark = true) {entries : List (List JsonToken)}
    (h : ∀ entry ∈ entries, Separable entry) : Separable (listed closing entries) := by
  have hlast : Separable [closing] := separable_singleton (isBroken_of_isMark hclosing)
  induction entries with
  | nil => exact hlast
  | cons entry entries ih =>
    rw [List.forall_mem_cons] at h
    cases entries with
    | nil =>
      refine h.1.append hlast ?_
      rintro _ ⟨⟩
      exact hclosing
    | cons next entries =>
      refine h.1.append ((ih h.2).cons rfl rfl) ?_
      rintro _ ⟨⟩
      rfl

mutual

/-- The tokens of a value can be told apart. -/
theorem separable_tokens (v : Json) : Separable v.tokens := by
  cases v with
  | null | bool b | number n | string s => exact separable_singleton rfl
  | array items => exact (separable_listed rfl (separable_itemTokens items)).cons rfl rfl
  | object members => exact (separable_listed rfl (separable_memberTokens members)).cons rfl rfl

/-- So can the tokens of each of several values. -/
theorem separable_itemTokens (items : List Json) : ∀ entry ∈ itemTokens items, Separable entry := by
  cases items with
  | nil => exact nofun
  | cons item items => exact List.forall_mem_cons.2 ⟨separable_tokens item, separable_itemTokens items⟩

/-- So can the tokens of each of several members. -/
theorem separable_memberTokens (members : List (String × Json)) : ∀ entry ∈ memberTokens members, Separable entry := by
  cases members with
  | nil => exact nofun
  | cons entry members =>
    obtain ⟨name, value⟩ := entry
    have hvalue := ((separable_tokens value).cons (t := .colon) rfl rfl).cons (t := .string name) rfl rfl
    exact List.forall_mem_cons.2 ⟨hvalue, separable_memberTokens members⟩

end

/-- After entries comes the closing bracket. -/
theorem getLast?_listed (closing : JsonToken) (entries : List (List JsonToken)) :
    (listed closing entries).getLast? = some closing := by
  induction entries with
  | nil => rfl
  | cons entry entries ih =>
    cases entries with
    | nil => rw [listed, List.getLast?_concat]
    | cons next entries => rw [listed, List.getLast?_append, List.getLast?_cons, ih]; rfl

/-- Only a number ends with a number. -/
theorem exists_number_of_getLast? {v : Json} {t : JsonToken} (ht : t ∈ v.tokens.getLast?) (hnumber : t.isNumber = true) :
    ∃ n, v = .number n := by
  cases v with
  | number n => exact ⟨n, rfl⟩
  | null | bool b | string s =>
    cases ht
    cases hnumber
  | array items | object members =>
    rw [tokens, List.getLast?_cons, getLast?_listed] at ht
    cases ht
    cases hnumber

end Json

/-! ## Decoding a text -/

namespace Decoder

open JsonToken

variable {α : Type} {decode : Decoder α} {Means : Json → α → Prop}

/-- What is decoded from a text is what is decoded from its tokens. -/
theorem run_eq_ok_iff_gives {text : String} {a : α} :
    run decode text = .ok a ↔
      ∃ rest, Gives (decode ⟨[], Position.start.afterAll text.toList⟩ (scan ⟨text.toList, .start⟩)) a rest := by
  unfold run
  cases decode ⟨[], Position.start.afterAll text.toList⟩ (scan ⟨text.toList, .start⟩) with
  | error e => exact iff_of_false nofun (by rintro ⟨rest, h⟩; exact not_gives_error h)
  | ok d =>
    constructor
    · intro h
      cases h
      exact ⟨d.rest, gives_ok.2 ⟨rfl, rfl⟩⟩
    · rintro ⟨rest, h⟩
      rw [(gives_ok.1 h).1]
      rfl

/-- Where the text of a value stands, the scanner finds the tokens of the value. A number must not go on. -/
theorem exists_startsWith_of_spells (cur : Cursor) {v : Json} {front rest : List Char} (hrest : cur.rest = front ++ rest)
    (h : Spells v.tokens front) (hend : ∀ n, v = .number n → EndsBefore NumberText.continuing rest) :
    ∃ stop, StartsWith (scan cur) v.tokens (scan stop) ∧ stop.rest = rest := by
  refine exists_startsWith_scan cur hrest h v.separable_tokens ?_
  intro t ht hnumber
  obtain ⟨n, rfl⟩ := Json.exists_number_of_getLast? ht hnumber
  exact hend n rfl

/-- Nothing continues a number at the end of a text. -/
theorem endsBefore_nil (marks : List Char) : EndsBefore marks [] := fun _ hc => nomatch hc

/-- Where the text of a value begins with the text of an array or object, only white space comes after that. -/
theorem forall_isSpace_of_spells {v w : Json} {front rest : List Char} (hv : Spells v.tokens front)
    (hnumber : ∀ n, v ≠ .number n) (hw : Spells w.tokens (front ++ rest)) : ∀ c ∈ rest, isSpace c = true := by
  let cur : Cursor := ⟨front ++ rest, .start⟩
  obtain ⟨stop, hstarts, hstop⟩ := exists_startsWith_of_spells cur rfl hv fun n h => absurd h (hnumber n)
  obtain ⟨stop', hstarts', hstop'⟩ :=
    exists_startsWith_of_spells cur (List.append_nil _).symm hw fun _ _ => endsBefore_nil _
  -- One text starts with the tokens of one value only, so the scanner stops at the same lexemes.
  have hscan := (eq_of_startsWith hstarts hstarts').2
  rw [scan_nil hstop'] at hscan
  rw [← hstop]
  exact forall_isSpace_of_scan hscan

/-- What is decoded from the text of a value is what the value means. -/
theorem run_eq_ok_iff_means (h : Reads decode Means) {v : Json} {text : String} (hv : Spells v.tokens text.toList) {a : α} :
    run decode text = .ok a ↔ Means v a := by
  obtain ⟨stop, hstarts, -⟩ :=
    exists_startsWith_of_spells ⟨text.toList, .start⟩ (List.append_nil _).symm hv fun _ _ => endsBefore_nil _
  rw [run_eq_ok_iff_gives]
  constructor
  · rintro ⟨rest, hgives⟩
    obtain ⟨w, hw, hmeans⟩ := (h _ _ _ _).1 hgives
    rw [(eq_of_startsWith hstarts hw).1]
    exact hmeans
  · intro hmeans
    exact ⟨_, (h _ _ _ _).2 ⟨v, hstarts, hmeans⟩⟩

/-- Where only arrays and objects mean something, a text is decoded exactly if it begins with the text of a value that means
something, whatever comes after it. -/
theorem run_eq_ok_iff (h : Reads decode Means) (hnumber : ∀ n a, ¬Means (.number n) a) {text : String} {a : α} :
    run decode text = .ok a ↔
      ∃ v front rest, text.toList = front ++ rest ∧ Spells v.tokens front ∧ Means v a := by
  rw [run_eq_ok_iff_gives]
  constructor
  · rintro ⟨ts, hgives⟩
    obtain ⟨v, hv, hmeans⟩ := (h _ _ _ _).1 hgives
    obtain ⟨front, stop, htext, hspells, -⟩ := exists_spells hv v.separable_tokens.sound
    exact ⟨v, front, stop.rest, htext, hspells, hmeans⟩
  · rintro ⟨v, front, rest, htext, hspells, hmeans⟩
    -- A number could go on in the rest, but a number means nothing here.
    have hend : ∀ n, v = .number n → EndsBefore NumberText.continuing rest := by
      rintro n rfl
      exact absurd hmeans (hnumber n a)
    obtain ⟨stop, hstarts, -⟩ := exists_startsWith_of_spells ⟨text.toList, .start⟩ htext hspells hend
    exact ⟨_, (h _ _ _ _).2 ⟨v, hstarts, hmeans⟩⟩

end Decoder

end ClassSchema
