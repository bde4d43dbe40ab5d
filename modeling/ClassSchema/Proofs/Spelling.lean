import ClassSchema.Proofs.Grammar
import Mathlib.Data.List.Chain
import Mathlib.Data.List.TakeWhile

/-!
# The tokens that a text spells

The scanner inverts the spelling of tokens. A text spells the tokens that are found in it (`spells_scan`), and it spells no
others that can be told apart without blanks (`scan_of_spells`). The tokens of an annotation can be told apart, so a text
writes an annotation exactly when the tokens found in it are those of the annotation (`writes_iff_scan`).
-/

namespace ClassSchema

namespace Grammar

/-! ## Characters -/

section Decidable

variable {p : Char → Prop} [DecidablePred p]

/-- A condition on the characters of a text is decided by going through the text, not through all characters. -/
instance decidableForallMem (cs : List Char) : Decidable (∀ c ∈ cs, p c) := List.decidableBAll p cs

instance decidableForallMemOption (found : Option Char) : Decidable (∀ c ∈ found, p c) := Option.decidableForallMem found

instance decidableExistsMemOption (found : Option Char) : Decidable (∃ c ∈ found, p c) := Option.decidableExistsMem found

end Decidable

/-- The letters and the digits stand between `0` and `z`. -/
theorem toNat_of_isAlphanum {c : Char} (h : c.isAlphanum = true) : 48 ≤ c.toNat ∧ c.toNat ≤ 122 := by
  have hcases : (c.isUpper || c.isLower || c.isDigit) = true := h
  have hupper : c.isUpper = decide ('A'.val ≤ c.val ∧ c.val ≤ 'Z'.val) := rfl
  have hlower : c.isLower = (decide ('a'.val ≤ c.val) && decide (c.val ≤ 'z'.val)) := rfl
  rw [hupper, hlower] at hcases
  simp only [Bool.or_eq_true, Bool.and_eq_true, decide_eq_true_eq, UInt32.le_iff_toNat_le, Char.toNat_val,
    Char.isDigit_iff_toNat, Char.reduceToNat] at hcases
  omega

/-- A blank is no word character. -/
theorem isWordChar_of_isBlank {c : Char} (h : isBlank c = true) : isWordChar c = false := by
  simp only [isBlank, blankRanges, List.any_cons, List.any_nil, Bool.or_false, Bool.or_eq_true, Bool.and_eq_true,
    decide_eq_true_eq] at h
  rw [Bool.eq_false_iff]
  intro hw
  simp only [isWordChar, isWordStart, Bool.or_eq_true, beq_iff_eq] at hw
  rcases hw with (hw | rfl) | rfl
  · have := toNat_of_isAlphanum hw
    omega
  · revert h
    decide
  · revert h
    decide

/-- A character that a word may start with is a word character. -/
theorem isWordChar_of_isWordStart {c : Char} (h : isWordStart c = true) : isWordChar c = true := by
  simp [isWordChar, h]

section Stop

variable {p : Char → Bool} {c : Char}

/-- What is taken of a text is taken before a character that is not. -/
theorem takeWhile_append_cons (hc : p c = false) (cs ds : List Char) :
    (cs ++ c :: ds).takeWhile p = cs.takeWhile p := by
  induction cs with
  | nil => exact List.takeWhile_cons_of_neg (by simp [hc])
  | cons d cs ih => rw [List.cons_append, List.takeWhile_cons, List.takeWhile_cons, ih]

/-- What is dropped of a text is dropped before a character that is not. -/
theorem dropWhile_append_cons (hc : p c = false) (cs ds : List Char) :
    (cs ++ c :: ds).dropWhile p = cs.dropWhile p ++ c :: ds := by
  induction cs with
  | nil => exact List.dropWhile_cons_of_neg (by simp [hc])
  | cons d cs ih =>
    rw [List.cons_append, List.dropWhile_cons, List.dropWhile_cons, ih]
    split <;> rfl

end Stop

/-! ## The scanner, piece by piece -/

/-- Blanks before a text only move its tokens. -/
theorem scan_blanks_append {blanks : List Char} (h : ∀ c ∈ blanks, isBlank c = true) (offset : Nat) (cs : List Char) :
    Token.scan offset (blanks ++ cs) = Token.scan (offset + utf8Length blanks) cs := by
  induction blanks generalizing offset with
  | nil => rfl
  | cons b blanks ih =>
    rw [List.cons_append, Token.scan, if_pos (h b List.mem_cons_self),
      ih (fun c hc => h c (List.mem_cons_of_mem b hc)), utf8Length, Nat.add_assoc]

/-- A word ends where the word characters do. -/
theorem scan_word_append {c : Char} {cs rest : List Char} (hc : isWordStart c = true) (hcs : ∀ d ∈ cs, isWordChar d = true)
    (hrest : ∀ d ∈ rest.head?, isWordChar d = false) (offset : Nat) :
    Token.scan offset (c :: cs ++ rest) =
      ⟨offset, .word c cs⟩ :: Token.scan (offset + utf8Length (c :: cs)) rest := by
  have hblank : ¬ isBlank c = true := by
    intro hb
    have := isWordChar_of_isBlank hb
    rw [isWordChar_of_isWordStart hc] at this
    nomatch this
  have htake : (cs ++ rest).takeWhile isWordChar = cs := by
    rw [List.takeWhile_append_of_pos hcs]
    cases rest with
    | nil => simp
    | cons d rest => simp [hrest d rfl]
  have hdrop : (cs ++ rest).dropWhile isWordChar = rest := by
    rw [List.dropWhile_append_of_pos hcs]
    cases rest with
    | nil => rfl
    | cons d rest => simp [hrest d rfl]
  rw [List.cons_append, Token.scan, if_neg hblank, if_pos hc, htake, hdrop]

/-- Any other character is a mark. -/
theorem scan_mark_cons {c : Char} (hb : isBlank c = false) (hw : isWordStart c = false) (offset : Nat) (cs : List Char) :
    Token.scan offset (c :: cs) = ⟨offset, .mark c⟩ :: Token.scan (offset + c.utf8Size) cs := by
  rw [Token.scan, hb, hw]
  simp

/-- A character that is no word character begins a token or stands between tokens, so the tokens before it are found without
it. -/
theorem scan_append_cons {c : Char} (hc : isWordChar c = false) (offset : Nat) (cs ds : List Char) :
    Token.scan offset (cs ++ c :: ds) = Token.scan offset cs ++ Token.scan (offset + utf8Length cs) (c :: ds) := by
  induction offset, cs using Token.scan.induct with
  | case1 offset => simp only [Token.scan, List.nil_append, utf8Length, Nat.add_zero]
  | case2 offset d cs hb ih =>
    have hscan (es : List Char) : Token.scan offset (d :: es) = Token.scan (offset + d.utf8Size) es := by
      rw [Token.scan, if_pos hb]
    rw [List.cons_append, hscan, hscan, ih, utf8Length, Nat.add_assoc]
  | case3 offset d cs hb hw ih =>
    have hscan (es : List Char) : Token.scan offset (d :: es) = ⟨offset, .word d (es.takeWhile isWordChar)⟩ ::
        Token.scan (offset + utf8Length (d :: es.takeWhile isWordChar)) (es.dropWhile isWordChar) := by
      rw [Token.scan, if_neg hb, if_pos hw]
    have hlength : utf8Length (d :: cs.takeWhile isWordChar) + utf8Length (cs.dropWhile isWordChar) = utf8Length (d :: cs) := by
      rw [← utf8Length_append, List.cons_append, List.takeWhile_append_dropWhile]
    rw [List.cons_append, hscan, hscan, takeWhile_append_cons hc, dropWhile_append_cons hc, ih, List.cons_append, Nat.add_assoc,
      hlength]
  | case4 offset d cs hb hw ih =>
    have hscan (es : List Char) : Token.scan offset (d :: es) = ⟨offset, .mark d⟩ :: Token.scan (offset + d.utf8Size) es := by
      rw [Token.scan, if_neg hb, if_neg hw]
    rw [List.cons_append, hscan, hscan, ih, utf8Length, List.cons_append, Nat.add_assoc]

/-! ## A text spells the tokens found in it -/

/-- Blanks may be put before a text. -/
theorem Spells.blank_cons {c : Char} (hc : isBlank c = true) {cs : List Char} {ts : List Token} (h : Spells cs ts) :
    Spells (c :: cs) ts := by
  have hcons {blanks : List Char} (hb : ∀ d ∈ blanks, isBlank d = true) : ∀ d ∈ c :: blanks, isBlank d = true := by
    intro d hd
    rcases List.mem_cons.1 hd with rfl | hd
    · exact hc
    · exact hb d hd
  cases h with
  | nil hb => exact .nil (hcons hb)
  | cons hb hrest => exact .cons (hcons hb) hrest

/-- Any number of blanks may be put before a text. -/
theorem Spells.blanks_append {blanks : List Char} (hb : ∀ c ∈ blanks, isBlank c = true) {cs : List Char}
    {ts : List Token} (h : Spells cs ts) : Spells (blanks ++ cs) ts := by
  induction blanks with
  | nil => exact h
  | cons b blanks ih =>
    rw [List.forall_mem_cons] at hb
    exact (ih hb.2).blank_cons hb.1

/-- Two texts one after the other spell the tokens of both. -/
theorem Spells.append {cs ds : List Char} {ts us : List Token} (hcs : Spells cs ts) (hds : Spells ds us) :
    Spells (cs ++ ds) (ts ++ us) := by
  induction hcs with
  | nil hb => exact hds.blanks_append hb
  | @cons blanks cs t ts hb _ ih =>
    have := Spells.cons (t := t) hb ih
    rw [← List.append_assoc] at this
    exact this

/-- A token may be put directly before a text. -/
theorem Spells.token_cons {t : Token} {cs : List Char} {ts : List Token} (h : Spells cs ts) :
    Spells (tokenText t ++ cs) (t :: ts) := by
  have hnone : ∀ c ∈ ([] : List Char), isBlank c = true := fun _ hc => nomatch hc
  exact .cons hnone h

/-- No tokens are spelled with nothing. -/
theorem spells_nil : Spells [] [] := .nil fun _ hc => nomatch hc

/-- One token by itself. -/
theorem spells_token (t : Token) : Spells (tokenText t) [t] := by
  have := spells_nil.token_cons (t := t)
  rwa [List.append_nil] at this

/-- A mark between two texts. -/
theorem Spells.append_mark {cs ds : List Char} {ts us : List Token} (hcs : Spells cs ts) (mark : Char)
    (hds : Spells ds us) : Spells (cs ++ mark :: ds) (ts ++ .mark mark :: us) :=
  hcs.append (hds.token_cons (t := .mark mark))

/-- A text spells the tokens that the scanner finds in it. -/
theorem spells_scan (offset : Nat) (cs : List Char) : Spells cs ((Token.scan offset cs).map (·.token)) := by
  induction offset, cs using Token.scan.induct with
  | case1 offset =>
    rw [Token.scan]
    exact .nil fun _ hd => nomatch hd
  | case2 offset c cs hb ih =>
    rw [Token.scan, if_pos hb]
    exact ih.blank_cons hb
  | case3 offset c cs hb hw ih =>
    rw [Token.scan, if_neg hb, if_pos hw]
    have hcs : c :: cs = tokenText (.word c (cs.takeWhile isWordChar)) ++ cs.dropWhile isWordChar := by
      simp [tokenText]
    rw [hcs]
    exact ih.token_cons
  | case4 offset c cs hb hw ih =>
    rw [Token.scan, if_neg hb, if_neg hw]
    exact Spells.token_cons (t := .mark c) ih

/-- A token as the scanner makes them: a word of word characters, or a mark that is no blank and begins no word. -/
def Proper : Token → Prop
  | .word c cs => isWordStart c = true ∧ ∀ d ∈ cs, isWordChar d = true
  | .mark c => isBlank c = false ∧ isWordStart c = false

/-- The tokens that the scanner finds are proper. -/
theorem proper_of_mem_scan (offset : Nat) (cs : List Char) : ∀ t ∈ Token.scan offset cs, Proper t.token := by
  induction offset, cs using Token.scan.induct with
  | case1 offset =>
    rw [Token.scan]
    exact fun t ht => (List.not_mem_nil ht).elim
  | case2 offset c cs hb ih =>
    rw [Token.scan, if_pos hb]
    exact ih
  | case3 offset c cs hb hw ih =>
    rw [Token.scan, if_neg hb, if_pos hw, List.forall_mem_cons]
    exact ⟨⟨hw, fun d hd => List.mem_takeWhile_imp hd⟩, ih⟩
  | case4 offset c cs hb hw ih =>
    rw [Token.scan, if_neg hb, if_neg hw, List.forall_mem_cons]
    exact ⟨⟨Bool.eq_false_iff.2 hb, Bool.eq_false_iff.2 hw⟩, ih⟩

/-! ## No text spells other tokens -/

/-- Two tokens that need no blank between them: the second does not go on with a word that the first is. -/
def Apart : Token → Token → Prop
  | .word _ _, .word _ _ => False
  | .word _ _, .mark c => c ≠ '-'
  | .mark _, _ => True

/-- Tokens that can be told apart wherever the blanks are. -/
structure Legible (ts : List Token) : Prop where
  proper : ∀ t ∈ ts, Proper t
  apart : ts.IsChain Apart

/-- No tokens can be told apart. -/
theorem Legible.nil : Legible [] := ⟨fun _ ht => (List.not_mem_nil ht).elim, .nil⟩

/-- The first of legible tokens are legible. -/
theorem Legible.of_isPrefix {ts us : List Token} (h : Legible ts) (hfirst : us <+: ts) : Legible us :=
  ⟨fun t ht => h.proper t (hfirst.subset ht), h.apart.prefix hfirst⟩

/-- Only a dash goes on with a word. -/
theorem apart_mark {c : Char} (hc : c ≠ '-') (t : Token) : Apart t (.mark c) := by
  cases t with
  | word _ _ => exact hc
  | mark _ => trivial

/-- The text after a word starts with no word character. -/
theorem Spells.head_of_apart {cs : List Char} {ts : List Token} (h : Spells cs ts) (hproper : ∀ t ∈ ts, Proper t)
    {c : Char} {tail : List Char} (hapart : ∀ t ∈ ts.head?, Apart (.word c tail) t) :
    ∀ d ∈ cs.head?, isWordChar d = false := by
  cases h with
  | nil hb =>
    intro d hd
    exact isWordChar_of_isBlank (hb d (List.mem_of_mem_head? hd))
  | @cons blanks rest t ts hb hrest =>
    intro d hd
    cases blanks with
    | cons b blanks =>
      obtain rfl : b = d := by simpa using hd
      exact isWordChar_of_isBlank (hb b List.mem_cons_self)
    | nil =>
      cases t with
      | word _ _ => exact (hapart _ rfl).elim
      | mark m =>
        obtain rfl : m = d := by simpa [tokenText] using hd
        have hstart : isWordStart m = false := (hproper _ List.mem_cons_self).2
        have hdash : m ≠ '-' := hapart _ rfl
        simp [isWordChar, hstart, hdash]

/-- The scanner finds the tokens that a text spells. -/
theorem scan_of_spells {cs : List Char} {ts : List Token} (h : Spells cs ts) (hl : Legible ts) (offset : Nat) :
    (Token.scan offset cs).map (·.token) = ts := by
  induction h generalizing offset with
  | @nil blanks hb =>
    have := scan_blanks_append hb offset []
    rw [List.append_nil, Token.scan] at this
    rw [this]
    rfl
  | @cons blanks rest t ts hb hrest ih =>
    have hproper : ∀ s ∈ ts, Proper s := fun s hs => hl.proper s (List.mem_cons_of_mem t hs)
    obtain ⟨hhead, htail⟩ := List.isChain_cons.1 hl.apart
    have ih := ih ⟨hproper, htail⟩
    rw [List.append_assoc, scan_blanks_append hb]
    cases t with
    | word c tail =>
      obtain ⟨hc, htail⟩ := hl.proper _ List.mem_cons_self
      rw [tokenText, scan_word_append hc htail (hrest.head_of_apart hproper hhead), List.map_cons, ih]
    | mark c =>
      obtain ⟨hblank, hstart⟩ := hl.proper _ List.mem_cons_self
      rw [tokenText, List.singleton_append, scan_mark_cons hblank hstart, List.map_cons, ih]

/-! ## The tokens of an annotation -/

instance : DecidablePred Proper
  | .word c cs => inferInstanceAs (Decidable (isWordStart c = true ∧ ∀ d ∈ cs, isWordChar d = true))
  | .mark c => inferInstanceAs (Decidable (isBlank c = false ∧ isWordStart c = false))

/-- One token by itself can always be told. -/
theorem legible_singleton {t : Token} : Legible [t] ↔ Proper t := by
  constructor
  · intro h
    exact h.proper t List.mem_cons_self
  · intro h
    refine ⟨?_, .singleton t⟩
    intro s hs
    rw [List.mem_singleton.1 hs]
    exact h

/-- A mark can be told from what is before it and from what is after it. -/
theorem legible_append_mark {c : Char} (hdash : c ≠ '-') (ts us : List Token) :
    Legible (ts ++ .mark c :: us) ↔ Legible ts ∧ Proper (.mark c) ∧ Legible us := by
  constructor
  · intro ⟨hproper, hapart⟩
    rw [List.isChain_append, List.isChain_cons] at hapart
    exact ⟨⟨fun t ht => hproper t (by simp [ht]), hapart.1⟩, hproper _ (by simp),
      ⟨fun t ht => hproper t (by simp [ht]), hapart.2.1.2⟩⟩
  · intro ⟨hts, hc, hus⟩
    have hleft : ∀ u ∈ us.head?, Apart (.mark c) u := fun u _ => by cases u <;> trivial
    have hright : ∀ t ∈ ts.getLast?, ∀ u ∈ (Token.mark c :: us).head?, Apart t u := by
      intro t _ u hu
      obtain rfl : Token.mark c = u := by simpa using hu
      exact apart_mark hdash t
    refine ⟨?_, List.isChain_append.2 ⟨hts.apart, List.isChain_cons.2 ⟨hleft, hus.apart⟩, hright⟩⟩
    intro t ht
    rcases List.mem_append.1 ht with ht | ht
    · exact hts.proper t ht
    · rcases List.mem_cons.1 ht with rfl | ht
      · exact hc
      · exact hus.proper t ht

/-- A mark before tokens can be told from them. -/
theorem legible_mark_cons {c : Char} {ts : List Token} (hdash : c ≠ '-') :
    Legible (.mark c :: ts) ↔ Proper (.mark c) ∧ Legible ts := by
  have h := legible_append_mark hdash [] ts
  rw [List.nil_append] at h
  rw [h]
  exact and_iff_right .nil

/-- A token before a mark can be told from it. -/
theorem legible_cons_mark {t : Token} {c : Char} {ts : List Token} (hdash : c ≠ '-') :
    Legible (t :: .mark c :: ts) ↔ Proper t ∧ Proper (.mark c) ∧ Legible ts := by
  rw [← legible_singleton]
  exact legible_append_mark hdash [t] ts

/-- A name is a word of word characters. -/
theorem Name.proper (n : Name) : Proper n.token := ⟨n.head_start, n.tail_word⟩

/-- Suffixes can be told apart. -/
theorem legible_suffixTokens (wraps : Nat) : Legible (suffixTokens wraps) := by
  induction wraps with
  | zero => exact .nil
  | succ wraps ih =>
    rw [suffixTokens]
    exact (legible_cons_mark (by decide)).2 ⟨by decide, by decide, ih⟩

mutual

/-- The tokens of an annotation can be told apart. -/
theorem Alternation.legible : (a : Alternation) → Legible a.tokens
  | .single m => m.legible
  | .alternative m rest => (legible_append_mark (by decide) _ _).2 ⟨m.legible, by decide, rest.legible⟩

/-- The tokens of a member can be told apart. -/
theorem Member.legible : (m : Member) → Legible m.tokens
  | .nullable inner => (legible_mark_cons (by decide)).2 ⟨by decide, inner.legible⟩
  | .plain p 0 => by
    rw [Member.tokens, suffixTokens, List.append_nil]
    exact p.legible
  | .plain p (wraps + 1) => by
    rw [Member.tokens, suffixTokens]
    have hrest : Legible (.mark ']' :: suffixTokens wraps) :=
      (legible_mark_cons (by decide)).2 ⟨by decide, legible_suffixTokens wraps⟩
    exact (legible_append_mark (by decide) _ _).2 ⟨p.legible, by decide, hrest⟩

/-- The tokens of a primary can be told apart. -/
theorem Primary.legible : (p : Primary) → Legible p.tokens
  | .name n => legible_singleton.2 n.proper
  | .empty base _ => (legible_cons_mark (by decide)).2 ⟨base.proper, by decide, legible_singleton.2 (by decide)⟩
  | .bracketed base bracket _ entries => by
    have hopening : opening bracket ≠ '-' ∧ Proper (.mark (opening bracket)) := by cases bracket <;> decide
    have hclose : bracket.close ≠ '-' ∧ Proper (.mark bracket.close) := by cases bracket <;> decide
    rw [Primary.tokens, legible_cons_mark hopening.1, legible_append_mark hclose.1]
    exact ⟨base.proper, hopening.2, entries.legible, hclose.2, .nil⟩

/-- The tokens of entries can be told apart. -/
theorem Entries.legible : (es : Entries) → Legible es.tokens
  | .single a => a.legible
  | .more a rest => (legible_append_mark (by decide) _ _).2 ⟨a.legible, by decide, rest.legible⟩

end

/-- A text writes an annotation exactly when the scanner finds the tokens of the annotation in it. -/
theorem Alternation.writes_iff_scan (a : Alternation) (text : String) (offset : Nat) :
    a.Writes text ↔ (Token.scan offset text.toList).map (·.token) = a.tokens := by
  constructor
  · intro h
    exact scan_of_spells h a.legible offset
  · intro h
    have hs := spells_scan offset text.toList
    rw [h] at hs
    exact hs

end Grammar

end ClassSchema
