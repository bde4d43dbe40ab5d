import ClassSchema.Proofs.Language
import ClassSchema.Proofs.Trimming

/-!
# Where a type ends in a doc comment

The scanner of a type in a doc comment knows nothing of the grammar: it counts brackets and looks at the characters around a run
of blanks. On a text that writes an annotation the two agree as long as no blank outside the brackets ends the type (`Joined`):
the scanner then keeps every character that is no blank, so what it finds is made of the same tokens (`spells_typeFrom`). An
annotation closes the brackets that it opens (`bracketDepth_tokens`) and does not end with `|` or `?`
(`closes_tokens`), so a blank after it ends the type unless a `|` follows (`typeFrom_stops`).
-/

namespace ClassSchema

namespace DocComment

open Grammar

/-! ## Brackets -/

/-- How many brackets are open at the end of a text; negative where more are closed than opened. -/
def bracketDepth (cs : List Char) : Int :=
  ((cs.count '<' + cs.count '{' : Nat) : Int) - ((cs.count '>' + cs.count '}' : Nat) : Int)

theorem bracketDepth_append (cs ds : List Char) : bracketDepth (cs ++ ds) = bracketDepth cs + bracketDepth ds := by
  simp only [bracketDepth, List.count_append]
  omega

theorem bracketDepth_cons (c : Char) (cs : List Char) : bracketDepth (c :: cs) = bracketStep c + bracketDepth cs := by
  have hc : bracketDepth [c] = bracketStep c := by
    by_cases h1 : c = '<'
    · subst h1
      rfl
    by_cases h2 : c = '{'
    · subst h2
      rfl
    by_cases h3 : c = '>'
    · subst h3
      rfl
    by_cases h4 : c = '}'
    · subst h4
      rfl
    simp [bracketDepth, bracketStep, h1, h2, h3, h4]
  rw [← hc, ← bracketDepth_append, List.singleton_append]

/-- A character that is no bracket changes nothing. -/
theorem bracketStep_eq_zero {c : Char} (h : c ∉ ['<', '{', '>', '}']) : bracketStep c = 0 := by
  simp only [List.mem_cons, List.not_mem_nil, or_false, not_or] at h
  simp [bracketStep, h]

theorem bracketStep_of_isBlank {c : Char} (h : isBlank c = true) : bracketStep c = 0 := by
  refine bracketStep_eq_zero fun hc => ?_
  have : ∀ d ∈ ['<', '{', '>', '}'], isBlank d = false := by decide
  rw [this c hc] at h
  nomatch h

theorem bracketStep_of_isWordChar {c : Char} (h : isWordChar c = true) : bracketStep c = 0 := by
  refine bracketStep_eq_zero fun hc => ?_
  have : ∀ d ∈ ['<', '{', '>', '}'], isWordChar d = false := by decide
  rw [this c hc] at h
  nomatch h

/-- A text without brackets opens and closes none. -/
theorem bracketDepth_eq_zero {cs : List Char} (h : ∀ c ∈ cs, bracketStep c = 0) : bracketDepth cs = 0 := by
  induction cs with
  | nil => rfl
  | cons c cs ih =>
    rw [List.forall_mem_cons] at h
    rw [bracketDepth_cons, h.1, ih h.2, Int.add_zero]

theorem bracketDepth_blanks {cs : List Char} (h : ∀ c ∈ cs, isBlank c = true) : bracketDepth cs = 0 :=
  bracketDepth_eq_zero fun c hc => bracketStep_of_isBlank (h c hc)

/-! ## The scanner of a type, piece by piece -/

variable {depth : Int} {last : Option Char} {blanks cs text rest : List Char}

/-- Characters that are no blanks are kept. -/
theorem typeFrom_text (hne : text ≠ []) (htext : ∀ c ∈ text, isBlank c = false) (depth : Int) (last : Option Char)
    (rest : List Char) :
    typeFrom depth last (text ++ rest) = text ++ typeFrom (depth + bracketDepth text) text.getLast? rest := by
  induction text generalizing depth last with
  | nil => exact absurd rfl hne
  | cons c cs ih =>
    rw [List.forall_mem_cons] at htext
    rw [List.cons_append, typeFrom, if_neg (by simp [htext.1]), bracketDepth_cons]
    cases cs with
    | nil => simp [bracketDepth]
    | cons d ds =>
      rw [ih (by simp) htext.2, List.getLast?_cons_cons, Int.add_assoc]
      rfl

/-- Blanks inside brackets are kept. -/
theorem exists_typeFrom_inside (cs : List Char) (hblanks : ∀ c ∈ blanks, isBlank c = true) (hdepth : 0 < depth) (last : Option Char) :
    ∃ last', typeFrom depth last (blanks ++ cs) = blanks ++ typeFrom depth last' cs := by
  induction blanks generalizing last with
  | nil => exact ⟨last, rfl⟩
  | cons b bs ih =>
    rw [List.forall_mem_cons] at hblanks
    obtain ⟨last', h⟩ := ih hblanks.2 (some b)
    refine ⟨last', ?_⟩
    rw [List.cons_append, typeFrom, if_neg (by omega), bracketStep_of_isBlank hblanks.1, Int.add_zero, h]
    rfl

/-- Blanks outside brackets that touch a `|` or follow a `?` are dropped. -/
theorem typeFrom_joined (hblanks : ∀ c ∈ blanks, isBlank c = true) (hdepth : depth ≤ 0)
    (hhead : ∀ c ∈ cs.head?, isBlank c = false) (hjoin : last = some '|' ∨ last = some '?' ∨ cs.head? = some '|') :
    typeFrom depth last (blanks ++ cs) = typeFrom depth last cs := by
  induction blanks with
  | nil => rfl
  | cons b bs ih =>
    have hjoins : blanksJoin last (b :: bs ++ cs) = true := by
      rw [blanksJoin, List.dropWhile_append_of_pos hblanks, dropWhile_isBlank_eq_self hhead]
      rcases hjoin with rfl | rfl | h
      · rfl
      · rfl
      · simp [h]
    rw [List.forall_mem_cons] at hblanks
    rw [List.cons_append] at hjoins ⊢
    rw [typeFrom, if_pos ⟨hblanks.1, hdepth⟩, if_pos hjoins, ih hblanks.2]

/-- Blanks that do not end the type are kept or dropped, all of them. -/
theorem exists_typeFrom_blanks (hblanks : ∀ c ∈ blanks, isBlank c = true) (hhead : ∀ c ∈ cs.head?, isBlank c = false)
    (hjoin : blanks ≠ [] → depth ≤ 0 → last = some '|' ∨ last = some '?' ∨ cs.head? = some '|') :
    ∃ kept last', (∀ c ∈ kept, isBlank c = true) ∧
      typeFrom depth last (blanks ++ cs) = kept ++ typeFrom depth last' cs := by
  by_cases hdepth : depth ≤ 0
  · by_cases hne : blanks = []
    · subst hne
      exact ⟨[], last, by simp, rfl⟩
    · exact ⟨[], last, by simp, typeFrom_joined hblanks hdepth hhead (hjoin hne hdepth)⟩
  · obtain ⟨last', h⟩ := exists_typeFrom_inside cs hblanks (by omega : 0 < depth) last
    exact ⟨blanks, last', hblanks, h⟩

/-- A text that does not go on with the type before it: it is empty, or begins with a blank and goes on with something else
than a `|`. -/
def Stops (rest : List Char) : Prop :=
  rest = [] ∨ (∃ c ∈ rest.head?, isBlank c = true) ∧ (rest.dropWhile isBlank).head? ≠ some '|'

/-- Outside brackets, after a character that does not ask for more, such a text ends the type. -/
theorem typeFrom_stops (hrest : Stops rest) (hdepth : depth ≤ 0) (hbar : last ≠ some '|') (hquestion : last ≠ some '?') :
    typeFrom depth last rest = [] := by
  rcases hrest with rfl | ⟨⟨b, hb, hblank⟩, hnext⟩
  · rfl
  · obtain ⟨cs, rfl⟩ := List.head?_eq_some_iff.1 hb
    have hjoins : ¬blanksJoin last (b :: cs) = true := by
      simp [blanksJoin, hbar, hquestion, hnext]
    rw [typeFrom, if_pos ⟨hblank, hdepth⟩, if_neg hjoins]

/-! ## Annotations in the eyes of the scanner -/

/-- The blanks between two parts of a text, if they are all the blanks there and stand outside the brackets, touch a `|` or
follow a `?`. -/
def Joins (before run after : List Char) : Prop :=
  before ≠ [] → run ≠ [] → after ≠ [] → (∀ c ∈ run, isBlank c = true) → (∀ c ∈ before.getLast?, isBlank c = false) →
    (∀ c ∈ after.head?, isBlank c = false) → bracketDepth before ≤ 0 →
    before.getLast? = some '|' ∨ before.getLast? = some '?' ∨ after.head? = some '|'

/-- Every run of blanks outside the brackets of a text, but for those at its ends, touches a `|` or follows a `?`. -/
def Joined (cs : List Char) : Prop := ∀ before run after, cs = before ++ run ++ after → Joins before run after

instance (before run after : List Char) : Decidable (Joins before run after) := inferInstanceAs (Decidable (_ → _))

/-- It is enough to look at the runs between two places of the text. -/
theorem joined_iff {cs : List Char} : Joined cs ↔
    ∀ i ≤ cs.length, ∀ n ≤ cs.length, Joins (cs.take i) ((cs.drop i).take n) ((cs.drop i).drop n) := by
  constructor
  · intro h i _ n _
    exact h _ _ _ (by rw [List.append_assoc, List.take_append_drop, List.take_append_drop])
  · rintro h before run after rfl
    simpa using h before.length (by simp) run.length (by simp; omega)

instance (cs : List Char) : Decidable (Joined cs) := decidable_of_iff' _ joined_iff

/-- What is between the blanks at the ends of a text is joined if the text is. -/
theorem Joined.inner {left core right : List Char} (h : Joined (left ++ core ++ right))
    (hleft : ∀ c ∈ left, isBlank c = true) : Joined core := by
  intro before run after heq hbefore hrun hafter hblank hlast hhead hdepth
  subst heq
  have hbefore' : (left ++ before).getLast? = before.getLast? := List.getLast?_append_of_ne_nil _ hbefore
  have hafter' : (after ++ right).head? = after.head? := List.head?_append_of_ne_nil _ hafter
  have := h (left ++ before) run (after ++ right) (by simp) (by simp [hbefore]) hrun (by simp [hafter]) hblank
    (by rwa [hbefore']) (by rwa [hafter']) (by rwa [bracketDepth_append, bracketDepth_blanks hleft, Int.zero_add])
  rwa [hbefore', hafter'] at this

theorem tokenText_ne_nil (t : Token) : tokenText t ≠ [] := by cases t <;> simp [tokenText]

/-- No character of a token is a blank. -/
theorem isBlank_of_mem_tokenText {t : Token} (ht : Proper t) : ∀ c ∈ tokenText t, isBlank c = false := by
  have hword : ∀ c : Char, isWordChar c = true → isBlank c = false := by
    intro c hc
    rw [Bool.eq_false_iff]
    intro hb
    rw [isWordChar_of_isBlank hb] at hc
    nomatch hc
  cases t with
  | word c cs => exact List.forall_mem_cons.2 ⟨hword c (isWordChar_of_isWordStart ht.1), fun d hd => hword d (ht.2 d hd)⟩
  | mark c => exact List.forall_mem_singleton.2 ht.1

/-- From a joined text that is followed by something else, the scanner finds a text of the same tokens. `done` is what it has
gone through, and the induction is on the tokens that are left. -/
theorem spells_typeFrom {core rest : List Char} (hjoined : Joined core) (hend : ∀ c ∈ core.getLast?, isBlank c = false)
    (hstart : ∀ c ∈ core.head?, isBlank c = false) (hrest : typeFrom (bracketDepth core) core.getLast? rest = [])
    {cs : List Char} {ts : List Token} (h : Spells cs ts) (hproper : ∀ t ∈ ts, Proper t) (done : List Char)
    (hcore : core = done ++ cs) (hdone : ∀ c ∈ done.getLast?, isBlank c = false) :
    Spells (typeFrom (bracketDepth done) done.getLast? (cs ++ rest)) ts := by
  induction h generalizing done with
  | @nil blanks hb =>
    have hnil : blanks = [] := by
      by_contra hne
      have hlast : core.getLast? = some (blanks.getLast hne) := by
        rw [hcore, List.getLast?_append_of_ne_nil _ hne, List.getLast?_eq_some_getLast hne]
      have := hend _ hlast
      rw [hb _ (List.getLast_mem hne)] at this
      nomatch this
    rw [hnil, List.append_nil] at hcore
    rw [hnil, List.nil_append, ← hcore, hrest]
    exact .nil (by simp)
  | @cons blanks cs t ts hb _ ih =>
    rw [List.forall_mem_cons] at hproper
    have htext := isBlank_of_mem_tokenText hproper.1
    have hne := tokenText_ne_nil t
    have hhead : ∀ c ∈ (tokenText t ++ (cs ++ rest)).head?, isBlank c = false := by
      intro c hc
      rw [List.head?_append_of_ne_nil _ hne] at hc
      exact htext c (List.mem_of_mem_head? hc)
    have hjoin : blanks ≠ [] → bracketDepth done ≤ 0 → done.getLast? = some '|' ∨ done.getLast? = some '?' ∨
        (tokenText t ++ (cs ++ rest)).head? = some '|' := by
      intro hblanks hdepth
      have hdone' : done ≠ [] := by
        rintro rfl
        -- A text that starts with no blank has none before its first token.
        obtain ⟨b, bs, rfl⟩ := List.exists_cons_of_ne_nil hblanks
        have := hstart b (by rw [hcore]; rfl)
        rw [hb b List.mem_cons_self] at this
        nomatch this
      have := hjoined done blanks (tokenText t ++ cs) (by rw [hcore]; simp) hdone' hblanks (by simp [hne]) hb hdone
        (by rw [List.head?_append_of_ne_nil _ hne]; exact fun c hc => htext c (List.mem_of_mem_head? hc)) hdepth
      rwa [List.head?_append_of_ne_nil _ hne] at this ⊢
    obtain ⟨kept, last', hkept, hscan⟩ := exists_typeFrom_blanks hb hhead hjoin
    have hlast : (done ++ (blanks ++ tokenText t)).getLast? = (tokenText t).getLast? := by
      rw [← List.append_assoc, List.getLast?_append_of_ne_nil _ hne]
    have hdepth : bracketDepth (done ++ (blanks ++ tokenText t)) = bracketDepth done + bracketDepth (tokenText t) := by
      rw [bracketDepth_append, bracketDepth_append, bracketDepth_blanks hb, Int.zero_add]
    have ih := ih hproper.2 (done ++ (blanks ++ tokenText t)) (by rw [hcore]; simp) (by
      rw [hlast]
      exact fun c hc => htext c (List.mem_of_mem_getLast? hc))
    rw [hlast, hdepth] at ih
    rw [List.append_assoc, List.append_assoc, hscan, typeFrom_text hne htext, ← List.append_assoc]
    exact .cons hkept ih

/-! ## The ends of an annotation -/

/-- A token that an annotation may end with. -/
def Closing : Token → Prop
  | .word .. => True
  | .mark c => c = ']' ∨ c = '>' ∨ c = '}'

/-- Tokens that end with such a token. -/
def Closes (ts : List Token) : Prop := ∃ us t, ts = us ++ [t] ∧ Closing t

theorem Closes.append_left (us : List Token) {ts : List Token} (h : Closes ts) : Closes (us ++ ts) := by
  obtain ⟨vs, t, rfl, ht⟩ := h
  exact ⟨us ++ vs, t, (List.append_assoc ..).symm, ht⟩

theorem closes_primary (p : Primary) : Closes p.tokens := by
  cases p with
  | name n => exact ⟨[], n.token, rfl, trivial⟩
  | empty base _ => exact ⟨[base.token, .mark '{'], .mark '}', rfl, Or.inr (Or.inr rfl)⟩
  | bracketed base bracket _ entries =>
    refine ⟨base.token :: .mark (opening bracket) :: entries.tokens, .mark bracket.close, rfl, ?_⟩
    cases bracket
    · exact Or.inr (Or.inl rfl)
    · exact Or.inr (Or.inr rfl)

mutual

/-- A member ends with a name or with a bracket that closes. -/
theorem closes_member : (m : Member) → Closes m.tokens
  | .nullable inner => (closes_member inner).append_left [.mark '?']
  | .plain p 0 => by
    rw [Member.tokens, suffixTokens, List.append_nil]
    exact closes_primary p
  | .plain p (wraps + 1) => by
    refine ⟨p.tokens ++ (suffixTokens wraps ++ [.mark '[']), .mark ']', ?_, Or.inl rfl⟩
    rw [Member.tokens, suffixTokens_succ, List.append_assoc, List.append_assoc, List.singleton_append]

/-- An annotation ends with a name or with a bracket that closes. -/
theorem closes_tokens : (a : Alternation) → Closes a.tokens
  | .single m => closes_member m
  | .alternative m rest => by
    have := (closes_tokens rest).append_left (m.tokens ++ [.mark '|'])
    rwa [List.append_assoc] at this

end

/-- The last character of an annotation is no blank, does not ask for more and belongs to no end of a comment. -/
theorem Closing.lastChar {t : Token} (h : Closing t) (ht : Proper t) :
    ∀ c ∈ (tokenText t).getLast?, isBlank c = false ∧ c ∉ ['|', '?', '/', '*'] := by
  intro c hc
  refine ⟨isBlank_of_mem_tokenText ht c (List.mem_of_mem_getLast? hc), fun hmem => ?_⟩
  cases t with
  | word d ds =>
    have hword : isWordChar c = true := by
      rcases List.mem_cons.1 (List.mem_of_mem_getLast? hc) with rfl | hd
      · exact isWordChar_of_isWordStart ht.1
      · exact ht.2 c hd
    have : ∀ e ∈ ['|', '?', '/', '*'], isWordChar e = false := by decide
    rw [this c hmem] at hword
    nomatch hword
  | mark d =>
    obtain rfl : d = c := by simpa [tokenText] using hc
    rcases h with rfl | rfl | rfl <;> revert hmem <;> decide

theorem bracketDepth_name (n : Name) : bracketDepth (tokenText n.token) = 0 := by
  refine bracketDepth_eq_zero (List.forall_mem_cons.2 ⟨?_, fun c hc => bracketStep_of_isWordChar (n.tail_word c hc)⟩)
  exact bracketStep_of_isWordChar (isWordChar_of_isWordStart n.head_start)

theorem bracketDepth_suffixTokens (wraps : Nat) : bracketDepth ((suffixTokens wraps).flatMap tokenText) = 0 := by
  induction wraps with
  | zero => rfl
  | succ wraps ih =>
    rw [suffixTokens, List.flatMap_cons, List.flatMap_cons, bracketDepth_append, bracketDepth_append, ih]
    rfl

mutual

/-- An annotation closes the brackets that it opens. -/
theorem bracketDepth_tokens : (a : Alternation) → bracketDepth (a.tokens.flatMap tokenText) = 0
  | .single m => bracketDepth_member m
  | .alternative m rest => by
    rw [Alternation.tokens, List.flatMap_append, List.flatMap_cons, bracketDepth_append, bracketDepth_append,
      bracketDepth_member m, bracketDepth_tokens rest]
    rfl

/-- A member closes the brackets that it opens. -/
theorem bracketDepth_member : (m : Member) → bracketDepth (m.tokens.flatMap tokenText) = 0
  | .nullable inner => by
    rw [Member.tokens, List.flatMap_cons, bracketDepth_append, bracketDepth_member inner]
    rfl
  | .plain p wraps => by
    rw [Member.tokens, List.flatMap_append, bracketDepth_append, bracketDepth_primary p, bracketDepth_suffixTokens]
    rfl

/-- A primary closes the brackets that it opens. -/
theorem bracketDepth_primary : (p : Primary) → bracketDepth (p.tokens.flatMap tokenText) = 0
  | .name n => by
    rw [Primary.tokens, List.flatMap_cons, List.flatMap_nil, List.append_nil]
    exact bracketDepth_name n
  | .empty base _ => by
    rw [Primary.tokens, List.flatMap_cons, bracketDepth_append, bracketDepth_name]
    rfl
  | .bracketed base bracket _ entries => by
    rw [Primary.tokens, List.flatMap_cons, List.flatMap_cons, List.flatMap_append, bracketDepth_append,
      bracketDepth_append, bracketDepth_append, bracketDepth_name, bracketDepth_entries entries]
    cases bracket <;> rfl

/-- Entries close the brackets that they open. -/
theorem bracketDepth_entries : (es : Entries) → bracketDepth (es.tokens.flatMap tokenText) = 0
  | .single a => bracketDepth_tokens a
  | .more a rest => by
    rw [Entries.tokens, List.flatMap_append, List.flatMap_cons, bracketDepth_append, bracketDepth_append,
      bracketDepth_tokens a, bracketDepth_entries rest]
    rfl

end

/-- Blanks between tokens open and close nothing. -/
theorem bracketDepth_of_spells {ts : List Token} (h : Spells cs ts) :
    bracketDepth cs = bracketDepth (ts.flatMap tokenText) := by
  induction h with
  | nil hb => rw [bracketDepth_blanks hb]; rfl
  | cons hb _ ih =>
    rw [List.flatMap_cons, bracketDepth_append, bracketDepth_append, bracketDepth_append, bracketDepth_blanks hb, ih,
      Int.zero_add]

end DocComment

end ClassSchema
