import ClassSchema.Proofs.TaggedType

/-!
# Where a type behind a tag is cut

Behind a tag a type ends at the first blank outside the brackets `<>` and `{}` that neither touches a `|` nor follows a `?`,
whether or not an annotation ends there. What is found is made of the first tokens of the annotation
(`exists_spells_typeFrom`), and of all of them only if there is no such blank (`joined_of_spells`). The first tokens of an
annotation may be an annotation too, but never one that stands for the same expression (`Alternation.tokens_eq_of_isPrefix`): an
expression determines how much its tokens weigh (`Alternation.weight_eq`), and every token weighs something. The main statement
is `annotations_tag_iff`.
-/

namespace ClassSchema

/-! ## The weight of an expression and of its tokens -/

namespace TypeExpr

mutual

/-- The number of tokens in the canonical spelling of an expression. -/
def weight : TypeExpr → Nat
  | ident _ => 1
  | generic _ arg => weight arg + 3
  | union members => weightAll members - 1
  | tuple elements => weightAll elements - 1 + 3

/-- The number of tokens in the canonical spellings of several expressions, with a mark after each. -/
def weightAll : List TypeExpr → Nat
  | [] => 0
  | t :: ts => weight t + 1 + weightAll ts

end

theorem weight_iterate_arrayOf (t : TypeExpr) (wraps : Nat) : (arrayOf^[wraps] t).weight = t.weight + 3 * wraps := by
  induction wraps with
  | zero => rfl
  | succ wraps ih =>
    rw [Function.iterate_succ_apply', arrayOf, weight, ih]
    omega

theorem weight_nullable (t : TypeExpr) : t.nullable.weight = t.weight + 2 := by
  simp only [nullable, weight, weightAll]
  omega

end TypeExpr

namespace Grammar

/-- How many tokens of the canonical spelling a token stands for: a `?` for the mark and the name in `|null`, and a suffix `[]`
for a name and two brackets. -/
def tokenWeight : Token → Nat
  | .word _ _ => 1
  | .mark c => if c = '?' ∨ c = ']' then 2 else 1

/-- The weight of several tokens. -/
def tokensWeight : List Token → Nat
  | [] => 0
  | t :: ts => tokenWeight t + tokensWeight ts

@[simp] theorem tokensWeight_nil : tokensWeight [] = 0 := rfl

@[simp] theorem tokensWeight_cons (t : Token) (ts : List Token) :
    tokensWeight (t :: ts) = tokenWeight t + tokensWeight ts := rfl

@[simp] theorem tokensWeight_append (ts us : List Token) :
    tokensWeight (ts ++ us) = tokensWeight ts + tokensWeight us := by
  induction ts with
  | nil => simp
  | cons t ts ih => rw [List.cons_append, tokensWeight_cons, ih, tokensWeight_cons, Nat.add_assoc]

theorem tokenWeight_pos (t : Token) : 0 < tokenWeight t := by
  cases t with
  | word _ _ => exact Nat.one_pos
  | mark c =>
    rw [tokenWeight]
    split <;> omega

theorem tokensWeight_suffixTokens (wraps : Nat) : tokensWeight (suffixTokens wraps) = 3 * wraps := by
  induction wraps with
  | zero => rfl
  | succ wraps ih =>
    rw [suffixTokens, tokensWeight_cons, tokensWeight_cons, ih]
    have hopen : tokenWeight (.mark '[') = 1 := rfl
    have hclose : tokenWeight (.mark ']') = 2 := rfl
    omega

theorem weight_ofMembers (ts : List TypeExpr) : (ofMembers ts).weight = TypeExpr.weightAll ts - 1 := by
  rcases ts with _ | ⟨t, _ | ⟨u, us⟩⟩
  · rfl
  · simp [ofMembers, TypeExpr.weightAll]
  · rfl

theorem weight_ofEntries {base : String} {bracket : Bracket} {ts : List TypeExpr} {t : TypeExpr}
    (h : ofEntries base bracket ts = some t) : t.weight = TypeExpr.weightAll ts - 1 + 3 := by
  cases bracket with
  | brace =>
    cases h
    rfl
  | angle =>
    rcases ts with _ | ⟨arg, _ | ⟨_, _⟩⟩
    · nomatch h
    · cases h
      simp [TypeExpr.weight, TypeExpr.weightAll]
    · nomatch h

mutual

/-- The tokens of an annotation weigh as much as its members with a mark between them. -/
theorem Alternation.weightAll_eq : (a : Alternation) → {ts : List TypeExpr} → a.members? = some ts →
    TypeExpr.weightAll ts = tokensWeight a.tokens + 1
  | .single m, ts, h => by
    obtain ⟨t, ht, rfl⟩ := Option.map_eq_some_iff.1 h
    rw [Alternation.tokens, TypeExpr.weightAll, TypeExpr.weightAll, m.weight_eq ht]
  | .alternative m rest, ts, h => by
    obtain ⟨t, ht, h⟩ := Option.bind_eq_some_iff.1 h
    obtain ⟨us, hus, rfl⟩ := Option.map_eq_some_iff.1 h
    have hbar : tokenWeight (.mark '|') = 1 := rfl
    rw [Alternation.tokens, TypeExpr.weightAll, m.weight_eq ht, rest.weightAll_eq hus, tokensWeight_append,
      tokensWeight_cons, hbar]
    omega

/-- The tokens of a member weigh as much as its expression. -/
theorem Member.weight_eq : (m : Member) → {t : TypeExpr} → m.expr? = some t → t.weight = tokensWeight m.tokens
  | .nullable inner, t, h => by
    rw [Member.expr?_nullable] at h
    obtain ⟨t, ht, rfl⟩ := Option.map_eq_some_iff.1 h
    have hquestion : tokenWeight (.mark '?') = 2 := rfl
    rw [Member.tokens, tokensWeight_cons, TypeExpr.weight_nullable, inner.weight_eq ht, hquestion]
    omega
  | .plain p wraps, t, h => by
    rw [Member.expr?_plain] at h
    obtain ⟨t, ht, rfl⟩ := Option.map_eq_some_iff.1 h
    rw [Member.tokens, tokensWeight_append, tokensWeight_suffixTokens, TypeExpr.weight_iterate_arrayOf, p.weight_eq ht]

/-- The tokens of a primary weigh as much as its expression. -/
theorem Primary.weight_eq : (p : Primary) → {t : TypeExpr} → p.expr? = some t → t.weight = tokensWeight p.tokens
  | .name n, t, h => by
    cases h
    rfl
  | .empty base _, t, h => by
    cases h
    rfl
  | .bracketed base bracket _ entries, t, h => by
    obtain ⟨ts, hts, ht⟩ := Option.bind_eq_some_iff.1 h
    have hbase : tokenWeight base.token = 1 := rfl
    have hopen : tokenWeight (.mark (opening bracket)) = 1 := by cases bracket <;> rfl
    have hclose : tokenWeight (.mark bracket.close) = 1 := by cases bracket <;> rfl
    rw [Primary.tokens, weight_ofEntries ht, entries.weightAll_eq hts]
    simp only [tokensWeight_cons, tokensWeight_append, tokensWeight_nil, hbase, hopen, hclose]
    omega

/-- The tokens of entries weigh as much as their expressions with a mark between them. -/
theorem Entries.weightAll_eq : (es : Entries) → {ts : List TypeExpr} → es.exprs? = some ts →
    TypeExpr.weightAll ts = tokensWeight es.tokens + 1
  | .single a, ts, h => by
    obtain ⟨us, hus, rfl⟩ := Option.map_eq_some_iff.1 h
    have ha := a.weightAll_eq hus
    rw [Entries.tokens, TypeExpr.weightAll, TypeExpr.weightAll, weight_ofMembers]
    omega
  | .more a rest, ts, h => by
    obtain ⟨us, hus, h⟩ := Option.bind_eq_some_iff.1 h
    obtain ⟨vs, hvs, rfl⟩ := Option.map_eq_some_iff.1 h
    have ha := a.weightAll_eq hus
    have hrest := rest.weightAll_eq hvs
    have hcomma : tokenWeight (.mark ',') = 1 := rfl
    rw [Entries.tokens, TypeExpr.weightAll, weight_ofMembers, tokensWeight_append, tokensWeight_cons, hcomma]
    omega

end

/-- The tokens of an annotation weigh as much as what it stands for. -/
theorem Alternation.weight_eq {a : Alternation} {t : TypeExpr} (h : a.expr? = some t) : t.weight = tokensWeight a.tokens := by
  obtain ⟨ts, hts, rfl⟩ := Option.map_eq_some_iff.1 h
  rw [weight_ofMembers, a.weightAll_eq hts, Nat.add_sub_cancel]

/-- The first tokens of an annotation stand for something else, unless they are all its tokens. -/
theorem Alternation.tokens_eq_of_isPrefix {a b : Alternation} {t : TypeExpr} (hfirst : a.tokens <+: b.tokens)
    (ha : a.expr? = some t) (hb : b.expr? = some t) : a.tokens = b.tokens := by
  obtain ⟨more, hmore⟩ := hfirst
  have hweight := (Alternation.weight_eq ha).symm.trans (Alternation.weight_eq hb)
  rw [← hmore, tokensWeight_append] at hweight
  cases more with
  | nil => rw [← hmore, List.append_nil]
  | cons t more =>
    have hpos := tokenWeight_pos t
    rw [tokensWeight_cons] at hweight
    omega

end Grammar

namespace DocComment

open Grammar

variable {cs before run rest core left right : List Char} {ts : List Token} {depth : Int} {last : Option Char}

/-! ## What the scanner keeps -/

/-- The scanner only leaves characters out. -/
theorem typeFrom_sublist (depth : Int) (last : Option Char) (cs : List Char) : (typeFrom depth last cs).Sublist cs := by
  induction cs generalizing depth last with
  | nil => exact .slnil
  | cons c cs ih =>
    rw [typeFrom]
    split
    · split
      · exact (ih depth last).cons c
      · exact List.nil_sublist _
    · exact (ih _ _).cons_cons c

/-- A run of blanks ends the type before it, if no `|` follows. -/
theorem stops_blanks (hrun : ∀ c ∈ run, isBlank c = true) (hne : run ≠ []) (hhead : ∀ c ∈ rest.head?, isBlank c = false)
    (hbar : rest.head? ≠ some '|') : Stops (run ++ rest) := by
  obtain ⟨b, bs, rfl⟩ := List.exists_cons_of_ne_nil hne
  refine Or.inr ⟨⟨b, rfl, hrun b List.mem_cons_self⟩, ?_⟩
  rwa [List.dropWhile_append_of_pos hrun, dropWhile_isBlank_eq_self hhead]

/-- From any text of tokens the scanner finds a text of the first of them. -/
theorem exists_spells_typeFrom (h : Spells cs ts) (hproper : ∀ t ∈ ts, Proper t) (depth : Int) (last : Option Char) :
    ∃ us, us <+: ts ∧ Spells (typeFrom depth last cs) us := by
  induction h generalizing depth last with
  | @nil blanks hb => exact ⟨[], List.prefix_rfl, .nil fun c hc => hb c ((typeFrom_sublist _ _ _).subset hc)⟩
  | @cons blanks cs t ts hb _ ih =>
    rw [List.forall_mem_cons] at hproper
    have htext := isBlank_of_mem_tokenText hproper.1
    have hne := tokenText_ne_nil t
    have hhead : ∀ c ∈ (tokenText t ++ cs).head?, isBlank c = false := by
      intro c hc
      rw [List.head?_append_of_ne_nil _ hne] at hc
      exact htext c (List.mem_of_mem_head? hc)
    rw [List.append_assoc]
    by_cases hjoin : blanks ≠ [] → depth ≤ 0 → last = some '|' ∨ last = some '?' ∨ (tokenText t ++ cs).head? = some '|'
    · obtain ⟨kept, last', hkept, hscan⟩ := exists_typeFrom_blanks hb hhead hjoin
      obtain ⟨us, hus, hspells⟩ := ih hproper.2 (depth + bracketDepth (tokenText t)) (tokenText t).getLast?
      refine ⟨t :: us, (List.prefix_cons_inj t).2 hus, ?_⟩
      rw [hscan, typeFrom_text hne htext, ← List.append_assoc]
      exact .cons hkept hspells
    · simp only [Classical.not_imp, not_or] at hjoin
      obtain ⟨hblanks, hdepth, hbar, hquestion, hnext⟩ := hjoin
      rw [typeFrom_stops (stops_blanks hb hblanks hhead hnext) hdepth hbar hquestion]
      exact ⟨[], List.nil_prefix, spells_nil⟩

/-- The number of characters of a text that are no blanks. -/
def solid (cs : List Char) : Nat := cs.countP (!isBlank ·)

theorem solid_append (cs ds : List Char) : solid (cs ++ ds) = solid cs + solid ds := List.countP_append

theorem solid_cons (c : Char) (cs : List Char) : solid (c :: cs) = solid [c] + solid cs := solid_append [c] cs

theorem solid_blanks (h : ∀ c ∈ cs, isBlank c = true) : solid cs = 0 := by
  rw [solid, List.countP_eq_zero]
  intro c hc
  simp [h c hc]

theorem solid_text (h : ∀ c ∈ cs, isBlank c = false) : solid cs = cs.length := by
  rw [solid, List.countP_eq_length]
  intro c hc
  simp [h c hc]

/-- A text of tokens has the characters of the tokens, and blanks. -/
theorem solid_of_spells (h : Spells cs ts) (hproper : ∀ t ∈ ts, Proper t) :
    solid cs = (ts.flatMap tokenText).length := by
  induction h with
  | nil hb => exact solid_blanks hb
  | cons hb _ ih =>
    rw [List.forall_mem_cons] at hproper
    rw [solid_append, solid_append, solid_blanks hb, solid_text (isBlank_of_mem_tokenText hproper.1), ih hproper.2, Nat.zero_add,
      List.flatMap_cons, List.length_append]

/-- What stands behind a text that ends the type outside the brackets is not kept. -/
theorem solid_typeFrom_le (hne : before ≠ []) (hlast : ∀ c ∈ before.getLast?, isBlank c = false)
    (hbar : before.getLast? ≠ some '|') (hquestion : before.getLast? ≠ some '?') (hrest : Stops rest)
    (hdepth : depth + bracketDepth before ≤ 0) (last : Option Char) :
    solid (typeFrom depth last (before ++ rest)) ≤ solid before := by
  -- The induction goes along the text up to its last character, behind which the scanner stops, if it comes that far.
  induction before generalizing depth last with
  | nil => exact absurd rfl hne
  | cons c cs ih =>
    rw [bracketDepth_cons, ← Int.add_assoc] at hdepth
    rw [List.cons_append, typeFrom]
    cases cs with
    | nil =>
      have hc : isBlank c = false := hlast c rfl
      have hdepth' : depth + bracketStep c ≤ 0 := by simpa [bracketDepth] using hdepth
      have hnone : typeFrom (depth + bracketStep c) (some c) rest = [] := typeFrom_stops hrest hdepth' hbar hquestion
      rw [if_neg (by simp [hc]), List.nil_append, hnone]
    | cons d ds =>
      rw [List.getLast?_cons_cons] at hlast hbar hquestion
      rw [solid_cons c (d :: ds)]
      split
      · rename_i hc
        rw [bracketStep_of_isBlank hc.1, Int.add_zero] at hdepth
        split
        · have hle := ih (by simp) hlast hbar hquestion hdepth last
          omega
        · exact Nat.zero_le _
      · have hle := ih (by simp) hlast hbar hquestion hdepth (some c)
        rw [solid_cons]
        omega

/-- If the scanner finds all the tokens of a text, then the text is joined. -/
theorem joined_of_spells (h : Spells core ts) (hproper : ∀ t ∈ ts, Proper t) (hfound : Spells (typeFrom 0 none core) ts) :
    Joined core := by
  rintro before run after rfl hbefore hrun hafter hblank hlast hhead hdepth
  by_contra hjoin
  simp only [not_or] at hjoin
  obtain ⟨hbar, hquestion, hnext⟩ := hjoin
  have hle : solid (typeFrom 0 none (before ++ (run ++ after))) ≤ solid before :=
    solid_typeFrom_le hbefore hlast hbar hquestion (stops_blanks hblank hrun hhead hnext) (by rwa [Int.zero_add]) none
  have hkept : solid (typeFrom 0 none (before ++ (run ++ after))) = solid (before ++ (run ++ after)) := by
    rw [← List.append_assoc, solid_of_spells hfound hproper, solid_of_spells h hproper]
  obtain ⟨c, cs, rfl⟩ := List.exists_cons_of_ne_nil hafter
  have hc : solid [c] = 1 := solid_text (List.forall_mem_singleton.2 (hhead c rfl))
  rw [hkept, solid_append, solid_append, solid_cons, hc] at hle
  omega

/-- Blanks at the ends of a text do not matter to whether it is joined. -/
theorem joined_append_blanks (hleft : ∀ c ∈ left, isBlank c = true) (hright : ∀ c ∈ right, isBlank c = true)
    (h : Joined core) : Joined (left ++ core ++ right) := by
  intro before run after heq hbefore hrun hafter hblank hlast hhead hdepth
  rw [List.append_assoc, List.append_assoc] at heq
  -- The text before the run ends with no blank, so it goes beyond the blanks at the start.
  obtain ⟨inside, rfl, hinside, heq⟩ : ∃ inside, before = left ++ inside ∧ inside ≠ [] ∧
      core ++ right = inside ++ (run ++ after) := by
    have hsolid := hlast _ (List.getLast?_eq_some_getLast hbefore)
    have hmem := List.getLast_mem hbefore
    rcases List.append_eq_append_iff.1 heq with ⟨inside, rfl, htail⟩ | ⟨more, rfl, -⟩
    · refine ⟨inside, rfl, ?_, htail⟩
      rintro rfl
      rw [hleft _ (by simp)] at hsolid
      nomatch hsolid
    · rw [hleft _ (List.mem_append_left more hmem)] at hsolid
      nomatch hsolid
  -- The text after the run begins with no blank, so it begins before the blanks at the end.
  obtain ⟨rest, rfl, hrest, heq⟩ : ∃ rest, after = rest ++ right ∧ rest ≠ [] ∧ core = inside ++ run ++ rest := by
    have hsolid := hhead _ (List.head?_eq_some_head hafter)
    have hmem := List.head_mem hafter
    rw [← List.append_assoc] at heq
    rcases List.append_eq_append_iff.1 heq with ⟨more, -, rfl⟩ | ⟨rest, hcore, rfl⟩
    · rw [hright _ (List.mem_append_right more hmem)] at hsolid
      nomatch hsolid
    · refine ⟨rest, rfl, ?_, hcore⟩
      rintro rfl
      rw [hright _ (by simp)] at hsolid
      nomatch hsolid
  rw [List.getLast?_append_of_ne_nil _ hinside] at hlast ⊢
  rw [List.head?_append_of_ne_nil _ hrest] at hhead ⊢
  rw [bracketDepth_append, bracketDepth_blanks hleft, Int.zero_add] at hdepth
  exact h inside run rest heq hinside hrun hrest hblank hlast hhead hdepth

/-! ## The type that is found -/

/-- Exactly when a type is read behind a tag as it is by itself. Behind a tag, a text that is read and holds no end of a line
makes one type to be found; it is read as the text by itself is exactly if every run of blanks that stands outside the brackets
`<>` and `{}`, and not at an end of the text, touches a `|` or follows a `?`. -/
theorem annotations_tag_iff_joined (text : String) (t : TypeExpr) (hlines : ∀ c ∈ text.toList, isLineEnd c = false)
    (hparse : TypeExpr.parse text = .ok t) :
    ∃ found, annotations ("@var " ++ text) = [found] ∧ (TypeExpr.parse found = .ok t ↔ Joined text.toList) := by
  obtain ⟨a, hwrites, ht, -⟩ := exists_writes_of_parse hparse
  obtain ⟨left, core, right, htext, hleft, hright, hcore, hne, hhead, -, hleading⟩ := exists_leadingType_eq hwrites []
  have hnothing : trimTail (right ++ []) = [] := by
    rw [List.append_nil, trimTail, trimEnd_blanks hright]
    rfl
  have hkept := typeFrom_ne_nil hne hhead 0 none []
  rw [hnothing, List.append_nil, List.append_nil] at hleading
  rw [List.append_nil] at hkept
  have hbodies : bodies ("@var " ++ text).toList = [text.toList.dropWhile isGap] := by
    rw [String.toList_append]
    exact bodies_tag hlines
  have hannotations : annotations ("@var " ++ text) = [.ofList (typeFrom 0 none core)] := by
    rw [annotations, hbodies]
    simp [hleading, hkept]
  refine ⟨.ofList (typeFrom 0 none core), hannotations, ?_⟩
  constructor
  · -- What is found has the first tokens of the text; standing for the same expression, it has all of them.
    intro hfound
    obtain ⟨b, hb, hbt, -⟩ := exists_writes_of_parse hfound
    rw [Alternation.Writes, String.toList_ofList] at hb
    obtain ⟨us, hfirst, hspells⟩ := exists_spells_typeFrom hcore a.legible.proper 0 none
    have htokens : us = b.tokens := by
      rw [← scan_of_spells hb b.legible 0, scan_of_spells hspells (a.legible.of_isPrefix hfirst) 0]
    rw [htokens] at hfirst
    rw [Alternation.tokens_eq_of_isPrefix hfirst hbt ht] at hb
    rw [htext]
    exact joined_append_blanks hleft hright (joined_of_spells hcore a.legible.proper hb)
  · intro hjoined
    have huntagged : Untagged "".toList := by decide
    have hfollow : Follows "".toList := Or.inl rfl
    obtain ⟨found, hfound, hread⟩ := annotations_append_tag huntagged (by simpa using hlines) hjoined hfollow hparse
    rw [String.append_empty, String.empty_append, hannotations] at hfound
    rwa [List.singleton_inj.1 hfound]

theorem annotations_tag_iff_joined_lists :
    (∃ found, annotations ("@var " ++ "array<int> | null") = [found] ∧
      TypeExpr.parse found = .ok (.union [.generic "array" (.ident "int"), .ident "null"])) ∧
    ∃ found, annotations ("@var " ++ "array <int>") = [found] ∧
      TypeExpr.parse found ≠ .ok (.generic "array" (.ident "int")) := by
  have hjoined : Joined "array<int> | null".toList := by decide +kernel
  have hcut : ¬Joined "array <int>".toList := by decide +kernel
  obtain ⟨found, hfound, hiff⟩ := annotations_tag_iff_joined "array<int> | null"
    (.union [.generic "array" (.ident "int"), .ident "null"]) (by decide) (by decide +kernel)
  obtain ⟨found', hfound', hiff'⟩ := annotations_tag_iff_joined "array <int>" (.generic "array" (.ident "int"))
    (by decide) (by decide +kernel)
  exact ⟨⟨found, hfound, hiff.2 hjoined⟩, ⟨found', hfound', fun h => hcut (hiff'.1 h)⟩⟩

/-- Not every type is read behind a tag as it is by itself: a blank before a bracket cuts off the argument of a generic. -/
theorem annotations_cut_before_bracket :
    (∀ c ∈ "array <int>".toList, isLineEnd c = false) ∧
      TypeExpr.parse "array <int>" = .ok (.generic "array" (.ident "int")) ∧
      ¬∃ found, annotations ("@var " ++ "array <int>") = [found] ∧
        TypeExpr.parse found = .ok (.generic "array" (.ident "int")) := by
  have hfound : annotations ("@var " ++ "array <int>") = ["array"] := by decide +kernel
  have hread : TypeExpr.parse "array" = .ok (.ident "array") := by decide +kernel
  refine ⟨by decide, by decide +kernel, ?_⟩
  rintro ⟨found, hannotations, hparse⟩
  rw [hfound, List.singleton_inj] at hannotations
  rw [← hannotations, hread] at hparse
  nomatch hparse

end DocComment

end ClassSchema
