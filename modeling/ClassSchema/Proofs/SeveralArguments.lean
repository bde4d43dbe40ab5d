import ClassSchema.Proofs.ClosedGenerics
import ClassSchema.Proofs.FaultPosition
import ClassSchema.Proofs.FirstDefect
import ClassSchema.Proofs.TypeScan

/-!
# Generics with several arguments

An annotation with such a generic is refused, with the name and the number of arguments of the one that closes first in the text,
and so is the property that it stands at (`TypeExpr.parse_several`). The text is refused at the closing mark, and what stands
behind the mark is not read: what the refusal says of a text is that up to the mark it is the beginning of such an annotation
(`TypeExpr.parse_unsupported_iff`), and the text as a whole may be none (`TypeExpr.parse_unsupported_openUnion`).
-/

namespace ClassSchema

namespace Grammar

variable {limit : Nat} {frames : List Frame} {members : List TypeExpr} {e : TypeExpr} {cs u v : List Char} {ts us vs : List Token}
  {gs : List Generic} {g h : Generic} {a : Alternation} {text : String} {p : Place} {t : Located} {base : String} {count : Nat}

/-! ## Marks in a text -/

/-- A text of tokens with a mark among them is cut at the mark. -/
theorem Spells.split_mark {mark : Char} (h : Spells cs (ts ++ .mark mark :: us)) :
    ∃ u v, cs = u ++ mark :: v ∧ Spells u ts ∧ Spells v us := by
  induction ts generalizing cs with
  | nil =>
    cases h with
    | @cons blanks rest _ _ hb hrest =>
      exact ⟨blanks, rest, by rw [tokenText, List.append_assoc, List.singleton_append], .nil hb, hrest⟩
  | cons t ts ih =>
    cases h with
    | @cons blanks rest _ _ hb hrest =>
      obtain ⟨u, v, rfl, hu, hv⟩ := ih hrest
      exact ⟨blanks ++ tokenText t ++ u, v, (List.append_assoc ..).symm, .cons hb hu, hv⟩

/-- A character that is no blank stands in a text as often as in its tokens. -/
theorem Spells.count_eq {c : Char} (hc : isBlank c = false) (h : Spells cs ts) :
    cs.count c = (ts.flatMap tokenText).count c := by
  have hnone {blanks : List Char} (hb : ∀ d ∈ blanks, isBlank d = true) : blanks.count c = 0 := by
    refine List.count_eq_zero.2 fun hmem => ?_
    rw [hb c hmem] at hc
    nomatch hc
  induction h with
  | nil hb => exact hnone hb
  | cons hb _ ih =>
    rw [List.flatMap_cons, List.count_append, List.count_append, List.count_append, hnone hb, ih, Nat.zero_add]

/-- Of two beginnings of a text that a character follows, the one with fewer of this character is the shorter. -/
theorem length_lt_of_count_lt {c : Char} {rest rest' : List Char} (h : u ++ c :: rest = v ++ c :: rest')
    (hcount : u.count c < v.count c) : u.length < v.length := by
  by_contra hle
  have hbegins : v <+: u := List.prefix_of_prefix_length_le ⟨c :: rest', h.symm⟩ ⟨c :: rest, rfl⟩ (Nat.le_of_not_lt hle)
  exact absurd (hbegins.sublist.count_le c) (Nat.not_le_of_lt hcount)

/-! ## Where a generic closes in a text -/

/-- A generic closes in a text after its first characters: they are written with the tokens before the closing mark. -/
def Generic.ClosesAt (g : Generic) (text : String) (u : List Char) : Prop :=
  ∃ v, text.toList = u ++ '>' :: v ∧ Spells u g.before

/-- A generic that closes before the closing mark of another closes earlier in the text. -/
theorem Generic.ClosesIn.length_lt (hgh : g.ClosesIn h.before) (hu : g.ClosesAt text u) (hv : h.ClosesAt text v) :
    u.length < v.length := by
  obtain ⟨rest, htext, hu⟩ := hu
  obtain ⟨rest', htext', hv⟩ := hv
  obtain ⟨between, hbetween⟩ := hgh
  refine length_lt_of_count_lt (htext.symm.trans htext') ?_
  rw [hu.count_eq (by decide), hv.count_eq (by decide), ← hbetween, List.append_assoc, List.singleton_append, List.flatMap_append,
    List.flatMap_cons, List.count_append, List.count_append]
  exact Nat.lt_add_of_pos_right (Nat.add_pos_left (by decide) _)

/-- A generic of an annotation closes in every text that writes the annotation. -/
theorem Alternation.exists_closesAt (hwrites : a.Writes text) (hg : g ∈ a.generics) : ∃ u, g.ClosesAt text u := by
  obtain ⟨rest, hrest⟩ := a.closesIn g hg
  rw [List.append_assoc, List.singleton_append] at hrest
  rw [Alternation.Writes, ← hrest] at hwrites
  obtain ⟨u, v, htext, hu, -⟩ := hwrites.split_mark
  exact ⟨u, v, htext, hu⟩

/-- Of the generics of an annotation with several arguments, the one whose closing mark comes first in a text, and the text before
the mark. -/
structure Alternation.FirstSeveral (a : Alternation) (text : String) (u : List Char) (g : Generic) : Prop where
  mem : g ∈ a.generics
  several : 2 ≤ g.count
  closes : g.ClosesAt text u
  first : ∀ h ∈ a.generics, 2 ≤ h.count → h ≠ g → ∀ v, h.ClosesAt text v → u.length < v.length

/-- Of generics in order, the first that has several arguments closes before the others. -/
theorem InOrder.eq_or_closesIn (horder : InOrder gs) (hg : gs.find? Generic.hasSeveral = some g) (hh : h ∈ gs)
    (hseveral : 2 ≤ h.count) : h = g ∨ g.ClosesIn h.before := by
  obtain ⟨-, before, after, rfl, hbefore⟩ := List.find?_eq_some_iff_append.1 hg
  rcases List.mem_append.1 hh with hmem | hmem
  · have := hbefore h hmem
    simp [Generic.hasSeveral_iff.2 hseveral] at this
  rcases List.mem_cons.1 hmem with rfl | hmem
  · exact Or.inl rfl
  · obtain ⟨-, hlater, -⟩ := List.pairwise_append.1 horder
    exact Or.inr ((List.pairwise_cons.1 hlater).1 h hmem)

/-- The first in the text is the first in the list. -/
theorem Alternation.firstSeveral_iff (hwrites : a.Writes text) :
    a.FirstSeveral text u g ↔ a.generics.find? Generic.hasSeveral = some g ∧ g.ClosesAt text u := by
  constructor
  · intro h
    obtain ⟨first, hfirst⟩ : ∃ first, a.generics.find? Generic.hasSeveral = some first :=
      Option.isSome_iff_exists.1 (List.find?_isSome.2 ⟨g, h.mem, Generic.hasSeveral_iff.2 h.several⟩)
    refine ⟨?_, h.closes⟩
    rcases a.inOrder.eq_or_closesIn hfirst h.mem h.several with rfl | hcloses
    · exact hfirst
    · have hmem := List.mem_of_find?_eq_some hfirst
      have hseveral : 2 ≤ first.count := Generic.hasSeveral_iff.1 (List.find?_some hfirst)
      obtain ⟨v, hv⟩ := Alternation.exists_closesAt hwrites hmem
      have hlt : v.length < u.length := hcloses.length_lt hv h.closes
      by_cases hne : first = g
      · rw [← hne]
        exact hfirst
      · exact absurd hlt (Nat.lt_asymm (h.first first hmem hseveral hne v hv))
  · rintro ⟨hg, hu⟩
    refine ⟨List.mem_of_find?_eq_some hg, Generic.hasSeveral_iff.1 (List.find?_some hg), hu, fun h hh hseveral hne v hv => ?_⟩
    rcases a.inOrder.eq_or_closesIn hg hh hseveral with rfl | hcloses
    · exact absurd rfl hne
    · exact hcloses.length_lt hu hv

/-! ## The refusal -/

/-- The machine stops at the first generic with several arguments. -/
theorem Alternation.stopsAt (hcost : a.cost ≤ limit) (hg : a.generics.find? Generic.hasSeveral = some g) :
    StopsAt limit .initial g := by
  have hmeets := Alternation.meets_initial hcost
  unfold Meets at hmeets
  rwa [hg] at hmeets

/-- A text that begins like one that writes an annotation, up to the closing mark of its first generic with several arguments, is
refused for this generic. -/
theorem Alternation.FirstSeveral.parse_eq (h : a.FirstSeveral text u g) (hwrites : a.Writes text) (hcost : a.cost ≤ maxNesting)
    {other : String} (hother : other.toList = u ++ '>' :: v) :
    TypeExpr.parse other = .error ⟨other, .tooManyArguments g.base.text g.count⟩ := by
  obtain ⟨hg, -, -, hu⟩ := (Alternation.firstSeveral_iff hwrites).1 h
  have hcloses : g.before ++ [.mark '>'] <+: a.tokens := a.closesIn g h.mem
  have hlegible : Legible g.before := a.legible.of_isPrefix ((List.prefix_append _ _).trans hcloses)
  have hscan : Token.scan 0 other.toList =
      Token.scan 0 u ++ ⟨0 + utf8Length u, .mark '>'⟩ :: Token.scan (0 + utf8Length u + ('>' : Char).utf8Size) v := by
    rw [hother, scan_append_cons (by decide), scan_mark_cons (by decide) (by decide)]
  refine parse_eq_error_iff.2 ⟨rfl, ?_⟩
  obtain ⟨q, hrun, hstop⟩ := Alternation.stopsAt hcost hg
  rw [hscan]
  exact ofTokens_of_stop (hrun _ (scan_of_spells hu hlegible 0)) (hstop _ rfl) _

/-! ## What a refusal says of the tokens before it -/

/-- A bracket that may close with its last entry belongs to an annotation that is not too deep. -/
theorem Opened.exists_closed (h : Opened limit frames members ts) {name : Name} {bracket : Bracket} {done last : List TypeExpr}
    (hd : frames.length < limit) (hopens : name.Opens bracket)
    (hdone : Pending ',' (WritesEntry limit (frames.length + 1)) done us)
    (hlast : WritesUnion limit (frames.length + 1) last vs) :
    ∃ (ws : List Token) (a : Alternation), a.cost ≤ limit ∧
      a.tokens = ts ++ name.token :: .mark (opening bracket) :: (us ++ vs) ++ .mark bracket.close :: ws := by
  obtain ⟨entries, htokens, hvalue⟩ := hdone.entries ⟨last, rfl, hlast⟩
  obtain ⟨ws, a, ha, hcost⟩ := h.exists_alternation (.plain (.bracketed name bracket hopens entries) 0)
  have hinside := (inside_le_iff limit frames.length entries.one_le_cost).2 ⟨hd, (entries.value_eq_ok_iff.1 hvalue).2⟩
  refine ⟨ws, a, hcost (add_max_le_iff.2 ⟨Nat.succ_le_of_lt hd, hinside⟩), ?_⟩
  rw [ha, Member.tokens, Primary.tokens, htokens, suffixTokens]
  simp only [List.append_assoc, List.cons_append, List.nil_append]

/-- Only a generic is refused for the number of its entries. -/
theorem eq_angle_of_closeEntries {bracket : Bracket} {es : List TypeExpr} {fault : Fault}
    (h : closeEntries base bracket es = .error fault) : bracket = .angle := by
  cases bracket with
  | angle => rfl
  | brace => nomatch h

/-- After a member, a token is refused for the arguments of a generic only if it closes the generic. -/
theorem Opened.exists_refused (h : Opened limit frames members ts) (he : WritesMember limit frames.length e us)
    (hstep : endMember members t frames e = .error (.tooManyArguments base count)) :
    t.token = .mark '>' ∧ ∃ (ws : List Token) (a : Alternation), a.cost ≤ limit ∧ a.tokens = ts ++ us ++ .mark '>' :: ws := by
  induction h generalizing e us with
  | outside hmembers =>
    unfold endMember at hstep
    by_cases hbar : t.token = .mark '|'
    · rw [if_pos hbar] at hstep
      cases hstep
    · rw [if_neg hbar] at hstep
      cases hstep
  | nullable hd h ih =>
    have := ih (he.nullable hd) hstep
    simpa only [List.append_assoc, List.cons_append, List.nil_append] using this
  | @entries frames name bracket done outer members ts us' vs hd hopens h hdone hmembers ih =>
    unfold endMember at hstep
    by_cases hbar : t.token = .mark '|'
    · rw [if_pos hbar] at hstep
      cases hstep
    rw [if_neg hbar] at hstep
    by_cases hcomma : t.token = .mark ','
    · rw [if_pos hcomma] at hstep
      cases hstep
    rw [if_neg hcomma] at hstep
    by_cases hclose : t.token = .mark bracket.close
    · rw [if_pos hclose] at hstep
      cases hr : closeEntries name.text bracket (done ++ [unionOf members e]) with
      | ok r =>
        rw [hr] at hstep
        cases hstep
      | error fault =>
        obtain rfl : bracket = .angle := eq_angle_of_closeEntries hr
        obtain ⟨ws, a, hcost, ha⟩ := h.exists_closed hd hopens hdone (hmembers.union he)
        refine ⟨hclose, ws, a, hcost, ?_⟩
        rw [ha]
        simp only [List.append_assoc, List.cons_append, Bracket.close]
    · rw [if_neg hclose] at hstep
      cases hstep

/-- The same after a primary and its suffixes. -/
theorem Opened.exists_refused_afterExpr (h : Opened limit frames members ts) {q : Primary} {wraps : Nat}
    (he : (Member.plain q wraps).value limit frames.length = .ok e)
    (hstep : afterExpr frames members e wraps t = .error (.tooManyArguments base count)) :
    t.token = .mark '>' ∧ ∃ (ws : List Token) (a : Alternation), a.cost ≤ limit ∧
      a.tokens = ts ++ (Member.plain q wraps).tokens ++ .mark '>' :: ws := by
  unfold afterExpr at hstep
  by_cases hsquare : t.token = .mark '['
  · rw [if_pos hsquare] at hstep
    nomatch hstep
  · rw [if_neg hsquare] at hstep
    exact h.exists_refused ⟨_, rfl, he⟩ hstep

/-- A token is refused for the arguments of a generic only if it closes the generic, and the tokens through it begin an annotation
that is not too deep. -/
theorem ReadTo.exists_refused (h : ReadTo limit p ts) (hstep : p.step limit t = .error (.tooManyArguments base count)) :
    t.token = .mark '>' ∧ ∃ (ws : List Token) (a : Alternation), a.cost ≤ limit ∧ a.tokens = ts ++ .mark '>' :: ws := by
  cases h with
  | start h => exact absurd hstep (beginMember_ne_tooManyArguments _ _ _ _ _)
  | @opened frames members ts name bracket h hd hopens =>
    simp only [Place.step] at hstep
    by_cases hclose : t.token = .mark bracket.close
    · rw [if_pos hclose] at hstep
      cases bracket <;> nomatch hstep
    · rw [if_neg hclose] at hstep
      exact absurd hstep (beginMember_ne_tooManyArguments _ _ _ _ _)
  | @named frames members ts n h hd =>
    simp only [Place.step] at hstep
    by_cases hangle : t.token = .mark '<'
    · rw [if_pos hangle] at hstep
      nomatch hstep
    rw [if_neg hangle] at hstep
    by_cases hbrace : t.token = .mark '{'
    · rw [if_pos hbrace] at hstep
      by_cases harray : TypeExpr.isArrayName n.text = true
      · rw [if_pos harray] at hstep
        nomatch hstep
      · rw [if_neg harray] at hstep
        nomatch hstep
    · rw [if_neg hbrace] at hstep
      exact h.exists_refused_afterExpr (value_name n hd) hstep
  | suffixed h he => exact h.exists_refused_afterExpr he hstep
  | square h he =>
    simp only [Place.step] at hstep
    by_cases hclose : t.token = .mark ']'
    · rw [if_pos hclose] at hstep
      split at hstep <;> nomatch hstep
    · rw [if_neg hclose] at hstep
      nomatch hstep

/-- An annotation whose tokens are refused for the arguments of a generic at one of them has the generic, closing there, as its
first with several arguments. -/
theorem Alternation.exists_find?_of_stop (hcost : a.cost ≤ limit) {before : List Located}
    (hrun : before.foldlM (Place.step limit) .initial = .ok p) (hstep : p.step limit t = .error (.tooManyArguments base count))
    (htokens : a.tokens = before.map (·.token) ++ t.token :: us) :
    ∃ g, a.generics.find? Generic.hasSeveral = some g ∧ g.before = before.map (·.token) ∧ g.base.text = base ∧ g.count = count := by
  have hlts : (before ++ t :: us.map (⟨0, ·⟩)).map (·.token) = a.tokens := by
    rw [htokens, List.map_append, List.map_cons, List.map_map]
    simp [Function.comp_def]
  have hmeets := Alternation.meets_initial hcost
  unfold Meets at hmeets
  cases hg : a.generics.find? Generic.hasSeveral with
  | none =>
    rw [hg] at hmeets
    obtain ⟨q, -, hall⟩ := hmeets
    nomatch (foldlM_of_stop hrun hstep _).symm.trans (hall _ hlts)
  | some g =>
    rw [hg] at hmeets
    obtain ⟨q, hbefore, hstop⟩ := hmeets
    obtain ⟨rest, hrest⟩ := a.closesIn g (List.mem_of_find?_eq_some hg)
    rw [List.append_assoc, List.singleton_append] at hrest
    obtain ⟨before', others, hsplit, hbefore', hothers⟩ := List.map_eq_append_iff.1 (hlts.trans hrest.symm)
    obtain ⟨t', after', rfl, ht', -⟩ := List.map_eq_cons_iff.1 hothers
    obtain ⟨rfl, hfault⟩ := stop_unique hsplit hrun hstep (hbefore before' hbefore') (hstop t' ht')
    cases hfault
    exact ⟨g, rfl, hbefore'.symm, rfl, rfl⟩

/-- A text that is refused for the arguments of a generic begins like one that writes an annotation, not too deep, in which this
generic is the first with several arguments, up to its closing mark. -/
theorem exists_firstSeveral (h : TypeExpr.parse text = .error ⟨text, .tooManyArguments base count⟩) :
    ∃ (u v w : List Char) (a : Alternation) (g : Generic), text.toList = u ++ '>' :: v ∧
      a.Writes (.ofList (u ++ '>' :: w)) ∧ a.cost ≤ maxNesting ∧ a.FirstSeveral (.ofList (u ++ '>' :: w)) u g ∧
      g.base.text = base ∧ g.count = count := by
  obtain ⟨-, h⟩ := parse_eq_error_iff.1 h
  obtain ⟨before, t, after, p, hscan, hrun, hstep⟩ :=
    (firstFault_of_ofTokens h).exists_step (by simp) (by simp) (by simp)
  obtain ⟨u, v, hstands⟩ := stands_of_scan hscan
  have hbefore : Token.scan 0 u = before := hstands.scan_eq
  have hread : ReadTo maxNesting p (before.map (·.token)) := hbefore ▸ readTo_scan (hbefore ▸ hrun)
  obtain ⟨ht, us, a, hcost, ha⟩ := hread.exists_refused hstep
  obtain ⟨g, hg, hgbefore, hbase, hcount⟩ := Alternation.exists_find?_of_stop hcost hrun hstep (by rw [ha, ht])
  have hu : Spells u g.before := by
    rw [hgbefore, ← hbefore]
    exact spells_scan 0 u
  have hwrites : a.Writes (.ofList (u ++ '>' :: us.flatMap fun t => ' ' :: tokenText t)) := by
    rw [Alternation.Writes, String.toList_ofList, ha, ← hgbefore]
    exact hu.append_mark '>' (spells_flatMap us)
  refine ⟨u, v, _, a, g, ?_, hwrites, hcost, (Alternation.firstSeveral_iff hwrites).2 ⟨hg, ?_⟩, hbase, hcount⟩
  · rw [hstands.text, ht]
    rfl
  · exact ⟨_, String.toList_ofList, hu⟩

end Grammar

open Grammar

/-- An annotation with a generic that has several arguments is refused, if it is not too deep, whatever else is in it: the
refusal gives the name and the number of arguments of the generic whose closing mark comes first in the text. Where an expansion
comes to a property with this text as its only annotation, it ends there, with the text as it is written. -/
theorem TypeExpr.parse_several {a : Alternation} {text : String} (hwrites : a.Writes text) (hcost : a.cost ≤ maxNesting)
    (hseveral : ∃ g ∈ a.generics, 2 ≤ g.count) :
    ∃ u g, a.FirstSeveral text u g ∧ TypeExpr.parse text = .error ⟨text, .tooManyArguments g.base.text g.count⟩ ∧
      ∀ (m : Model) (options : ExpansionOptions) (root : String) (address : List Nat) (path : PropertyPath)
        (active : List String) (p : Property), m.Reaches options root address ⟨path, active, .property p⟩ →
          p.annotations = [text] → (m.generate options root).result =
            .error ⟨path, .unsupported text (.arity ⟨text, .tooManyArguments g.base.text g.count⟩)⟩ := by
  obtain ⟨g, hg⟩ : ∃ g, a.generics.find? Generic.hasSeveral = some g := by
    obtain ⟨g, hg, hcount⟩ := hseveral
    exact Option.isSome_iff_exists.1 (List.find?_isSome.2 ⟨g, hg, Generic.hasSeveral_iff.2 hcount⟩)
  obtain ⟨u, hu⟩ := Alternation.exists_closesAt hwrites (List.mem_of_find?_eq_some hg)
  have hfirst : a.FirstSeveral text u g := (Alternation.firstSeveral_iff hwrites).2 ⟨hg, hu⟩
  obtain ⟨v, htext, -⟩ := hu
  have hparse := hfirst.parse_eq hwrites hcost htext
  refine ⟨u, g, hfirst, hparse, ?_⟩
  intro m options root address path active p hreaches hp
  exact hreaches.generate_of_firstDefect (Model.firstDefect_self (.arity hp hparse rfl))

/-- A name of one letter. -/
def Grammar.letter (c : Char) (h : isWordStart c = true) : Name := { letterName with head := c, head_start := h }

/-- A generic with one argument, and one with two arguments of which the second is such a one: `O<x>|M<k,L<a,b>[]>`. -/
def Grammar.nestedMaps : Alternation :=
  .alternative
    (.plain (.bracketed (letter 'O' rfl) .angle (fun h => nomatch h) (.single (.single (.plain (.name (letter 'x' rfl)) 0)))) 0)
    (.single (.plain (.bracketed (letter 'M' rfl) .angle (fun h => nomatch h)
      (.more (.single (.plain (.name (letter 'k' rfl)) 0))
        (.single (.single (.plain (.bracketed (letter 'L' rfl) .angle (fun h => nomatch h)
          (.more (.single (.plain (.name (letter 'a' rfl)) 0))
            (.single (.single (.plain (.name (letter 'b' rfl)) 0))))) 1))))) 0))

/-- A model with such a property. -/
def Model.shelves : Model :=
  ⟨⟨[⟨"Shelf", [⟨"books", ["O<x> | M<k, L<a ,b>[]>"]⟩]⟩], by decide, by decide⟩, ⟨[], List.nodup_nil⟩⟩

theorem TypeExpr.parse_several_nestedMaps :
    nestedMaps.Writes "O<x> | M<k, L<a ,b>[]>" ∧ nestedMaps.cost ≤ maxNesting ∧ (∃ g ∈ nestedMaps.generics, 2 ≤ g.count) ∧
      ∃ u g, nestedMaps.FirstSeveral "O<x> | M<k, L<a ,b>[]>" u g ∧ g.base.text = "L" ∧ g.count = 2 ∧
        (Model.shelves.generate {} "Shelf").result = .error ⟨.property (.root "Shelf") "books",
          .unsupported "O<x> | M<k, L<a ,b>[]>" (.arity ⟨"O<x> | M<k, L<a ,b>[]>", .tooManyArguments "L" 2⟩)⟩ := by
  have hwrites : nestedMaps.Writes "O<x> | M<k, L<a ,b>[]>" := (nestedMaps.writes_iff_scan _ 0).2 (by decide +kernel)
  have hcost : nestedMaps.cost ≤ maxNesting := by decide
  have hseveral : ∃ g ∈ nestedMaps.generics, 2 ≤ g.count := ⟨_, List.mem_cons_of_mem _ List.mem_cons_self, by decide⟩
  have hrefused : TypeExpr.parse "O<x> | M<k, L<a ,b>[]>" = .error ⟨"O<x> | M<k, L<a ,b>[]>", .tooManyArguments "L" 2⟩ := by
    decide +kernel
  obtain ⟨u, g, hfirst, hparse, hgenerate⟩ := TypeExpr.parse_several hwrites hcost hseveral
  obtain ⟨hbase, hcount⟩ : "L" = g.base.text ∧ 2 = g.count := by
    simpa using hrefused.symm.trans hparse
  have hresult := hgenerate Model.shelves {} "Shelf" [0] _ _ _ (Model.reaches_firstProperty rfl rfl) rfl
  rw [← hbase, ← hcount] at hresult
  exact ⟨hwrites, hcost, hseveral, u, g, hfirst, hbase.symm, hcount.symm, hresult⟩

/-- A fault is classified as an unsupported type exactly if the reader refused the text for what it says. -/
theorem SchemaFault.exists_ofSyntaxError_iff (text : String) (e : SyntaxError) :
    (∃ reason, SchemaFault.ofSyntaxError text e = .unsupported text reason) ↔ e.isUnsupported = true := by
  unfold SchemaFault.ofSyntaxError
  cases e.isUnsupported with
  | true => simp
  | false => simp

/-- A text is refused as unsupported exactly if, up to some closing mark, it begins like a text that writes an annotation which is
not too deep, and the mark closes the first generic with several arguments there. Of what comes after the mark nothing is said.
These refusals, and no others, are unsupported types for a property. -/
theorem TypeExpr.parse_unsupported_iff (text : String) (e : SyntaxError) :
    (TypeExpr.parse text = .error e ∧ e.isUnsupported = true ↔
      ∃ (u v w : List Char) (a : Alternation) (g : Generic), text.toList = u ++ '>' :: v ∧
        a.Writes (.ofList (u ++ '>' :: w)) ∧ a.cost ≤ maxNesting ∧ a.FirstSeveral (.ofList (u ++ '>' :: w)) u g ∧
        e = ⟨text, .tooManyArguments g.base.text g.count⟩) ∧
    ((∃ reason, SchemaFault.ofSyntaxError text e = .unsupported text reason) ↔ e.isUnsupported = true) := by
  refine ⟨⟨?_, ?_⟩, SchemaFault.exists_ofSyntaxError_iff text e⟩
  · rintro ⟨hparse, hunsupported⟩
    obtain ⟨input, fault⟩ := e
    cases fault with
    | tooManyArguments base count =>
      obtain ⟨rfl, -⟩ := parse_eq_error_iff.1 hparse
      obtain ⟨u, v, w, a, g, htext, hwrites, hcost, hfirst, rfl, rfl⟩ := exists_firstSeveral hparse
      exact ⟨u, v, w, a, g, htext, hwrites, hcost, hfirst, rfl⟩
    | _ => nomatch hunsupported
  · rintro ⟨u, v, w, a, g, htext, hwrites, hcost, hfirst, rfl⟩
    exact ⟨hfirst.parse_eq hwrites hcost htext, rfl⟩

/-- A text that is refused as unsupported can be malformed behind the generic. -/
theorem TypeExpr.parse_unsupported_openUnion :
    TypeExpr.parse "Map<K,V>|" = .error ⟨"Map<K,V>|", .tooManyArguments "Map" 2⟩ ∧
      SchemaFault.ofSyntaxError "Map<K,V>|" ⟨"Map<K,V>|", .tooManyArguments "Map" 2⟩ =
        .unsupported "Map<K,V>|" (.arity ⟨"Map<K,V>|", .tooManyArguments "Map" 2⟩) ∧
      ∀ a : Alternation, ¬a.Writes "Map<K,V>|" := by
  refine ⟨by decide +kernel, rfl, fun a ha => ?_⟩
  -- The text ends in a mark with which no annotation ends.
  have hlast : ((Token.scan 0 "Map<K,V>|".toList).map (·.token)).getLast? = some (.mark '|') := by decide +kernel
  obtain ⟨us, t, ht, hcloses⟩ := DocComment.closes_tokens a
  rw [(a.writes_iff_scan _ 0).1 ha, ht, List.getLast?_concat] at hlast
  obtain rfl : t = .mark '|' := Option.some.inj hlast
  rcases hcloses with h | h | h <;> revert h <;> decide

end ClassSchema
