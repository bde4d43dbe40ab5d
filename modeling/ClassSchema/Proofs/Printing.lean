import ClassSchema.Proofs.FlatUnions

/-!
# Reading the canonical text of an expression

What is read from the canonical text of an expression (`TypeExpr.render`) is the expression with all unions merged
(`TypeExpr.flat`), as long as its names are legal and it is not too high (`TypeExpr.height`).

One half is that the text writes a tree of the grammar (`writesMembers_render`), the other that whatever is read has legal names
and unions of two members or more (`everywhere_read_of_parse`). Hence an expression is read back from its own text exactly when
its names are legal, its unions are flat and it is not too high (`TypeExpr.parse_render`).
-/

namespace ClassSchema

namespace TypeExpr

/-! ## Names -/

/-- A legal name: ASCII letters, digits, `_` and `-`, at least one character, with no `-` at either end. -/
def IsName (name : String) : Prop :=
  name.toList ≠ [] ∧ (∀ c ∈ name.toList, isWordChar c = true) ∧ name.toList.head? ≠ some '-' ∧
    name.toList.getLast? ≠ some '-'

instance (name : String) : Decidable (IsName name) :=
  inferInstanceAs (Decidable (name.toList ≠ [] ∧ (∀ c ∈ name.toList, isWordChar c = true) ∧ name.toList.head? ≠ some '-' ∧
    name.toList.getLast? ≠ some '-'))

/-- The name that an expression begins with: a name itself, or the name of a generic. -/
def leadName? : TypeExpr → Option String
  | ident name => some name
  | generic base _ => some base
  | _ => none

/-- All names in an expression are legal. -/
def WellNamed : TypeExpr → Prop := Everywhere fun s => ∀ name ∈ s.leadName?, IsName name

/-! ## Height -/

mutual

/-- The height of an expression: a generic and a tuple are one higher than what is in them, a union is as high as its
highest member. -/
def height : TypeExpr → Nat
  | ident _ => 1
  | generic _ arg => 1 + height arg
  | union members => heightAll members
  | tuple elements => 1 + heightAll elements

/-- The height of the highest of several expressions. -/
def heightAll : List TypeExpr → Nat
  | [] => 0
  | t :: ts => max (height t) (heightAll ts)

end

end TypeExpr

namespace Grammar

/-! ## Writing the canonical text -/

/-- The tree of two annotations with a `|` between them. -/
def Alternation.append : Alternation → Alternation → Alternation
  | .single m, b => .alternative m b
  | .alternative m rest, b => .alternative m (rest.append b)

theorem Alternation.tokens_append (a b : Alternation) : (a.append b).tokens = a.tokens ++ .mark '|' :: b.tokens := by
  fun_induction Alternation.append a b with
  | case1 b m => rw [Alternation.tokens, Alternation.tokens]
  | case2 b m rest ih => rw [Alternation.tokens, Alternation.tokens, ih, List.append_assoc, List.cons_append]

theorem Alternation.cost_append (a b : Alternation) : (a.append b).cost = max a.cost b.cost := by
  fun_induction Alternation.append a b with
  | case1 b m => rw [Alternation.cost, Alternation.cost]
  | case2 b m rest ih => rw [Alternation.cost, Alternation.cost, ih, Nat.max_assoc]

theorem Alternation.members?_append {a b : Alternation} {ts us : List TypeExpr} (ha : a.members? = some ts)
    (hb : b.members? = some us) : (a.append b).members? = some (ts ++ us) := by
  fun_induction Alternation.append a b generalizing ts with
  | case1 b m =>
    obtain ⟨t, ht, rfl⟩ := Option.map_eq_some_iff.1 ha
    rw [Alternation.members?, ht, hb]
    rfl
  | case2 b m rest ih =>
    obtain ⟨t, ht, ha⟩ := Option.bind_eq_some_iff.1 ha
    obtain ⟨ts, hts, rfl⟩ := Option.map_eq_some_iff.1 ha
    rw [Alternation.members?, ht, ih hts hb]
    rfl

/-- A legal name is a name of the grammar. -/
theorem exists_name {name : String} (h : TypeExpr.IsName name) : ∃ n : Name, n.text = name ∧ tokenText n.token = name.toList := by
  obtain ⟨hne, hword, hhead, hlast⟩ := h
  cases hcs : name.toList with
  | nil => exact absurd hcs hne
  | cons c cs =>
    rw [hcs] at hword hhead hlast
    rw [List.forall_mem_cons] at hword
    have hstart : isWordStart c = true := by
      have hc := hword.1
      simp only [isWordChar, Bool.or_eq_true, beq_iff_eq] at hc
      exact hc.resolve_right (by simpa using hhead)
    have hlast' : cs.getLast? ≠ some '-' := by
      cases cs with
      | nil => simp
      | cons d ds => rwa [List.getLast?_cons_cons] at hlast
    refine ⟨⟨c, cs, hstart, hword.2, hlast'⟩, ?_, rfl⟩
    rw [Name.text, ← hcs, String.ofList_toList]

/-- A text that writes an annotation with these members and this cost. -/
def WritesMembers (text : List Char) (ts : List TypeExpr) (cost : Nat) : Prop :=
  ∃ a : Alternation, Spells text a.tokens ∧ a.members? = some ts ∧ a.cost = cost

/-- A text that writes entries of a bracket with these expressions and this cost. -/
def WritesElements (text : List Char) (ts : List TypeExpr) (cost : Nat) : Prop :=
  ∃ es : Entries, Spells text es.tokens ∧ es.exprs? = some ts ∧ es.cost = cost

variable {text rest : List Char} {ts us : List TypeExpr} {cost restCost : Nat}

/-- A legal name writes itself. -/
theorem writesMembers_name {name : String} (h : TypeExpr.IsName name) : WritesMembers name.toList [.ident name] 1 := by
  obtain ⟨n, rfl, htext⟩ := exists_name h
  refine ⟨.single (.plain (.name n) 0), ?_, rfl, rfl⟩
  rw [← htext]
  exact spells_token n.token

/-- A `|` puts the members of two annotations one after the other. -/
theorem WritesMembers.bar (h : WritesMembers text ts cost) (hrest : WritesMembers rest us restCost) :
    WritesMembers (text ++ '|' :: rest) (ts ++ us) (max cost restCost) := by
  obtain ⟨a, hspells, hmembers, rfl⟩ := h
  obtain ⟨b, hspells', hmembers', rfl⟩ := hrest
  refine ⟨a.append b, ?_, Alternation.members?_append hmembers hmembers', a.cost_append b⟩
  rw [a.tokens_append]
  exact hspells.append_mark '|' hspells'

/-- An annotation is an entry. -/
theorem WritesMembers.element (h : WritesMembers text ts cost) : WritesElements text [ofMembers ts] cost := by
  obtain ⟨a, hspells, hmembers, rfl⟩ := h
  refine ⟨.single a, hspells, ?_, rfl⟩
  rw [Entries.exprs?, hmembers]
  rfl

/-- A comma puts an annotation before entries. -/
theorem WritesMembers.comma (h : WritesMembers text ts cost) (hrest : WritesElements rest us restCost) :
    WritesElements (text ++ ',' :: rest) (ofMembers ts :: us) (max cost restCost) := by
  obtain ⟨a, hspells, hmembers, rfl⟩ := h
  obtain ⟨es, hspells', hexprs, rfl⟩ := hrest
  refine ⟨.more a es, hspells.append_mark ',' hspells', ?_, rfl⟩
  rw [Entries.exprs?, hmembers, hexprs]
  rfl

/-- Entries between brackets after a name that takes them. -/
theorem WritesElements.bracketed (h : WritesElements text ts cost) {base : String} (hbase : TypeExpr.IsName base)
    (bracket : Bracket) (hopens : bracket = .brace → TypeExpr.isArrayName base = true) {t : TypeExpr}
    (ht : ofEntries base bracket ts = some t) :
    WritesMembers (base.toList ++ opening bracket :: (text ++ [bracket.close])) [t] (1 + cost) := by
  obtain ⟨es, hspells, hexprs, rfl⟩ := h
  obtain ⟨n, rfl, htext⟩ := exists_name hbase
  have hn : n.Opens bracket := hopens
  refine ⟨.single (.plain (.bracketed n bracket hn es) 0), ?_, ?_, ?_⟩
  · have hclose := hspells.append_mark bracket.close spells_nil
    have := (spells_token n.token).append_mark (opening bracket) hclose
    rw [← htext]
    simpa only [Alternation.tokens, Member.tokens, Primary.tokens, suffixTokens, List.append_nil,
      List.singleton_append] using this
  · rw [Alternation.members?, Member.expr?, Primary.expr?, hexprs, Option.bind_some, ht]
    rfl
  · have := es.one_le_cost
    rw [Alternation.cost, Member.cost, Primary.cost]
    omega

/-- Texts with a mark between them, from a way to begin with one text and a way to put one before others. -/
theorem intercalate_induct {mark : Char} (whole : List TypeExpr → List Char → Prop) (hne : ts ≠ [])
    (hone : ∀ t ∈ ts, whole [t] t.render.toList)
    (hcons : ∀ t ∈ ts, ∀ us cs, whole us cs → whole (t :: us) (t.render.toList ++ mark :: cs)) :
    whole ts ([mark].intercalate (ts.map (·.render.toList))) := by
  induction ts with
  | nil => exact absurd rfl hne
  | cons t ts ih =>
    rw [List.forall_mem_cons] at hone hcons
    cases ts with
    | nil => simpa [List.intercalate] using hone.1
    | cons u us =>
      have := hcons.1 _ _ (ih (by simp) hone.2 hcons.2)
      simpa only [List.map_cons, List.intercalate_cons_cons, List.append_assoc, List.singleton_append] using this

/-- The canonical texts of the members of a union write the alternatives of all of them. -/
theorem writesMembers_union (hne : ts ≠ [])
    (h : ∀ t ∈ ts, WritesMembers t.render.toList t.alternatives t.height) :
    WritesMembers (['|'].intercalate (ts.map (·.render.toList))) (TypeExpr.alternativesAll ts) (TypeExpr.heightAll ts) := by
  refine intercalate_induct
    (fun us cs => WritesMembers cs (TypeExpr.alternativesAll us) (TypeExpr.heightAll us)) hne ?_ ?_
  · intro t ht
    simpa [TypeExpr.alternativesAll, TypeExpr.heightAll] using h t ht
  · intro t ht us cs hus
    exact (h t ht).bar hus

/-- The canonical texts of the elements of a tuple write the elements with their unions merged. -/
theorem writesElements_tuple (hne : ts ≠ [])
    (h : ∀ t ∈ ts, WritesMembers t.render.toList t.alternatives t.height) :
    WritesElements ([','].intercalate (ts.map (·.render.toList))) (TypeExpr.flatAll ts) (TypeExpr.heightAll ts) := by
  refine intercalate_induct (fun us cs => WritesElements cs (TypeExpr.flatAll us) (TypeExpr.heightAll us)) hne ?_ ?_
  · intro t ht
    simpa [TypeExpr.flatAll, TypeExpr.heightAll] using (h t ht).element
  · intro t ht us cs hus
    exact (h t ht).comma hus

/-- The canonical text of an expression with legal names and no empty union writes an annotation: its members are the
alternatives of the expression, and it costs the height. -/
theorem writesMembers_render {t : TypeExpr} (hnamed : t.WellNamed) (hunion : t.NoEmptyUnion) :
    WritesMembers t.render.toList t.alternatives t.height := by
  induction t using TypeExpr.induct with
  | ident name =>
    rw [TypeExpr.render, TypeExpr.alternatives, TypeExpr.height]
    exact writesMembers_name (hnamed _ (.self _) name rfl)
  | generic base arg ih =>
    obtain ⟨hbase, harg⟩ := TypeExpr.everywhere_generic_iff.1 hnamed
    have hentry := (ih harg (TypeExpr.everywhere_generic_iff.1 hunion).2).element
    have := hentry.bracketed (hbase base rfl) .angle (by simp) rfl
    rw [TypeExpr.render, TypeExpr.alternatives, TypeExpr.height]
    simpa [String.toList_append, opening, Bracket.close] using this
  | union members ih =>
    obtain ⟨hself, hmembers⟩ := TypeExpr.everywhere_union_iff.1 hunion
    have hne : members ≠ [] := by simpa using hself
    have hnamed' := (TypeExpr.everywhere_union_iff.1 hnamed).2
    have := writesMembers_union hne fun t ht => ih t ht (hnamed' t ht) (hmembers t ht)
    rw [TypeExpr.render, TypeExpr.alternatives, TypeExpr.height, TypeExpr.renderAll_eq_map]
    simpa [String.toList_intercalate, Function.comp_def] using this
  | tuple elements ih =>
    have hunion' := (TypeExpr.everywhere_tuple_iff.1 hunion).2
    have hnamed' := (TypeExpr.everywhere_tuple_iff.1 hnamed).2
    have harray : TypeExpr.IsName TypeExpr.arrayName := by decide
    rw [TypeExpr.render, TypeExpr.alternatives, TypeExpr.height, TypeExpr.renderAll_eq_map]
    by_cases hne : elements = []
    · subst hne
      obtain ⟨n, hn, htext⟩ := exists_name harray
      have hopens : n.Opens .brace := fun _ => by
        rw [hn]
        decide
      refine ⟨.single (.plain (.empty n hopens) 0), ?_, rfl, rfl⟩
      have := (spells_token n.token).append_mark '{' (spells_token (.mark '}'))
      rw [htext] at this
      simpa [Alternation.tokens, Member.tokens, Primary.tokens, suffixTokens, opening, Bracket.close, tokenText] using this
    · have helements := writesElements_tuple hne fun t ht => ih t ht (hnamed' t ht) (hunion' t ht)
      have := helements.bracketed harray .brace (fun _ => by decide) rfl
      simpa [String.toList_append, String.toList_intercalate, Function.comp_def, opening, Bracket.close] using this

/-! ## What can be read -/

/-- What holds at every place of an expression that was read: its names are legal, and its unions have two members or
more. -/
def ReadNode (s : TypeExpr) : Prop :=
  (∀ name ∈ s.leadName?, TypeExpr.IsName name) ∧ ∀ members, s = .union members → 2 ≤ members.length

/-- A name of the grammar is legal. -/
theorem Name.isName (n : Name) : TypeExpr.IsName n.text := by
  have hhead : n.head ≠ '-' := by
    intro h
    have := n.head_start
    rw [h] at this
    nomatch this
  rw [TypeExpr.IsName, Name.text, String.toList_ofList]
  refine ⟨by simp, List.forall_mem_cons.2 ⟨isWordChar_of_isWordStart n.head_start, n.tail_word⟩, by simpa using hhead, ?_⟩
  cases htail : n.tail with
  | nil => simpa using hhead
  | cons c cs =>
    rw [List.getLast?_cons_cons, ← htail]
    exact n.last_ne

theorem everywhere_read_arrayOf {t : TypeExpr} (h : t.Everywhere ReadNode) (wraps : Nat) :
    (TypeExpr.arrayOf^[wraps] t).Everywhere ReadNode := by
  induction wraps with
  | zero => exact h
  | succ wraps ih =>
    rw [Function.iterate_succ_apply']
    refine TypeExpr.everywhere_generic_iff.2 ⟨⟨?_, by simp⟩, ih⟩
    intro name hname
    cases hname
    decide

theorem everywhere_read_nullable {t : TypeExpr} (h : t.Everywhere ReadNode) : t.nullable.Everywhere ReadNode := by
  refine TypeExpr.everywhere_union_iff.2 ⟨⟨by simp [TypeExpr.leadName?], ?_⟩, ?_⟩
  · intro members hmembers
    cases hmembers
    exact Nat.le_refl 2
  · refine List.forall_mem_cons.2 ⟨h, List.forall_mem_singleton.2 (TypeExpr.everywhere_ident_iff.2 ⟨?_, by simp⟩)⟩
    intro name hname
    cases hname
    decide

theorem everywhere_read_ofMembers {ts : List TypeExpr} (hne : ts ≠ []) (h : ∀ t ∈ ts, t.Everywhere ReadNode) :
    (ofMembers ts).Everywhere ReadNode := by
  rcases ts with _ | ⟨t, _ | ⟨u, us⟩⟩
  · exact absurd rfl hne
  · exact h t List.mem_cons_self
  · refine TypeExpr.everywhere_union_iff.2 ⟨⟨by simp [TypeExpr.leadName?], ?_⟩, h⟩
    intro members hmembers
    cases hmembers
    simp

theorem everywhere_read_ofEntries {base : Name} {bracket : Bracket} {ts : List TypeExpr} {t : TypeExpr}
    (ht : ofEntries base.text bracket ts = some t) (h : ∀ t ∈ ts, t.Everywhere ReadNode) : t.Everywhere ReadNode := by
  cases bracket with
  | brace =>
    cases ht
    exact TypeExpr.everywhere_tuple_iff.2 ⟨⟨by simp [TypeExpr.leadName?], by simp⟩, h⟩
  | angle =>
    rcases ts with _ | ⟨arg, _ | ⟨_, _⟩⟩
    · nomatch ht
    · cases ht
      refine TypeExpr.everywhere_generic_iff.2 ⟨⟨?_, by simp⟩, h arg List.mem_cons_self⟩
      intro name hname
      cases hname
      exact base.isName
    · nomatch ht

mutual

/-- What an annotation stands for has legal names and unions of two members or more, and there is a member. -/
theorem Alternation.everywhere_read : (a : Alternation) → {ts : List TypeExpr} → a.members? = some ts →
    ts ≠ [] ∧ ∀ t ∈ ts, t.Everywhere ReadNode
  | .single m, ts, h => by
    obtain ⟨t, ht, rfl⟩ := Option.map_eq_some_iff.1 h
    exact ⟨by simp, List.forall_mem_singleton.2 (m.everywhere_read ht)⟩
  | .alternative m rest, ts, h => by
    obtain ⟨t, ht, h⟩ := Option.bind_eq_some_iff.1 h
    obtain ⟨us, hus, rfl⟩ := Option.map_eq_some_iff.1 h
    exact ⟨by simp, List.forall_mem_cons.2 ⟨m.everywhere_read ht, (rest.everywhere_read hus).2⟩⟩

/-- What a member stands for has legal names and unions of two members or more. -/
theorem Member.everywhere_read : (m : Member) → {t : TypeExpr} → m.expr? = some t → t.Everywhere ReadNode
  | .nullable inner, t, h => by
    rw [Member.expr?_nullable] at h
    obtain ⟨s, hs, rfl⟩ := Option.map_eq_some_iff.1 h
    exact everywhere_read_nullable (inner.everywhere_read hs)
  | .plain p wraps, t, h => by
    rw [Member.expr?_plain] at h
    obtain ⟨s, hs, rfl⟩ := Option.map_eq_some_iff.1 h
    exact everywhere_read_arrayOf (p.everywhere_read hs) wraps

/-- What a primary stands for has legal names and unions of two members or more. -/
theorem Primary.everywhere_read : (p : Primary) → {t : TypeExpr} → p.expr? = some t → t.Everywhere ReadNode
  | .name n, t, h => by
    cases h
    refine TypeExpr.everywhere_ident_iff.2 ⟨?_, by simp⟩
    intro name hname
    cases hname
    exact n.isName
  | .empty _ _, t, h => by
    cases h
    exact TypeExpr.everywhere_tuple_iff.2 ⟨⟨by simp [TypeExpr.leadName?], by simp⟩, by simp⟩
  | .bracketed base bracket _ entries, t, h => by
    obtain ⟨ts, hts, ht⟩ := Option.bind_eq_some_iff.1 h
    exact everywhere_read_ofEntries ht (entries.everywhere_read hts)

/-- What entries stand for has legal names and unions of two members or more. -/
theorem Entries.everywhere_read : (es : Entries) → {ts : List TypeExpr} → es.exprs? = some ts →
    ∀ t ∈ ts, t.Everywhere ReadNode
  | .single a, ts, h => by
    obtain ⟨us, hus, rfl⟩ := Option.map_eq_some_iff.1 h
    obtain ⟨hne, hread⟩ := a.everywhere_read hus
    exact List.forall_mem_singleton.2 (everywhere_read_ofMembers hne hread)
  | .more a rest, ts, h => by
    obtain ⟨us, hus, h⟩ := Option.bind_eq_some_iff.1 h
    obtain ⟨vs, hvs, rfl⟩ := Option.map_eq_some_iff.1 h
    obtain ⟨hne, hread⟩ := a.everywhere_read hus
    exact List.forall_mem_cons.2 ⟨everywhere_read_ofMembers hne hread, rest.everywhere_read hvs⟩

end

/-- Whatever is read has legal names and unions of two members or more. -/
theorem everywhere_read_of_parse {text : String} {t : TypeExpr} (h : TypeExpr.parse text = .ok t) :
    t.Everywhere ReadNode := by
  obtain ⟨a, -, ht, -⟩ := exists_writes_of_parse h
  obtain ⟨ts, hts, rfl⟩ := Option.map_eq_some_iff.1 ht
  obtain ⟨hne, hread⟩ := a.everywhere_read hts
  exact everywhere_read_ofMembers hne hread

end Grammar

namespace TypeExpr

open Grammar

/-- What is read from the canonical text of an expression with legal names and no empty union. -/
theorem parse_render_eq {t : TypeExpr} (hnamed : t.WellNamed) (hunion : t.NoEmptyUnion) :
    parse t.render = if t.height ≤ maxNesting then .ok t.flat else .error ⟨t.render, .tooDeep maxNesting⟩ := by
  obtain ⟨a, hspells, hmembers, hcost⟩ := writesMembers_render hnamed hunion
  have hexpr : a.expr? = some t.flat := by
    rw [Alternation.expr?, hmembers]
    rfl
  by_cases hheight : t.height ≤ maxNesting
  · rw [if_pos hheight]
    exact a.parse_eq_ok hspells hexpr (hcost ▸ hheight)
  · rw [if_neg hheight]
    exact a.parse_eq_tooDeep hspells hexpr (hcost ▸ Nat.lt_of_not_le hheight)

/-- Printing and reading agree. From the canonical text of an expression with legal names and no empty union, the expression
with its unions merged is read, unless it is too high; and an expression, whatever it is, is read back from its own text
exactly when its names are legal, its unions are flat and it is not too high. -/
theorem parse_render (t : TypeExpr) :
    (t.WellNamed → t.NoEmptyUnion →
      parse t.render = if t.height ≤ maxNesting then .ok t.flat else .error ⟨t.render, .tooDeep maxNesting⟩) ∧
    (parse t.render = .ok t ↔ t.WellNamed ∧ t.FlatUnions ∧ t.height ≤ maxNesting) := by
  refine ⟨parse_render_eq, ?_⟩
  constructor
  · intro h
    have hread := everywhere_read_of_parse h
    have hnamed : t.WellNamed := fun s hs => (hread s hs).1
    have hunion : t.NoEmptyUnion := by
      intro s hs hempty
      have := (hread s hs).2 [] hempty
      simp at this
    rw [parse_render_eq hnamed hunion] at h
    by_cases hheight : t.height ≤ maxNesting
    · rw [if_pos hheight] at h
      have hflat : t.flat = t := Except.ok.inj h
      -- What is left is that no union is a member of a union: that is so in every merged expression.
      have hinner : t.Everywhere NoInnerUnion := hflat ▸ t.everywhere_noInnerUnion_flat
      exact ⟨hnamed, fun s hs members hs' => ⟨(hread s hs).2 members hs', hinner s hs members hs'⟩, hheight⟩
    · rw [if_neg hheight] at h
      nomatch h
  · rintro ⟨hnamed, hflat, hheight⟩
    rw [parse_render_eq hnamed hflat.noEmptyUnion, if_pos hheight]
    exact congrArg Except.ok (flat_of_flatUnions hflat)

/-- A list of a union of one member, beside a union: both are lost in the text. -/
def innerUnions : TypeExpr := union [union [ident "a-1", ident "B"], generic "list" (union [ident "c"])]

theorem parse_render_innerUnions :
    innerUnions.WellNamed ∧ innerUnions.NoEmptyUnion ∧
      parse innerUnions.render = .ok (union [ident "a-1", ident "B", generic "list" (ident "c")]) := by
  have hnames : IsName "a-1" ∧ IsName "B" ∧ IsName "list" ∧ IsName "c" := by decide
  have hnamed : innerUnions.WellNamed := by
    simp [WellNamed, innerUnions, everywhere_union_iff, everywhere_generic_iff, everywhere_ident_iff, leadName?, hnames]
  have hunion : innerUnions.NoEmptyUnion := by
    simp [NoEmptyUnion, innerUnions, everywhere_union_iff, everywhere_generic_iff, everywhere_ident_iff]
  refine ⟨hnamed, hunion, ?_⟩
  rw [(parse_render innerUnions).1 hnamed hunion]
  rfl

end TypeExpr

end ClassSchema
