import ClassSchema.Proofs.StepValues

/-!
# Models that an expansion does not tell apart

When two models give the same expansion, its events and its result, whatever else is in them.

What an expansion asks of a model about a name is what the name stands for (`Model.meaning`): its class, or else the cases of
its enumeration, or nothing. Two classes need not be equal to be expanded alike: it is enough that their properties have the
same names and types, however these are written (`Property.Alike`). If what is reachable from a class stands for alike things
in two models, the expansions of the class are the same (`expand_congr`). From this come the main statement `generate_congr`,
that only what a root can reach matters, and what is said elsewhere about properties that are written in other ways
(`generate_eq_of_alike`).
-/

namespace ClassSchema

/-! ## Classes that are expanded alike -/

/-- Two properties of the same name that are declared alike: the same annotations, or one annotation each and the same type
written by both. -/
def Property.Alike (p p' : Property) : Prop :=
  p.name = p'.name ∧ (p.annotations = p'.annotations ∨ ∃ t, p.expr? = some t ∧ p'.expr? = some t)

/-- Two classes of the same name whose properties are declared alike, one by one. -/
def ClassDecl.Alike (c c' : ClassDecl) : Prop := c.name = c'.name ∧ List.Forall₂ Property.Alike c.properties c'.properties

theorem Property.Alike.refl (p : Property) : p.Alike p := ⟨rfl, Or.inl rfl⟩

theorem ClassDecl.Alike.refl (c : ClassDecl) : c.Alike c :=
  ⟨rfl, List.forall₂_same.2 fun p _ => Property.Alike.refl p⟩

namespace Model

variable {m m' : Model} {policy : TuplePolicy} {path : PropertyPath}

/-! ## What a name stands for -/

/-- What a name stands for in a model; a scalar is the same in every model and is not counted. -/
inductive Meaning where
  | classDecl (decl : ClassDecl)
  | enumeration (cases : List String)
  | nothing

/-- What a name stands for: the class of the name, or else the cases of the enumeration, or else nothing. -/
def meaning (m : Model) (name : String) : Meaning :=
  match m.classes.get? name with
  | some c => .classDecl c
  | none =>
    match m.enums.get? name with
    | some e => .enumeration e.cases
    | none => .nothing

/-- Two meanings that are expanded alike. -/
inductive Meaning.Alike : Meaning → Meaning → Prop where
  | classDecl {c c' : ClassDecl} : c.Alike c' → Alike (.classDecl c) (.classDecl c')
  | enumeration (cases : List String) : Alike (.enumeration cases) (.enumeration cases)
  | nothing : Alike .nothing .nothing

theorem Meaning.Alike.refl (a : Meaning) : a.Alike a := by
  cases a with
  | classDecl c => exact .classDecl (ClassDecl.Alike.refl c)
  | enumeration cases => exact .enumeration cases
  | nothing => exact .nothing

/-- A name is that of a class when it stands for one. -/
theorem get?_eq_some_iff_meaning {name : String} {c : ClassDecl} :
    m.classes.get? name = some c ↔ m.meaning name = .classDecl c := by
  unfold meaning
  cases m.classes.get? name with
  | some d => simp
  | none => cases m.enums.get? name <;> simp

/-- A name that stands for no class is that of no class. -/
theorem get?_eq_none_of_meaning {name : String} (h : ∀ c, m.meaning name ≠ .classDecl c) : m.classes.get? name = none := by
  cases hc : m.classes.get? name with
  | none => rfl
  | some c => exact absurd (get?_eq_some_iff_meaning.1 hc) (h c)

/-- What a name outside a tuple becomes, said by what it stands for. -/
theorem nameSchema_eq {f : String → PropertyPath → Traced SchemaError Schema} {name : String} :
    m.nameSchema f path name =
      match m.meaning name with
      | .classDecl _ => f name path
      | .enumeration cases => pure (.enumeration cases)
      | .nothing =>
        match Scalar.ofName? name with
        | some s => pure (.scalar s)
        | none => failAt path (.unknownReference name) := by
  cases hc : m.classes.get? name with
  | some c => simp [nameSchema, meaning, ClassRegistry.contains, hc]
  | none =>
    cases he : m.enums.get? name with
    | some e => simp [nameSchema, meaning, ClassRegistry.contains, hc, he]
    | none => cases hs : Scalar.ofName? name <;> simp [nameSchema, meaning, ClassRegistry.contains, hc, he, hs]

/-- What an element of a tuple becomes that is a name, said by what the name stands for. -/
theorem elementScalar_ident_eq {name : String} :
    m.elementScalar path (.ident name) =
      match Scalar.ofName? name with
      | some s => pure s
      | none =>
        match m.meaning name with
        | .nothing => failAt path (.unknownReference name)
        | _ => failAt path (.unsupported (TypeExpr.ident name).render .compoundElement) := by
  cases hs : Scalar.ofName? name with
  | some s => simp [elementScalar, hs]
  | none =>
    cases hc : m.classes.get? name with
    | some c => simp [elementScalar, meaning, ClassRegistry.contains, hs, hc]
    | none =>
      cases he : m.enums.get? name <;>
        simp [elementScalar, meaning, ClassRegistry.contains, EnumRegistry.contains, hs, hc, he]

/-! ## Types -/

/-- An element of a tuple is judged by what it stands for, if it is a name. -/
theorem elementScalar_congr {e : TypeExpr} (h : ∀ name, e = .ident name → (m.meaning name).Alike (m'.meaning name)) :
    m.elementScalar path e = m'.elementScalar path e := by
  cases e with
  | ident name =>
    rw [elementScalar_ident_eq, elementScalar_ident_eq]
    have hname := h name rfl
    generalize m.meaning name = a, m'.meaning name = b at hname
    cases hname <;> rfl
  | generic base arg => rfl
  | union members => rfl
  | tuple elements => rfl

/-- Steps that are the same for every entry of a list are the same for the list. -/
theorem forM_congr {ε α : Type} {f g : α → Traced ε Unit} {xs : List α} (h : ∀ x ∈ xs, f x = g x) :
    xs.forM f = xs.forM g := by
  induction xs with
  | nil => rfl
  | cons x xs ih =>
    rw [List.forall_mem_cons] at h
    rw [Traced.cons_forM, Traced.cons_forM, h.1, ih h.2]

/-- Steps that are the same for the entries of two lists, one by one, are the same for the lists. -/
theorem mapM_congr {ε α β γ : Type} {f : α → Traced ε γ} {g : β → Traced ε γ} {xs : List α} {ys : List β}
    (h : List.Forall₂ (fun x y => f x = g y) xs ys) : xs.mapM f = ys.mapM g := by
  induction h with
  | nil => rfl
  | cons h _ ih => rw [List.mapM_cons, List.mapM_cons, h, ih]

/-- A tuple has the same schema in two models where its elements stand for alike things. -/
theorem tupleSchema_congr {elements : List TypeExpr}
    (h : ∀ e ∈ elements, ∀ name, e = .ident name → (m.meaning name).Alike (m'.meaning name)) :
    m.tupleSchema policy path elements = m'.tupleSchema policy path elements := by
  cases elements with
  | nil => rfl
  | cons head rest =>
    rw [List.forall_mem_cons] at h
    have hrest (first : Scalar) : rest.forM (m.laterElement policy path (head :: rest) first) =
        rest.forM (m'.laterElement policy path (head :: rest) first) := by
      refine forM_congr fun e he => ?_
      rw [laterElement, laterElement, elementScalar_congr (h.2 e he)]
    simp only [tupleSchema, elementScalar_congr h.1, hrest]

/-- A type has the same schema in two models where its names stand for alike things and the classes it mentions are expanded
in the same way. -/
theorem typeSchema_congr {f g : String → PropertyPath → Traced SchemaError Schema} {t : TypeExpr}
    (hnames : ∀ name, (TypeExpr.ident name).Part t → (m.meaning name).Alike (m'.meaning name))
    (hfg : ∀ name, t.Mentions name → m.classes.contains name = true → ∀ p, f name p = g name p) :
    m.typeSchema policy f path t = m'.typeSchema policy g path t := by
  induction t using TypeExpr.induct generalizing path with
  | ident name =>
    rw [typeSchema_ident, typeSchema_ident, nameSchema_eq, nameSchema_eq]
    have hname := hnames name (.self _)
    have hclass : ∀ c, m.meaning name = .classDecl c → f name path = g name path := by
      intro c hc
      have hcontains := contains_iff_exists_get?.2 ⟨c, get?_eq_some_iff_meaning.2 hc⟩
      exact hfg name (.ident name) hcontains path
    generalize m.meaning name = a, m'.meaning name = b at hname hclass
    cases hname with
    | classDecl h => exact hclass _ rfl
    | enumeration cases => rfl
    | nothing => rfl
  | generic base arg ih =>
    have harg := fun p => @ih p (fun name hn => hnames name (.generic base hn))
      (fun name hn => hfg name (.generic base hn))
    simp only [typeSchema, harg]
  | union members ih =>
    have hmembers : members.mapM (m.typeSchema policy f path) = members.mapM (m'.typeSchema policy g path) := by
      refine mapM_congr (List.forall₂_same.2 fun t ht => ?_)
      exact ih t ht (fun name hn => hnames name (.union ht hn)) (fun name hn => hfg name (.union ht hn))
    rw [typeSchema, typeSchema, memberSchemas_eq_mapM, memberSchemas_eq_mapM, hmembers]
  | tuple elements =>
    rw [typeSchema_tuple, typeSchema_tuple]
    refine tupleSchema_congr ?_
    rintro _ he name rfl
    exact hnames name (.tuple he (.self _))

/-! ## Properties -/

/-- A property without a type is refused, in every model and whatever classes become. -/
theorem propertySchema_of_expr?_eq_none {f g : String → PropertyPath → Traced SchemaError Schema} {p p' : Property}
    (hname : p.name = p'.name) (hannotations : p.annotations = p'.annotations) (h : p.expr? = none) :
    m.propertySchema policy f path p = m'.propertySchema policy g path p' := by
  obtain rfl : p = p' := by
    cases p
    cases p'
    cases hname
    cases hannotations
    rfl
  unfold propertySchema
  unfold Property.expr? at h
  cases hd : p.declaredType with
  | error found => rfl
  | ok text =>
    rw [hd] at h
    dsimp only at h ⊢
    cases hparse : TypeExpr.parse text with
    | error e => rfl
    | ok t =>
      rw [hparse] at h
      nomatch h

/-- Two properties that are declared alike have the same schema in two models where their type has the same. -/
theorem propertySchema_congr {f g : String → PropertyPath → Traced SchemaError Schema} {p p' : Property}
    (halike : p.Alike p')
    (htype : ∀ t, p.expr? = some t →
      m.typeSchema policy f (path.property p.name) t = m'.typeSchema policy g (path.property p.name) t) :
    m.propertySchema policy f path p = m'.propertySchema policy g path p' := by
  obtain ⟨hname, hdeclared⟩ := halike
  cases ht : p.expr? with
  | some t =>
    have ht' : p'.expr? = some t := by
      rcases hdeclared with hannotations | ⟨s, hs, hs'⟩
      · rw [Property.expr?, Property.declaredType] at ht ⊢
        rwa [← hannotations]
      · rw [hs', ← hs, ht]
    rw [propertySchema_of_expr? ht, propertySchema_of_expr? ht', ← hname, htype t ht]
  | none =>
    rcases hdeclared with hannotations | ⟨s, hs, -⟩
    · exact propertySchema_of_expr?_eq_none hname hannotations ht
    · rw [hs] at ht
      nomatch ht

/-! ## Classes -/

/-- Two classes that are declared alike have the same properties in two models where the types of the first do. -/
theorem properties_congr {f g : String → PropertyPath → Traced SchemaError Schema} {ps ps' : List Property}
    (halike : List.Forall₂ Property.Alike ps ps')
    (htype : ∀ p ∈ ps, ∀ t, p.expr? = some t →
      m.typeSchema policy f (path.property p.name) t = m'.typeSchema policy g (path.property p.name) t) :
    ps.mapM (m.propertySchema policy f path) = ps'.mapM (m'.propertySchema policy g path) := by
  refine mapM_congr ?_
  induction halike with
  | nil => exact .nil
  | cons h _ ih =>
    rw [List.forall_mem_cons] at htype
    exact .cons (propertySchema_congr h htype.1) (ih htype.2)

/-- Expansions of one class in two models. The classes to be expanded are among `Reached`, and what they are and name
stands for alike things in both models. -/
theorem expand_congr {options : ExpansionOptions} (Reached : String → Prop)
    (hreached : ∀ d, Reached d → (m.meaning d).Alike (m'.meaning d))
    (hnames : ∀ d c, Reached d → m.classes.get? d = some c → ∀ p ∈ c.properties, ∀ t, p.expr? = some t →
      ∀ name, (TypeExpr.ident name).Part t → (m.meaning name).Alike (m'.meaning name))
    (hrefers : ∀ d e, Reached d → m.Refers d e → Reached e) {active : List String} {name : String}
    (hname : Reached name) : m.expand options active name path = m'.expand options active name path := by
  -- In the first model the classes that are not open become fewer with every class inside; the second follows it.
  induction hn : (m.unopened active).length using Nat.strong_induction_on generalizing active name path with
  | h n ih =>
    subst hn
    have halike := hreached name hname
    rw [expand_eq, expand_eq]
    cases hm : m.classes.get? name with
    | none =>
      have hnone : m'.classes.get? name = none := by
        refine get?_eq_none_of_meaning fun c' hc' => ?_
        rw [hc'] at halike
        cases hmeaning : m.meaning name with
        | classDecl c =>
          rw [get?_eq_some_iff_meaning.2 hmeaning] at hm
          nomatch hm
        | enumeration cases =>
          rw [hmeaning] at halike
          nomatch halike
        | nothing =>
          rw [hmeaning] at halike
          nomatch halike
      rw [hnone]
    | some c =>
      have hmeaning := get?_eq_some_iff_meaning.1 hm
      rw [hmeaning] at halike
      obtain ⟨c', hc', hcc'⟩ : ∃ c', m'.meaning name = .classDecl c' ∧ c.Alike c' := by
        generalize m'.meaning name = b at halike
        cases halike with
        | classDecl h => exact ⟨_, rfl, h⟩
      rw [get?_eq_some_iff_meaning.2 hc']
      dsimp only
      by_cases hopen : name ∈ active
      · rw [if_pos hopen, if_pos hopen]
      · rw [if_neg hopen, if_neg hopen]
        have hproperties : c.properties.mapM (m.propertySchema options.tuplePolicy (m.inner options active name) path) =
            c'.properties.mapM (m'.propertySchema options.tuplePolicy (m'.inner options active name) path) := by
          refine properties_congr hcc'.2 fun p hp t ht => typeSchema_congr (hnames name c hname hm p hp t ht) ?_
          intro d hd hcontains q
          have hd' : Reached d := hrefers name d hname ⟨hcontains, c, hm, p, hp, t, ht, hd⟩
          exact ih _ (length_unopened_lt (mem_names_of_get? hm) hopen) hd' rfl
        rw [hproperties]

/-- In models where every name stands for alike things, all expansions are the same. -/
theorem generate_eq_of_alike (h : ∀ name, (m.meaning name).Alike (m'.meaning name)) (options : ExpansionOptions)
    (root : String) : m.generate options root = m'.generate options root :=
  expand_congr (fun _ => True) (fun d _ => h d) (fun _ _ _ _ _ _ _ _ name _ => h name)
    (fun _ _ _ _ => trivial) trivial

/-- Only what a root can reach matters. If the classes that a root reaches, and the names that stand in the types of their
properties, stand for the same things in two models, then the root has the same expansion in both: the same schema or the
same failure, and the same events. -/
theorem generate_congr {m m' : Model} {root : String}
    (hclasses : ∀ d, Relation.ReflTransGen m.Refers root d → m.meaning d = m'.meaning d)
    (hnames : ∀ d c, Relation.ReflTransGen m.Refers root d → m.classes.get? d = some c → ∀ p ∈ c.properties,
      ∀ t, p.expr? = some t → ∀ name, (TypeExpr.ident name).Part t → m.meaning name = m'.meaning name)
    (options : ExpansionOptions) : m.generate options root = m'.generate options root := by
  refine expand_congr (Relation.ReflTransGen m.Refers root) ?_ ?_ ?_ .refl
  · intro d hd
    rw [hclasses d hd]
    exact .refl _
  · intro d c hd hc p hp t ht name hname
    rw [hnames d c hd hc p hp t ht name hname]
    exact .refl _
  · exact fun d e hd he => hd.tail he

/-- A model of a box with parts. -/
def boxes : Model :=
  ⟨⟨[⟨"Box", [⟨"parts", ["array<Part|Size>"]⟩, ⟨"at", ["array{int, int}"]⟩]⟩, ⟨"Part", [⟨"note", ["?string"]⟩]⟩],
    by decide, by decide⟩, ⟨[⟨"Size", ["S", "L"]⟩, ⟨"Part", ["none"]⟩], by decide⟩⟩

/-- The same model in another order, with a class and an enumeration that a box does not reach, and without the enumeration
that has the name of a class. -/
def otherBoxes : Model :=
  ⟨⟨[⟨"Lid", [⟨"of", ["Box", "Part"]⟩]⟩, ⟨"Part", [⟨"note", ["?string"]⟩]⟩,
    ⟨"Box", [⟨"parts", ["array<Part|Size>"]⟩, ⟨"at", ["array{int, int}"]⟩]⟩], by decide, by decide⟩,
    ⟨[⟨"Color", []⟩, ⟨"Size", ["S", "L"]⟩], by decide⟩⟩

theorem generate_congr_boxes : boxes.generate {} "Box" = otherBoxes.generate {} "Box" := by
  have hsame : ∀ name ∈ ["Box", "Part", "Size", "int", "string", "null"], boxes.meaning name = otherBoxes.meaning name := by
    simp only [List.forall_mem_cons, List.not_mem_nil, false_imp_iff, implies_true, and_true]
    exact ⟨rfl, rfl, rfl, rfl, rfl, rfl⟩
  have hparts : Property.expr? ⟨"parts", ["array<Part|Size>"]⟩ =
      some (.generic "array" (.union [.ident "Part", .ident "Size"])) := by decide +kernel
  have hat : Property.expr? ⟨"at", ["array{int, int}"]⟩ = some (.tuple [.ident "int", .ident "int"]) := by decide +kernel
  have hnote : Property.expr? ⟨"note", ["?string"]⟩ = some (.union [.ident "string", .ident "null"]) := by decide +kernel
  -- The two classes and the names that stand in the types of their properties.
  have hnames : ∀ d ∈ ["Box", "Part"], ∀ c, boxes.classes.get? d = some c → ∀ p ∈ c.properties, ∀ t, p.expr? = some t →
      ∀ name, (TypeExpr.ident name).Part t → name ∈ ["Part", "Size", "int", "string", "null"] := by
    have hbox : boxes.classes.get? "Box" =
        some ⟨"Box", [⟨"parts", ["array<Part|Size>"]⟩, ⟨"at", ["array{int, int}"]⟩]⟩ := rfl
    have hpart : boxes.classes.get? "Part" = some ⟨"Part", [⟨"note", ["?string"]⟩]⟩ := rfl
    simp [hbox, hpart, hparts, hat, hnote, TypeExpr.part_generic_iff, TypeExpr.part_union_iff, TypeExpr.part_tuple_iff,
      TypeExpr.part_ident_iff]
  have hreached : ∀ d, Relation.ReflTransGen boxes.Refers "Box" d → d ∈ ["Box", "Part"] := by
    intro d hd
    induction hd with
    | refl => exact List.mem_cons_self
    | tail _ hr ih =>
      obtain ⟨hcontains, c, hc, p, hp, t, ht, hmentions⟩ := hr
      have := hnames _ ih c hc p hp t ht _ hmentions.part
      revert hcontains
      simp only [List.mem_cons, List.not_mem_nil, or_false] at this ⊢
      rcases this with rfl | rfl | rfl | rfl | rfl <;> decide
  refine generate_congr ?_ ?_ {}
  · intro d hd
    exact hsame d (by
      have := hreached d hd
      simp only [List.mem_cons, List.not_mem_nil, or_false] at this ⊢
      tauto)
  · intro d c hd hc p hp t ht name hname
    have := hnames d (hreached d hd) c hc p hp t ht name hname
    exact hsame name (List.mem_cons_of_mem _ this)

end Model

end ClassSchema
