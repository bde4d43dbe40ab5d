import ClassSchema.Proofs.Outcome
import ClassSchema.Proofs.Reference

/-!
# When each step of an expansion has a value

One statement for each function of an expansion: when its result is a schema, and which. They are what later statements
about successful expansions rest on, so that no other proof opens these functions. Neither the path at which a type is found
nor the events reported on the way decide whether it has a schema (`typeSchema_ok_mono`, `expand_ok_mono`): the path is
only used to report, and the open classes only to refuse.
-/

namespace ClassSchema

namespace Model

variable {m : Model} {policy : TuplePolicy} {path : PropertyPath}

@[simp] theorem result_failAt {α : Type} (path : PropertyPath) (fault : SchemaFault) :
    (failAt path fault : Traced SchemaError α).result = .error ⟨path, fault⟩ := rfl

/-! ## Tuples -/

/-- An element of a tuple has the scalar that it names, and no other way to have one. -/
theorem elementScalar_eq_ok_iff {e : TypeExpr} {s : Scalar} :
    (m.elementScalar path e).result = .ok s ↔ e.scalar? = some s := by
  cases e with
  | ident name =>
    simp only [elementScalar, TypeExpr.scalar?]
    cases hs : Scalar.ofName? name with
    | some t => simp
    | none =>
      dsimp only
      split <;> simp
  | generic base arg => simp [elementScalar, TypeExpr.scalar?]
  | union members => simp [elementScalar, TypeExpr.scalar?]
  | tuple elements => simp [elementScalar, TypeExpr.scalar?]

/-- An element after the first is a scalar and, where the policy asks for it, the first one's. -/
theorem laterElement_eq_ok_iff {elements : List TypeExpr} {first : Scalar} {e : TypeExpr} :
    (m.laterElement policy path elements first e).result = .ok () ↔
      ∃ other, e.scalar? = some other ∧ (policy = .homogeneous → other = first) := by
  unfold laterElement
  rw [Traced.result_bind_eq_ok]
  refine exists_congr fun other => and_congr elementScalar_eq_ok_iff ?_
  by_cases h : other = first
  · simp [h]
  · cases policy <;> simp [h]

/-- The tuple without elements always has a schema. -/
theorem tupleSchema_nil : (m.tupleSchema policy path []).result = .ok (.scalar .array) := rfl

/-- A tuple with elements has a schema when all of them pass; the schema holds the first one's scalar and their number. -/
theorem tupleSchema_cons_eq_ok_iff {head : TypeExpr} {rest : List TypeExpr} {s : Schema} :
    (m.tupleSchema policy path (head :: rest)).result = .ok s ↔
      ∃ first, head.scalar? = some first ∧
        (∀ e ∈ rest, ∃ other, e.scalar? = some other ∧ (policy = .homogeneous → other = first)) ∧
          s = .tuple first (head :: rest).length := by
  rw [tupleSchema, Traced.result_bind_eq_ok]
  refine exists_congr fun first => and_congr elementScalar_eq_ok_iff ?_
  rw [Traced.result_bind_eq_ok]
  constructor
  · rintro ⟨_, hrest, h⟩
    cases h
    exact ⟨fun e he => laterElement_eq_ok_iff.1 (Traced.result_forM_eq_ok.1 hrest e he), rfl⟩
  · rintro ⟨hrest, rfl⟩
    exact ⟨(), Traced.result_forM_eq_ok.2 fun e he => laterElement_eq_ok_iff.2 (hrest e he), rfl⟩

/-! ## Types -/

variable {f : String → PropertyPath → Traced SchemaError Schema}

/-- A name outside a tuple stands for the class, else for the enumeration, else for the scalar of that name. -/
theorem nameSchema_eq_ok_iff {name : String} {s : Schema} :
    (m.nameSchema f path name).result = .ok s ↔
      (m.classes.contains name = true ∧ (f name path).result = .ok s) ∨
      (m.classes.contains name = false ∧ ∃ e, m.enums.get? name = some e ∧ s = .enumeration e.cases) ∨
      (m.classes.contains name = false ∧ m.enums.get? name = none ∧ ∃ t, Scalar.ofName? name = some t ∧ s = .scalar t) := by
  unfold nameSchema
  cases hc : m.classes.contains name with
  | true => simp
  | false =>
    cases he : m.enums.get? name with
    | some e => simp [eq_comm]
    | none => cases hs : Scalar.ofName? name <;> simp [eq_comm]

theorem memberSchemas_eq_mapM (ts : List TypeExpr) :
    m.memberSchemas policy f path ts = ts.mapM (m.typeSchema policy f path) := by
  induction ts with
  | nil => rfl
  | cons t ts ih => rw [memberSchemas, ih, List.mapM_cons]

theorem typeSchema_ident {name : String} : m.typeSchema policy f path (.ident name) = m.nameSchema f path name := by
  rw [typeSchema]

theorem typeSchema_tuple {elements : List TypeExpr} :
    m.typeSchema policy f path (.tuple elements) = m.tupleSchema policy path elements := by
  rw [typeSchema]

/-- A generic has a schema when it is an array and its argument has one at the items. -/
theorem typeSchema_generic_eq_ok_iff {base : String} {arg : TypeExpr} {s : Schema} :
    (m.typeSchema policy f path (.generic base arg)).result = .ok s ↔
      TypeExpr.isArrayName base = true ∧
        ∃ items, (m.typeSchema policy f path.items arg).result = .ok items ∧ s = .array items := by
  rw [typeSchema]
  split
  · rename_i h
    rw [Traced.result_bind_eq_ok]
    simp [h, eq_comm]
  · rename_i h
    simp [h]

/-- A union has a schema when all its members have one; the schema holds theirs, in order. -/
theorem typeSchema_union_eq_ok_iff {members : List TypeExpr} {s : Schema} :
    (m.typeSchema policy f path (.union members)).result = .ok s ↔
      ∃ ss : List Schema, members.map (fun t => (m.typeSchema policy f path t).result) = ss.map .ok ∧ s = .anyOf ss := by
  rw [typeSchema, memberSchemas_eq_mapM, Traced.result_bind_eq_ok]
  refine exists_congr fun ss => and_congr Traced.result_mapM_eq_ok ?_
  simp [eq_comm]

/-- A schema of a type stays its schema at any path, with any way to expand classes that gives what the first gives. -/
theorem typeSchema_ok_mono {g : String → PropertyPath → Traced SchemaError Schema}
    (hfg : ∀ name p q s, (f name p).result = .ok s → (g name q).result = .ok s) {t : TypeExpr} {path' : PropertyPath}
    {s : Schema} (h : (m.typeSchema policy f path t).result = .ok s) :
    (m.typeSchema policy g path' t).result = .ok s := by
  induction t using TypeExpr.induct generalizing path path' s with
  | ident name =>
    rw [typeSchema_ident, nameSchema_eq_ok_iff] at h ⊢
    rcases h with ⟨hc, h⟩ | h
    · exact Or.inl ⟨hc, hfg _ _ _ _ h⟩
    · exact Or.inr h
  | generic base arg ih =>
    obtain ⟨hb, items, hi, rfl⟩ := typeSchema_generic_eq_ok_iff.1 h
    exact typeSchema_generic_eq_ok_iff.2 ⟨hb, items, ih hi, rfl⟩
  | union members ih =>
    obtain ⟨ss, hss, rfl⟩ := typeSchema_union_eq_ok_iff.1 h
    refine typeSchema_union_eq_ok_iff.2 ⟨ss, ?_, rfl⟩
    rw [← hss]
    refine List.map_congr_left ?_
    intro t ht
    obtain ⟨s, -, hs⟩ := Traced.exists_value_of_map_eq hss ht
    rw [hs]
    exact ih t ht hs
  | tuple elements =>
    rw [typeSchema_tuple] at h ⊢
    cases elements with
    | nil => exact h
    | cons head rest => exact tupleSchema_cons_eq_ok_iff.2 (tupleSchema_cons_eq_ok_iff.1 h)

/-! ## Properties and classes -/

/-- A property with a type reports it and then becomes what the type becomes. -/
theorem propertySchema_of_expr? {p : Property} {t : TypeExpr} (h : p.expr? = some t) :
    m.propertySchema policy f path p = (do
      .report (.property (path.property p.name) t)
      return (p.name, ← m.typeSchema policy f (path.property p.name) t)) := by
  obtain ⟨text, hannotations, hparse⟩ := Property.expr?_eq_some_iff.1 h
  rw [propertySchema, Property.declaredType_eq_ok_iff.2 hannotations]
  dsimp only
  rw [hparse]

/-- A property has a schema when it has a type and the type has one at the property's path. -/
theorem propertySchema_eq_ok_iff {p : Property} {field : String × Schema} :
    (m.propertySchema policy f path p).result = .ok field ↔
      field.1 = p.name ∧
        ∃ t, p.expr? = some t ∧ (m.typeSchema policy f (path.property p.name) t).result = .ok field.2 := by
  unfold propertySchema Property.expr?
  cases hd : p.declaredType with
  | error n => simp
  | ok text =>
    dsimp only
    cases hp : TypeExpr.parse text with
    | error e => simp [Except.toOption]
    | ok t =>
      dsimp only
      rw [Traced.result_report_bind, Traced.result_bind_eq_ok]
      obtain ⟨name, schema⟩ := field
      simp only [Traced.result_pure, Except.ok.injEq, Prod.mk.injEq, Except.toOption, Option.some.injEq, exists_eq_left']
      constructor
      · rintro ⟨s, hs, rfl, rfl⟩
        exact ⟨rfl, hs⟩
      · rintro ⟨rfl, hs⟩
        exact ⟨schema, hs, rfl, rfl⟩

/-- How a class found inside the class `name` is expanded, while `active` are open around `name`. -/
def inner (m : Model) (options : ExpansionOptions) (active : List String) (name : String) :
    String → PropertyPath → Traced SchemaError Schema :=
  fun d path => m.expand options (active ++ [name]) d path

/-- The refusals of a class before its properties are looked at. -/
theorem expand_eq {options : ExpansionOptions} {active : List String} {name : String} :
    m.expand options active name path =
      match m.classes.get? name with
      | none => failAt path (.unknownReference name)
      | some c =>
        if name ∈ active then failAt path (.cycle (active.dropWhile (· != name) ++ [name]))
        else if options.maxDepth < active.length then failAt path (.depthLimit options.maxDepth)
        else do
          .report (.expandingClass name (active.length + 1))
          let properties ← c.properties.mapM (m.propertySchema options.tuplePolicy (m.inner options active name) path)
          return .object name properties := by
  rw [expand]
  cases hc : m.classes.get? name with
  | none => rfl
  | some c =>
    dsimp only
    split <;> rfl

/-- A class has a schema when it is registered, is not open, is not too deep, and all its properties have schemas. -/
theorem expand_eq_ok_iff {options : ExpansionOptions} {active : List String} {name : String} {s : Schema} :
    (m.expand options active name path).result = .ok s ↔
      ∃ c, m.classes.get? name = some c ∧ name ∉ active ∧ active.length ≤ options.maxDepth ∧
        ∃ fields : List (String × Schema),
          c.properties.map (fun p =>
            (m.propertySchema options.tuplePolicy (m.inner options active name) path p).result) = fields.map .ok ∧
          s = .object name fields := by
  rw [expand_eq]
  cases hc : m.classes.get? name with
  | none => simp
  | some c =>
    dsimp only
    by_cases ha : name ∈ active
    · simp [ha]
    · by_cases hd : options.maxDepth < active.length
      · simp [ha, hd, Nat.not_le.2 hd]
      · rw [if_neg ha, if_neg hd, Traced.result_report_bind, Traced.result_bind_eq_ok]
        simp only [Option.some.injEq, ha, not_false_eq_true, Nat.not_lt.1 hd, true_and, exists_eq_left']
        refine exists_congr fun fields => and_congr Traced.result_mapM_eq_ok ?_
        simp [eq_comm]

/-- A class that has a schema while classes are open around it has the same schema, at any path, while fewer of those
classes are open. -/
theorem expand_ok_mono {options : ExpansionOptions} {active active' : List String} {name : String}
    {path' : PropertyPath} {s : Schema} (hsub : active' ⊆ active) (hlen : active'.length ≤ active.length)
    (h : (m.expand options active name path).result = .ok s) :
    (m.expand options active' name path').result = .ok s := by
  -- The classes that are not open become fewer with every class inside, whatever the paths are.
  induction hn : (m.unopened active).length using Nat.strong_induction_on generalizing active active' name path path' s with
  | h n ih =>
    subst hn
    obtain ⟨c, hc, ha, hd, fields, hfields, rfl⟩ := expand_eq_ok_iff.1 h
    refine expand_eq_ok_iff.2 ⟨c, hc, fun ha' => ha (hsub ha'), hlen.trans hd, fields, ?_, rfl⟩
    rw [← hfields]
    refine List.map_congr_left ?_
    intro p hp
    obtain ⟨field, -, hfield⟩ := Traced.exists_value_of_map_eq hfields hp
    rw [hfield]
    obtain ⟨hname, t, ht, hs⟩ := propertySchema_eq_ok_iff.1 hfield
    refine propertySchema_eq_ok_iff.2 ⟨hname, t, ht, typeSchema_ok_mono ?_ hs⟩
    intro d p q v hv
    refine ih _ (length_unopened_lt (mem_names_of_get? hc) ha) ?_ ?_ hv rfl
    · exact List.append_subset.2 ⟨List.Subset.trans hsub (List.subset_append_left _ _), List.subset_append_right _ _⟩
    · simpa using hlen

end Model

end ClassSchema
