import ClassSchema.Proofs.StepValues

/-!
# Inlining is compositional

What the schema of a class is made of. A type stands for a JSON value that depends on the model and on nothing around the
type (`Model.image?`): a class stands for the schema it has as a root, and everything else for what its parts stand for. The
main statement, `generate_inlines`, says that the schema of a root lists its properties in order, each with the value that
its type stands for, and that a class has the same schema wherever it is found and whatever classes are open around it.
-/

namespace ClassSchema

namespace Schema

theorem toJsonAll_eq_map (ss : List Schema) : toJsonAll ss = ss.map toJson := by
  induction ss with
  | nil => rfl
  | cons s ss ih => rw [toJsonAll, ih, List.map_cons]

theorem toJsonFields_eq_map (fields : List (String × Schema)) :
    toJsonFields fields = fields.map fun field => (field.1, field.2.toJson) := by
  induction fields with
  | nil => rfl
  | cons field fields ih => rw [toJsonFields, ih, List.map_cons]

end Schema

namespace Model

/-! ## What a type stands for -/

/-- What a name stands for outside tuples: the schema that its class has as a root, the cases of its enumeration, or its
scalar. -/
def nameImage? (m : Model) (options : ExpansionOptions) (name : String) : Option Json :=
  if m.classes.contains name then (m.generate options name).result.toOption.map Schema.toJson
  else match m.enums.get? name with
    | some e => some (.object [("type", .string "string"), ("enum", .array (e.cases.map .string))])
    | none => (Scalar.ofName? name).map fun s => .object [("type", .string s.jsonType)]

/-- What a tuple stands for: a list of the first element's type, with at most as many items as the tuple has elements. -/
def tupleImage? : List TypeExpr → Option Json
  | [] => some (.object [("type", .string "array")])
  | first :: rest => first.scalar?.map fun s =>
    .object [("type", .string "array"), ("items", .object [("type", .string s.jsonType)]),
      ("maxItems", .number (.integer (first :: rest).length))]

mutual

/-- What a type stands for, if all its parts stand for something. -/
def image? (m : Model) (options : ExpansionOptions) : TypeExpr → Option Json
  | .ident name => m.nameImage? options name
  | .generic base arg =>
    if TypeExpr.isArrayName base then
      (m.image? options arg).map fun items => .object [("type", .string "array"), ("items", items)]
    else none
  | .union members => (m.imageAll? options members).map fun images => .object [("anyOf", .array images)]
  | .tuple elements => tupleImage? elements

/-- What several types stand for, in order. -/
def imageAll? (m : Model) (options : ExpansionOptions) : List TypeExpr → Option (List Json)
  | [] => some []
  | t :: ts => (m.image? options t).bind fun image => (m.imageAll? options ts).map (image :: ·)

end

/-- The name of a property and what its type stands for. -/
def propertyImage? (m : Model) (options : ExpansionOptions) (p : Property) : Option (String × Json) :=
  p.expr?.bind fun t => (m.image? options t).map fun image => (p.name, image)

variable {m : Model} {options : ExpansionOptions}

/-- Several types stand for something when each of them does. -/
theorem imageAll?_eq_some_of_map {ts : List TypeExpr} {images : List Json}
    (h : ts.map (m.image? options) = images.map some) : m.imageAll? options ts = some images := by
  induction ts generalizing images with
  | nil =>
    cases images with
    | nil => rfl
    | cons image images => simp at h
  | cons t ts ih =>
    cases images with
    | nil => simp at h
    | cons image images =>
      obtain ⟨ht, hts⟩ := List.cons.inj h
      rw [imageAll?, ht, ih hts]
      rfl

/-! ## Schemas are images -/

/-- Where every result is a value, what is made of the values in order is made of the entries in order. -/
theorem map_eq_map_some_of_ok {α β γ ε : Type} {f : α → Except ε β} {g : α → Option γ} {k : β → γ} {xs : List α}
    {ys : List β} (h : xs.map f = ys.map .ok) (hg : ∀ x ∈ xs, ∀ y, f x = .ok y → g x = some (k y)) :
    xs.map g = (ys.map k).map some := by
  induction xs generalizing ys with
  | nil => cases ys <;> simp_all
  | cons x xs ih =>
    cases ys with
    | nil => simp at h
    | cons y ys =>
      obtain ⟨hx, hxs⟩ := List.cons.inj h
      rw [List.map_cons, hg x List.mem_cons_self y hx, ih hxs fun z hz => hg z (List.mem_cons_of_mem _ hz)]
      rfl

/-- A name has the schema that it stands for, if its class does. -/
theorem nameImage?_of_nameSchema {f : String → PropertyPath → Traced SchemaError Schema} {path : PropertyPath}
    {name : String} {s : Schema}
    (hf : ∀ d q v, (f d q).result = .ok v → (m.generate options d).result = .ok v)
    (h : (m.nameSchema f path name).result = .ok s) : m.nameImage? options name = some s.toJson := by
  unfold nameImage?
  rcases nameSchema_eq_ok_iff.1 h with ⟨hc, hs⟩ | ⟨hc, e, he, rfl⟩ | ⟨hc, he, t, ht, rfl⟩
  · simp [hc, hf _ _ _ hs, Except.toOption]
  · simp [hc, he, Schema.toJson]
  · simp [hc, he, ht, Schema.toJson]

/-- A tuple has the schema that it stands for. -/
theorem tupleImage?_of_tupleSchema {policy : TuplePolicy} {path : PropertyPath} {elements : List TypeExpr} {s : Schema}
    (h : (m.tupleSchema policy path elements).result = .ok s) : tupleImage? elements = some s.toJson := by
  cases elements with
  | nil =>
    rw [tupleSchema_nil] at h
    cases h
    rfl
  | cons head rest =>
    obtain ⟨first, hfirst, -, rfl⟩ := tupleSchema_cons_eq_ok_iff.1 h
    rw [tupleImage?, hfirst]
    rfl

/-- A type has the schema that it stands for, if classes are expanded as roots are. -/
theorem image?_of_typeSchema {policy : TuplePolicy} {f : String → PropertyPath → Traced SchemaError Schema}
    {path : PropertyPath} {t : TypeExpr} {s : Schema}
    (hf : ∀ d q v, (f d q).result = .ok v → (m.generate options d).result = .ok v)
    (h : (m.typeSchema policy f path t).result = .ok s) : m.image? options t = some s.toJson := by
  induction t using TypeExpr.induct generalizing path s with
  | ident name =>
    rw [typeSchema_ident] at h
    exact nameImage?_of_nameSchema hf h
  | generic base arg ih =>
    obtain ⟨hb, items, hi, rfl⟩ := typeSchema_generic_eq_ok_iff.1 h
    rw [image?, if_pos hb, ih hi, Schema.toJson]
    rfl
  | union members ih =>
    obtain ⟨ss, hss, rfl⟩ := typeSchema_union_eq_ok_iff.1 h
    have himages : members.map (m.image? options) = (ss.map Schema.toJson).map some :=
      map_eq_map_some_of_ok hss fun t ht v hv => ih t ht hv
    rw [image?, imageAll?_eq_some_of_map himages, Schema.toJson, Schema.toJsonAll_eq_map]
    rfl
  | tuple elements =>
    rw [typeSchema_tuple] at h
    rw [image?]
    exact tupleImage?_of_tupleSchema h

/-- A class has the same schema as a root. -/
theorem generate_eq_ok_of_expand {active : List String} {name : String} {path : PropertyPath} {s : Schema}
    (h : (m.expand options active name path).result = .ok s) : (m.generate options name).result = .ok s :=
  expand_ok_mono (List.nil_subset _) (Nat.zero_le _) h

/-- A property has the schema that its type stands for, if classes are expanded as roots are. -/
theorem propertyImage?_of_propertySchema {policy : TuplePolicy}
    {f : String → PropertyPath → Traced SchemaError Schema} {path : PropertyPath} {p : Property}
    {field : String × Schema} (hf : ∀ d q v, (f d q).result = .ok v → (m.generate options d).result = .ok v)
    (h : (m.propertySchema policy f path p).result = .ok field) :
    m.propertyImage? options p = some (field.1, field.2.toJson) := by
  obtain ⟨hname, t, ht, hs⟩ := propertySchema_eq_ok_iff.1 h
  rw [propertyImage?, ht, hname, Option.bind_some, image?_of_typeSchema hf hs]
  rfl

/-- Inlining is compositional and does not depend on what is around a class. The schema of a root is an object schema with
exactly the declared properties, in order, each with what its type stands for; and a class that has a schema at any path,
with any classes open around it, has the same schema as a root. -/
theorem generate_inlines (m : Model) (options : ExpansionOptions) :
    (∀ (root : String) (s : Schema), (m.generate options root).result = .ok s →
      ∃ (c : ClassDecl) (fields : List (String × Json)), m.classes.get? root = some c ∧
        s.toJson = .object [("$schema", .string Schema.draft), ("type", .string "object"),
          ("properties", .object fields)] ∧
        c.properties.map (m.propertyImage? options) = fields.map some) ∧
    ∀ (active : List String) (name : String) (path : PropertyPath) (s : Schema),
      (m.expand options active name path).result = .ok s → (m.generate options name).result = .ok s := by
  refine ⟨?_, fun active name path s h => generate_eq_ok_of_expand h⟩
  intro root s h
  obtain ⟨c, hc, -, -, fields, hfields, rfl⟩ := expand_eq_ok_iff.1 h
  refine ⟨c, fields.map fun field => (field.1, field.2.toJson), hc, ?_, ?_⟩
  · rw [Schema.toJson, Schema.toJsonFields_eq_map]
  · exact map_eq_map_some_of_ok hfields fun p _ field hfield =>
      propertyImage?_of_propertySchema (fun d q v hv => generate_eq_ok_of_expand hv) hfield

/-- A model in which two properties of a class share a class, at different depths. -/
def sharedPoint : Model :=
  ⟨⟨[⟨"Point", [⟨"x", ["float"]⟩]⟩, ⟨"Segment", [⟨"from", ["Point"]⟩, ⟨"others", ["array<Point|null>"]⟩]⟩], by decide,
    by decide⟩, ⟨[], by decide⟩⟩

theorem generate_inlines_sharedPoint :
    ∃ (c : ClassDecl) (fields : List (String × Json)), sharedPoint.classes.get? "Segment" = some c ∧
      (Schema.object "Segment" [("from", .object "Point" [("x", .scalar .float)]),
        ("others", .array (.anyOf [.object "Point" [("x", .scalar .float)], .scalar .null]))]).toJson =
          .object [("$schema", .string Schema.draft), ("type", .string "object"), ("properties", .object fields)] ∧
      c.properties.map (sharedPoint.propertyImage? {}) = fields.map some :=
  (generate_inlines sharedPoint {}).1 "Segment" _ (by decide +kernel)

end Model

end ClassSchema
