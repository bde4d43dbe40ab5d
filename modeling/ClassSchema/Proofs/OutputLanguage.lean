import ClassSchema.Proofs.Inlining
import ClassSchema.Proofs.Printing

/-!
# The language of the output

The JSON values that are written as schemas (`Model.SchemaNode`): six forms of objects, each with exactly its keys in a fixed
order, where the values under the keys that hold schemas are of these forms again. So the forms describe everything that stands
below a schema as well (`SchemaNode.descendant`). That a list of alternatives has at least two entries is known from the reader of
annotations (`Grammar.ReadNode`), and that a counted list has at least one element from the expansion of tuples; everything else is seen
in each step. The main statement is `generate_output`.
-/

namespace ClassSchema

namespace Json

/-- The keys of an object, in order. -/
def keys : Json → List String
  | .object members => members.map (·.1)
  | _ => []

/-- The second value stands right below the first, as a schema does in a schema: as the value of a property, as the items of a
list, or as an alternative. -/
inductive Below : Json → Json → Prop where
  | property {members fields : List (String × Json)} {name : String} {node : Json} :
      ("properties", .object fields) ∈ members → (name, node) ∈ fields → Below (.object members) node
  | items {members : List (String × Json)} {node : Json} : ("items", node) ∈ members → Below (.object members) node
  | alternative {members : List (String × Json)} {nodes : List Json} {node : Json} :
      ("anyOf", .array nodes) ∈ members → node ∈ nodes → Below (.object members) node

end Json

namespace Model

open Relation (ReflTransGen)

/-- The form of a schema, and of everything below it, in the JSON that is written: exactly these keys in this order. -/
inductive SchemaNode (m : Model) : Json → Prop where
  /-- An instance of a class; the names of its properties are distinct. -/
  | object {fields : List (String × Json)} :
      (fields.map (·.1)).Nodup → (∀ field ∈ fields, SchemaNode m field.2) →
        SchemaNode m (.object [("$schema", .string Schema.draft), ("type", .string "object"),
          ("properties", .object fields)])
  /-- A value of one of the JSON types. -/
  | scalar (type : Scalar) : SchemaNode m (.object [("type", .string type.jsonType)])
  /-- One of the cases of a registered enumeration, all of which are listed. -/
  | enumeration {e : EnumDecl} : e ∈ m.enums.enums →
      SchemaNode m (.object [("type", .string "string"), ("enum", .array (e.cases.map .string))])
  /-- A list of any length. -/
  | array {items : Json} : SchemaNode m items → SchemaNode m (.object [("type", .string "array"), ("items", items)])
  /-- A list with at most so many items of a JSON type, of which one at least is allowed. -/
  | tuple (item : Scalar) {count : Nat} : 1 ≤ count →
      SchemaNode m (.object [("type", .string "array"), ("items", .object [("type", .string item.jsonType)]),
        ("maxItems", .number (.integer count))])
  /-- A value of one of two or more schemas. -/
  | anyOf {nodes : List Json} : 2 ≤ nodes.length → (∀ node ∈ nodes, SchemaNode m node) →
      SchemaNode m (.object [("anyOf", .array nodes)])

variable {m : Model} {options : ExpansionOptions}

/-! ## The language is closed -/

/-- What stands right below a value of the language is of the language. -/
theorem SchemaNode.inner {node inner : Json} (h : m.SchemaNode node) (hbelow : Json.Below node inner) :
    m.SchemaNode inner := by
  cases h with
  | @object fields _ hfields =>
    cases hbelow with
    | @property _ found _ _ hmem hfield =>
      have heq : found = fields := by simpa using hmem
      exact hfields _ (heq ▸ hfield)
    | items hmem => simp at hmem
    | alternative hmem _ => simp at hmem
  | scalar type => cases hbelow <;> simp_all
  | enumeration _ => cases hbelow <;> simp_all
  | @array items hitems =>
    cases hbelow with
    | property hmem _ => simp at hmem
    | items hmem =>
      have heq : inner = items := by simpa using hmem
      exact heq ▸ hitems
    | alternative hmem _ => simp at hmem
  | tuple item _ =>
    cases hbelow with
    | property hmem _ => simp at hmem
    | items hmem =>
      have heq : inner = .object [("type", .string item.jsonType)] := by simpa using hmem
      exact heq ▸ .scalar item
    | alternative hmem _ => simp at hmem
  | @anyOf nodes _ hnodes =>
    cases hbelow with
    | property hmem _ => simp at hmem
    | items hmem => simp at hmem
    | @alternative _ found _ hmem hnode =>
      have heq : found = nodes := by simpa using hmem
      exact hnodes _ (heq ▸ hnode)

/-- Everything below a value of the language is of the language. -/
theorem SchemaNode.descendant {node inner : Json} (h : m.SchemaNode node) (hbelow : ReflTransGen Json.Below node inner) :
    m.SchemaNode inner := by
  induction hbelow with
  | refl => exact h
  | tail _ hbelow ih => exact ih.inner hbelow

/-! ## Every schema is in the language -/

/-- A tuple becomes a list of any values, or a counted list of its first element's type. -/
theorem schemaNode_of_tupleSchema {policy : TuplePolicy} {path : PropertyPath} {elements : List TypeExpr} {s : Schema}
    (h : (m.tupleSchema policy path elements).result = .ok s) : m.SchemaNode s.toJson := by
  cases elements with
  | nil =>
    rw [tupleSchema_nil] at h
    cases h
    exact .scalar .array
  | cons head rest =>
    obtain ⟨first, -, -, rfl⟩ := tupleSchema_cons_eq_ok_iff.1 h
    rw [Schema.toJson]
    exact .tuple first (Nat.succ_le_succ (Nat.zero_le rest.length))

/-- A type that was read becomes a value of the language, if classes do. -/
theorem schemaNode_of_typeSchema {policy : TuplePolicy} {f : String → PropertyPath → Traced SchemaError Schema}
    (hf : ∀ d q v, (f d q).result = .ok v → m.SchemaNode v.toJson) {path : PropertyPath} {t : TypeExpr} {s : Schema}
    (hread : t.Everywhere Grammar.ReadNode) (h : (m.typeSchema policy f path t).result = .ok s) : m.SchemaNode s.toJson := by
  induction t using TypeExpr.induct generalizing path s with
  | ident name =>
    rw [typeSchema_ident] at h
    rcases nameSchema_eq_ok_iff.1 h with ⟨-, h⟩ | ⟨-, e, he, rfl⟩ | ⟨-, -, u, -, rfl⟩
    · exact hf _ _ _ h
    · rw [Schema.toJson]
      exact .enumeration (List.mem_of_find?_eq_some he)
    · rw [Schema.toJson]
      exact .scalar u
  | generic base arg ih =>
    obtain ⟨-, items, hitems, rfl⟩ := typeSchema_generic_eq_ok_iff.1 h
    rw [Schema.toJson]
    exact .array (ih (TypeExpr.everywhere_generic_iff.1 hread).2 hitems)
  | union members ih =>
    obtain ⟨ss, hss, rfl⟩ := typeSchema_union_eq_ok_iff.1 h
    obtain ⟨hnode, hmembers⟩ := TypeExpr.everywhere_union_iff.1 hread
    have hlength := congrArg List.length hss
    rw [List.length_map, List.length_map] at hlength
    rw [Schema.toJson, Schema.toJsonAll_eq_map]
    refine .anyOf ?_ ?_
    · rw [List.length_map, ← hlength]
      exact hnode.2 members rfl
    · intro node hnode
      obtain ⟨s, hs, rfl⟩ := List.mem_map.1 hnode
      obtain ⟨t, ht, hresult⟩ := Traced.exists_entry_of_map_eq hss hs
      exact ih t ht (hmembers t ht) hresult
  | tuple elements =>
    rw [typeSchema_tuple] at h
    exact schemaNode_of_tupleSchema h

/-- A property that has a schema has it under its own name, and the schema is of the language, if classes become such. -/
theorem schemaNode_of_propertySchema {policy : TuplePolicy} {f : String → PropertyPath → Traced SchemaError Schema}
    (hf : ∀ d q v, (f d q).result = .ok v → m.SchemaNode v.toJson) {path : PropertyPath} {p : Property}
    {field : String × Schema} (h : (m.propertySchema policy f path p).result = .ok field) :
    field.1 = p.name ∧ m.SchemaNode field.2.toJson := by
  obtain ⟨hname, t, ht, hs⟩ := propertySchema_eq_ok_iff.1 h
  obtain ⟨text, -, hparse⟩ := Property.expr?_eq_some_iff.1 ht
  exact ⟨hname, schemaNode_of_typeSchema hf (Grammar.everywhere_read_of_parse hparse) hs⟩

/-- A class becomes a value of the language, whatever classes are open around it. -/
theorem schemaNode_of_expand {active : List String} {name : String} {path : PropertyPath} {s : Schema}
    (h : (m.expand options active name path).result = .ok s) : m.SchemaNode s.toJson := by
  -- The classes that are not open become fewer with every class inside.
  induction hn : (m.unopened active).length using Nat.strong_induction_on generalizing active name path s with
  | h n ih =>
    subst hn
    obtain ⟨c, hc, ha, -, fields, hfields, rfl⟩ := expand_eq_ok_iff.1 h
    have hclasses : ∀ d q v, (m.inner options active name d q).result = .ok v → m.SchemaNode v.toJson :=
      fun d q v hv => ih _ (length_unopened_lt (mem_names_of_get? hc) ha) hv rfl
    have hnames : c.propertyNames.map some = (fields.map (·.1)).map some := by
      rw [ClassDecl.propertyNames, List.map_map]
      exact map_eq_map_some_of_ok hfields fun p _ field hfield =>
        congrArg some (schemaNode_of_propertySchema hclasses hfield).1.symm
    have hnodup : (fields.map (·.1)).Nodup := by
      rw [← (List.map_inj_right fun _ _ => Option.some.inj).1 hnames]
      exact m.classes.properties_nodup c (List.mem_of_find?_eq_some hc)
    rw [Schema.toJson, Schema.toJsonFields_eq_map]
    refine .object ?_ ?_
    · rw [List.map_map]
      exact hnodup
    · intro node hnode
      obtain ⟨field, hfield, rfl⟩ := List.mem_map.1 hnode
      obtain ⟨p, -, hresult⟩ := Traced.exists_entry_of_map_eq hfields hfield
      exact (schemaNode_of_propertySchema hclasses hresult).2

/-! ## Roots -/

/-- Every node of the language has a type or alternatives, declares the dialect exactly if it is an instance of a class, and
refers to nothing. -/
theorem SchemaNode.keys_cases {node : Json} (h : m.SchemaNode node) :
    ("type" ∈ node.keys ∨ "anyOf" ∈ node.keys) ∧
    ("$schema" ∈ node.keys ↔ ∃ fields, node = .object [("$schema", .string Schema.draft), ("type", .string "object"),
      ("properties", .object fields)]) ∧
    "$ref" ∉ node.keys := by
  cases h <;> simp [Json.keys]

/-- Every schema is in the closed language of the output. The schema of a root and everything that stands below it, as the value
of a property, as items or as an alternative, has one of the six forms with exactly its keys in order. So each has a type or
alternatives, the dialect is declared by every instance of a class and by nothing else, and nothing is referred to. -/
theorem generate_output (m : Model) (options : ExpansionOptions) (root : String) (s : Schema)
    (h : (m.generate options root).result = .ok s) (node : Json) (hnode : ReflTransGen Json.Below s.toJson node) :
    m.SchemaNode node ∧
    ("type" ∈ node.keys ∨ "anyOf" ∈ node.keys) ∧
    ("$schema" ∈ node.keys ↔ ∃ fields, node = .object [("$schema", .string Schema.draft), ("type", .string "object"),
      ("properties", .object fields)]) ∧
    "$ref" ∉ node.keys := by
  have hroot : m.SchemaNode s.toJson := schemaNode_of_expand h
  have hform : m.SchemaNode node := hroot.descendant hnode
  exact ⟨hform, hform.keys_cases⟩

/-- A model with an enumeration and a counted list. -/
def tickets : Model :=
  ⟨⟨[⟨"Ticket", [⟨"numbers", ["array{int, int}"]⟩, ⟨"colors", ["array<Color|null>"]⟩]⟩], by decide, by decide⟩,
    ⟨[⟨"Color", ["red", "blue"]⟩], by decide⟩⟩

/-- The schema of its class. -/
def ticketSchema : Schema :=
  .object "Ticket" [("numbers", .tuple .int 2),
    ("colors", .array (.anyOf [.enumeration ["red", "blue"], .scalar .null]))]

theorem generate_output_tickets :
    tickets.SchemaNode (.object [("type", .string "integer")]) ∧
      tickets.SchemaNode (.object [("type", .string "string"), ("enum", .array [.string "red", .string "blue"])]) := by
  have hresult : (tickets.generate {} "Ticket").result = .ok ticketSchema := by decide +kernel
  have hnumber : ReflTransGen Json.Below ticketSchema.toJson (.object [("type", .string "integer")]) := by
    rw [ticketSchema, Schema.toJson]
    refine .head (.property (.tail _ (.tail _ (.head _))) (.head _)) ?_
    exact .single (.items (.tail _ (.head _)))
  have hcolor : ReflTransGen Json.Below ticketSchema.toJson
      (.object [("type", .string "string"), ("enum", .array [.string "red", .string "blue"])]) := by
    rw [ticketSchema, Schema.toJson]
    refine .head (.property (.tail _ (.tail _ (.head _))) (.tail _ (.head _))) ?_
    refine .head (.items (.tail _ (.head _))) ?_
    exact .single (.alternative (.head _) (.head _))
  exact ⟨(generate_output tickets {} "Ticket" ticketSchema hresult _ hnumber).1,
    (generate_output tickets {} "Ticket" ticketSchema hresult _ hcolor).1⟩

end Model

end ClassSchema
