import ClassSchema.Expansion
import Mathlib.Data.List.Chain
import Mathlib.Logic.Relation

/-!
# References between classes

Which classes a class refers to (`Model.Refers`), what it takes for a type and for a class to be in order by themselves
(`Model.Admits`, `Model.WellDeclared`), and the ways from a root along references (`Model.Trail`).

A type mentions the names outside its tuples (`TypeExpr.Mentions`): only there does a name stand for a class. A trail keeps
the classes it has left, outermost first, as an expansion keeps the classes that are open. What is reachable from a root is
what a trail leads to (`reachable_iff_exists_trail`), and trails and chains of references are the same thing
(`exists_trail_iff_isChain`).
-/

namespace ClassSchema

/-! ## Types -/

namespace TypeExpr

/-- Induction over an expression, with the members of a union and the elements of a tuple in the hypotheses. -/
@[elab_as_elim]
theorem induct {P : TypeExpr → Prop} (ident : ∀ name, P (.ident name))
    (generic : ∀ base arg, P arg → P (.generic base arg))
    (union : ∀ members, (∀ t ∈ members, P t) → P (.union members))
    (tuple : ∀ elements, (∀ t ∈ elements, P t) → P (.tuple elements)) (t : TypeExpr) : P t :=
  TypeExpr.rec (motive_1 := P) (motive_2 := fun ts => ∀ t ∈ ts, P t) ident generic union tuple (by simp)
    (fun _ _ ht hts => List.forall_mem_cons.2 ⟨ht, hts⟩) t

/-- The scalar that an expression names, if it is nothing but the name of a scalar. -/
def scalar? : TypeExpr → Option Scalar
  | .ident name => Scalar.ofName? name
  | _ => none

/-- A name that stands in an expression outside any tuple. -/
inductive Mentions : TypeExpr → String → Prop where
  | ident (name : String) : Mentions (.ident name) name
  | generic {arg : TypeExpr} {name : String} (base : String) : Mentions arg name → Mentions (.generic base arg) name
  | union {members : List TypeExpr} {t : TypeExpr} {name : String} :
      t ∈ members → Mentions t name → Mentions (.union members) name

theorem mentions_ident_iff {a b : String} : Mentions (.ident a) b ↔ b = a := by
  constructor
  · intro h
    cases h
    rfl
  · rintro rfl
    exact .ident b

theorem mentions_generic_iff {base name : String} {arg : TypeExpr} :
    Mentions (.generic base arg) name ↔ Mentions arg name := by
  constructor
  · intro h
    cases h
    assumption
  · exact .generic base

theorem mentions_union_iff {members : List TypeExpr} {name : String} :
    Mentions (.union members) name ↔ ∃ t ∈ members, Mentions t name := by
  constructor
  · intro h
    cases h with
    | union ht h => exact ⟨_, ht, h⟩
  · rintro ⟨t, ht, h⟩
    exact .union ht h

/-- A tuple mentions nothing. -/
theorem not_mentions_tuple {elements : List TypeExpr} {name : String} : ¬Mentions (.tuple elements) name := nofun

/-- An expression that stands in another: the other itself, or what stands in its argument, in a member or in an element. -/
inductive Part : TypeExpr → TypeExpr → Prop where
  | self (t : TypeExpr) : Part t t
  | generic {s arg : TypeExpr} (base : String) : Part s arg → Part s (.generic base arg)
  | union {s t : TypeExpr} {members : List TypeExpr} : t ∈ members → Part s t → Part s (.union members)
  | tuple {s t : TypeExpr} {elements : List TypeExpr} : t ∈ elements → Part s t → Part s (.tuple elements)

/-- A name that is mentioned stands in the expression. -/
theorem Mentions.part {t : TypeExpr} {name : String} (h : Mentions t name) : Part (.ident name) t := by
  induction h with
  | ident => exact .self _
  | generic base _ ih => exact .generic base ih
  | union ht _ ih => exact .union ht ih

theorem part_ident_iff {s : TypeExpr} {name : String} : Part s (.ident name) ↔ s = .ident name := by
  constructor
  · intro h
    cases h
    rfl
  · rintro rfl
    exact .self _

theorem part_generic_iff {s arg : TypeExpr} {base : String} :
    Part s (.generic base arg) ↔ s = .generic base arg ∨ Part s arg := by
  constructor
  · intro h
    cases h with
    | self => exact Or.inl rfl
    | generic _ h => exact Or.inr h
  · rintro (rfl | h)
    · exact .self _
    · exact .generic base h

theorem part_union_iff {s : TypeExpr} {members : List TypeExpr} :
    Part s (.union members) ↔ s = .union members ∨ ∃ t ∈ members, Part s t := by
  constructor
  · intro h
    cases h with
    | self => exact Or.inl rfl
    | union ht h => exact Or.inr ⟨_, ht, h⟩
  · rintro (rfl | ⟨t, ht, h⟩)
    · exact .self _
    · exact .union ht h

theorem part_tuple_iff {s : TypeExpr} {elements : List TypeExpr} :
    Part s (.tuple elements) ↔ s = .tuple elements ∨ ∃ t ∈ elements, Part s t := by
  constructor
  · intro h
    cases h with
    | self => exact Or.inl rfl
    | tuple ht h => exact Or.inr ⟨_, ht, h⟩
  · rintro (rfl | ⟨t, ht, h⟩)
    · exact .self _
    · exact .tuple ht h

/-- Something holds of everything that stands in an expression. -/
def Everywhere (P : TypeExpr → Prop) (t : TypeExpr) : Prop := ∀ s, Part s t → P s

section Everywhere

variable {P : TypeExpr → Prop}

theorem everywhere_ident_iff {name : String} : Everywhere P (.ident name) ↔ P (.ident name) := by
  simp only [Everywhere, part_ident_iff, forall_eq]

theorem everywhere_generic_iff {base : String} {arg : TypeExpr} :
    Everywhere P (.generic base arg) ↔ P (.generic base arg) ∧ Everywhere P arg := by
  simp only [Everywhere, part_generic_iff, or_imp, forall_and, forall_eq]

theorem everywhere_union_iff {members : List TypeExpr} :
    Everywhere P (.union members) ↔ P (.union members) ∧ ∀ t ∈ members, Everywhere P t := by
  simp only [Everywhere, part_union_iff, or_imp, forall_and, forall_eq, forall_exists_index, and_imp]
  rw [forall_comm]
  exact and_congr_right fun _ => forall_congr' fun t => forall_comm

theorem everywhere_tuple_iff {elements : List TypeExpr} :
    Everywhere P (.tuple elements) ↔ P (.tuple elements) ∧ ∀ t ∈ elements, Everywhere P t := by
  simp only [Everywhere, part_tuple_iff, or_imp, forall_and, forall_eq, forall_exists_index, and_imp]
  rw [forall_comm]
  exact and_congr_right fun _ => forall_congr' fun t => forall_comm

end Everywhere

end TypeExpr

/-! ## Properties -/

/-- The type that the only annotation of a property writes. -/
def Property.expr? (p : Property) : Option TypeExpr :=
  match p.declaredType with
  | .ok text => (TypeExpr.parse text).toOption
  | .error _ => none

/-- The only annotation of a property is a text when its list of annotations holds that text and nothing else. -/
theorem Property.declaredType_eq_ok_iff {p : Property} {text : String} :
    p.declaredType = .ok text ↔ p.annotations = [text] := by
  unfold Property.declaredType
  split
  · rename_i one h
    simp [h]
  · rename_i h
    constructor
    · nofun
    · intro h'
      exact absurd h' (h text)

/-- Where there is no only annotation, their number is not one. -/
theorem Property.declaredType_eq_error_iff {p : Property} {n : Nat} :
    p.declaredType = .error n ↔ p.annotations.length ≠ 1 ∧ n = p.annotations.length := by
  unfold Property.declaredType
  split
  · rename_i one h
    simp [h]
  · rename_i h
    have hne : p.annotations.length ≠ 1 := by
      intro hl
      obtain ⟨one, h'⟩ := List.length_eq_one_iff.1 hl
      exact h one h'
    simp [hne, eq_comm]

/-- A property has a type when it has exactly one annotation and that annotation writes the type. -/
theorem Property.expr?_eq_some_iff {p : Property} {t : TypeExpr} :
    p.expr? = some t ↔ ∃ text, p.annotations = [text] ∧ TypeExpr.parse text = .ok t := by
  unfold Property.expr?
  cases hd : p.declaredType with
  | ok text =>
    have ha := Property.declaredType_eq_ok_iff.1 hd
    cases hp : TypeExpr.parse text <;> simp [ha, hp, Except.toOption]
  | error n =>
    have hn := (Property.declaredType_eq_error_iff.1 hd).1
    simp only [reduceCtorEq, false_iff, not_exists, not_and]
    intro text ha
    exact absurd (by rw [ha]; rfl) hn

/-! ## Classes -/

namespace Model

variable {m : Model}

/-- A class that is found by its name is registered, and a registered class is found. -/
theorem contains_iff_exists_get? {r : ClassRegistry} {name : String} :
    r.contains name = true ↔ ∃ c, r.get? name = some c := by
  rw [ClassRegistry.contains, Option.isSome_iff_exists]

/-- Class `d` refers to class `e`: the type of one of its properties has the name of the registered class `e` outside
tuples. -/
def Refers (m : Model) (d e : String) : Prop :=
  m.classes.contains e = true ∧
    ∃ c, m.classes.get? d = some c ∧ ∃ p ∈ c.properties, ∃ t, p.expr? = some t ∧ t.Mentions e

/-- A type that is in order by itself: its generics are arrays, its names outside tuples stand for something, and the
elements of its tuples are scalars, all of them the same where the policy asks for that. -/
inductive Admits (m : Model) (policy : TuplePolicy) : TypeExpr → Prop where
  | ident {name : String} :
      m.classes.contains name = true ∨ m.enums.contains name = true ∨ (∃ s, Scalar.ofName? name = some s) →
        Admits m policy (.ident name)
  | generic {base : String} {arg : TypeExpr} :
      TypeExpr.isArrayName base = true → Admits m policy arg → Admits m policy (.generic base arg)
  | union {members : List TypeExpr} : (∀ t ∈ members, Admits m policy t) → Admits m policy (.union members)
  | tuple {elements : List TypeExpr} :
      (∀ t ∈ elements, ∃ s, t.scalar? = some s) →
        (policy = .homogeneous → ∀ t ∈ elements, ∀ u ∈ elements, t.scalar? = u.scalar?) →
          Admits m policy (.tuple elements)

/-- A class that is in order by itself: each of its properties has exactly one annotation, which writes a type that is in
order by itself. -/
def WellDeclared (m : Model) (policy : TuplePolicy) (c : ClassDecl) : Prop :=
  ∀ p ∈ c.properties, ∃ t, p.expr? = some t ∧ m.Admits policy t

/-! ## Trails -/

/-- A way from a root along references: the classes it has left, outermost first, and the class it leads to. -/
inductive Trail (m : Model) (root : String) : List String → String → Prop where
  | start : Trail m root [] root
  | step {active : List String} {d e : String} : Trail m root active d → m.Refers d e → Trail m root (active ++ [d]) e

/-- A trail leads from its root, through the classes it has left, to its end. -/
theorem Trail.reachable {root d : String} {active : List String} (h : m.Trail root active d) :
    Relation.ReflTransGen m.Refers root d ∧ ∀ a ∈ active, Relation.TransGen m.Refers a d := by
  induction h with
  | start => exact ⟨.refl, by simp⟩
  | step _ hr ih =>
    refine ⟨ih.1.tail hr, ?_⟩
    intro a ha
    rcases List.mem_append.1 ha with ha | ha
    · exact (ih.2 a ha).tail hr
    · rw [List.mem_singleton] at ha
      exact ha ▸ .single hr

/-- A trail goes on along references. -/
theorem Trail.extend {root d e : String} {active : List String} (h : m.Trail root active d)
    (hr : Relation.ReflTransGen m.Refers d e) : ∃ more, m.Trail root (active ++ more) e := by
  induction hr with
  | refl => exact ⟨[], by rwa [List.append_nil]⟩
  | tail _ hr ih =>
    obtain ⟨more, ih⟩ := ih
    exact ⟨more ++ [_], by rw [← List.append_assoc]; exact ih.step hr⟩

/-- What is reachable from a root is what a trail leads to. -/
theorem reachable_iff_exists_trail {root d : String} :
    Relation.ReflTransGen m.Refers root d ↔ ∃ active, m.Trail root active d := by
  constructor
  · intro h
    obtain ⟨more, h⟩ := Trail.start.extend h
    exact ⟨_, h⟩
  · rintro ⟨active, h⟩
    exact h.reachable.1

/-- The classes of a trail, its end last, are a chain of references. -/
theorem Trail.isChain {root d : String} {active : List String} (h : m.Trail root active d) :
    (active ++ [d]).IsChain m.Refers ∧ (active ++ [d]).head? = some root := by
  induction h with
  | start => exact ⟨.singleton _, rfl⟩
  | @step active d e _ hr ih =>
    refine ⟨?_, by rw [List.head?_append, ih.2]; rfl⟩
    rw [List.append_assoc, List.singleton_append]
    refine List.isChain_append_cons_cons.2 ⟨ih.1, hr, .singleton _⟩

/-- A chain of references from the root is a trail of as many links. -/
theorem exists_trail_of_isChain {root : String} {ds : List String} (h : (root :: ds).IsChain m.Refers) :
    ∃ active d, m.Trail root active d ∧ active ++ [d] = root :: ds := by
  induction ds using List.reverseRecOn with
  | nil => exact ⟨[], root, .start, rfl⟩
  | append_singleton ds e ih =>
    rw [← List.cons_append] at h ⊢
    obtain ⟨active, d, ht, heq⟩ := ih h.left_of_append
    rw [← heq, List.append_assoc, List.singleton_append] at h
    exact ⟨active ++ [d], e, ht.step (List.isChain_append_cons_cons.1 h).2.1, by rw [heq]⟩

/-- A chain of references from a root has as many links as a trail from it has classes left behind. -/
theorem exists_trail_iff_isChain {root : String} {n : Nat} :
    (∃ active d, m.Trail root active d ∧ active.length = n) ↔
      ∃ ds : List String, (root :: ds).IsChain m.Refers ∧ ds.length = n := by
  constructor
  · rintro ⟨active, d, h, hn⟩
    obtain ⟨hc, hh⟩ := h.isChain
    obtain ⟨ds, hds⟩ := List.head?_eq_some_iff.1 hh
    refine ⟨ds, hds ▸ hc, ?_⟩
    have hl := congrArg List.length hds
    simp only [List.length_append, List.length_cons, List.length_nil] at hl
    omega
  · rintro ⟨ds, h, hn⟩
    obtain ⟨active, d, ht, heq⟩ := exists_trail_of_isChain h
    refine ⟨active, d, ht, ?_⟩
    have hl := congrArg List.length heq
    simp only [List.length_append, List.length_cons, List.length_nil] at hl
    omega

end Model

end ClassSchema
