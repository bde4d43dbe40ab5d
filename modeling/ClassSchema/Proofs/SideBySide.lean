import ClassSchema.Proofs.StepValues

/-!
# Two expansions side by side

Two expansions of one class under different options take the same steps until one of them does what the other does not. What is
known of a step and its counterpart is a relation between them. A relation that holds of every step that is the same in both
expansions, and that is kept when one step follows another (`Model.SideBySide`), holds of whole expansions as soon as it holds
where the options are looked at: at the tuples and at the limit (`SideBySide.expand`).

The steps that are the same in both are quiet: they raise no warning about a tuple. Such a warning is what one policy does in the
place of another.
-/

namespace ClassSchema

/-- A warning that a tuple is approximated by its first element. -/
def Event.isMixedTuple : Event → Bool
  | .mixedTuple .. => true
  | _ => false

namespace Traced

variable {ε α β : Type}

/-- The steps after a value add their events and give their result. -/
theorem bind_of_ok {x : Traced ε α} {a : α} (h : x.result = .ok a) (f : α → Traced ε β) :
    x >>= f = ⟨x.events ++ (f a).events, (f a).result⟩ := by
  simp only [bind, andThen, h]

/-- No step comes after a failure. -/
theorem bind_of_error {x : Traced ε α} {e : ε} (h : x.result = .error e) (f : α → Traced ε β) :
    x >>= f = ⟨x.events, .error e⟩ := by
  simp only [bind, andThen, h]

/-- Steps without a warning about a tuple. -/
def Quiet (x : Traced ε α) : Prop := ∀ e ∈ x.events, e.isMixedTuple = false

/-- Quiet steps have no first warning. -/
theorem Quiet.find?_eq_none {x : Traced ε α} (h : x.Quiet) : x.events.find? (·.isMixedTuple) = none := by
  rw [List.find?_eq_none]
  intro e he
  rw [h e he]
  exact Bool.false_ne_true

theorem quiet_pure (a : α) : (pure a : Traced ε α).Quiet := fun _ he => nomatch he

theorem quiet_report {e : Event} (h : e.isMixedTuple = false) : (report e : Traced ε Unit).Quiet := by
  intro e' he'
  rw [List.mem_singleton.1 he']
  exact h

end Traced

namespace Model

open Traced

theorem quiet_failAt {α : Type} (path : PropertyPath) (fault : SchemaFault) :
    (failAt path fault : Traced SchemaError α).Quiet := fun _ he => nomatch he

/-- A relation between a step and its counterpart: steps that are the same and quiet are related, and so is what follows
related steps in a related way. -/
structure SideBySide (R : (α : Type) → Traced SchemaError α → Traced SchemaError α → Prop) : Prop where
  same : ∀ {α : Type} (x : Traced SchemaError α), x.Quiet → R α x x
  bind : ∀ {α β : Type} {x y : Traced SchemaError α} {f g : α → Traced SchemaError β},
    R α x y → (∀ a, R β (f a) (g a)) → R β (x >>= f) (y >>= g)

namespace SideBySide

variable {R : (α : Type) → Traced SchemaError α → Traced SchemaError α → Prop} (hR : SideBySide R)

include hR

/-- What is done with the values of related steps. -/
theorem map {α β : Type} {x y : Traced SchemaError α} (h : R α x y) (f : α → β) :
    R β (x >>= fun a => pure (f a)) (y >>= fun a => pure (f a)) :=
  hR.bind h fun a => hR.same _ (quiet_pure (f a))

/-- A step that is reported in both. -/
theorem reported {β : Type} {e : Event} (he : e.isMixedTuple = false) {x y : Traced SchemaError β} (h : R β x y) :
    R β (.report e >>= fun _ => x) (.report e >>= fun _ => y) :=
  hR.bind (hR.same _ (quiet_report he)) fun _ => h

/-- Related steps for every entry of a list. -/
theorem mapM {α β : Type} {f g : α → Traced SchemaError β} {xs : List α} (h : ∀ x ∈ xs, R β (f x) (g x)) :
    R (List β) (xs.mapM f) (xs.mapM g) := by
  induction xs with
  | nil =>
    rw [List.mapM_nil, List.mapM_nil]
    exact hR.same _ (quiet_pure [])
  | cons x xs ih =>
    rw [List.forall_mem_cons] at h
    rw [List.mapM_cons, List.mapM_cons]
    exact hR.bind h.1 fun b => hR.map (ih h.2) (b :: ·)

variable {m : Model} {policy policy' : TuplePolicy} {f g : String → PropertyPath → Traced SchemaError Schema}
  (htuple : ∀ path elements, R Schema (m.tupleSchema policy path elements) (m.tupleSchema policy' path elements))
  (hclass : ∀ d path, R Schema (f d path) (g d path))

include hclass

/-- A name outside tuples. -/
theorem nameSchema (path : PropertyPath) (name : String) :
    R Schema (m.nameSchema f path name) (m.nameSchema g path name) := by
  unfold Model.nameSchema
  cases m.classes.contains name with
  | true => exact hclass name path
  | false =>
    cases m.enums.get? name with
    | some e => exact hR.same _ (quiet_pure _)
    | none =>
      cases Scalar.ofName? name with
      | some s => exact hR.same _ (quiet_pure _)
      | none => exact hR.same _ (quiet_failAt _ _)

include htuple

/-- A type. -/
theorem typeSchema (path : PropertyPath) (t : TypeExpr) :
    R Schema (m.typeSchema policy f path t) (m.typeSchema policy' g path t) := by
  induction t using TypeExpr.induct generalizing path with
  | ident name =>
    rw [typeSchema_ident, typeSchema_ident]
    exact hR.nameSchema hclass path name
  | generic base arg ih =>
    rw [Model.typeSchema, Model.typeSchema]
    split
    · exact hR.map (ih path.items) Schema.array
    · exact hR.same _ (quiet_failAt _ _)
  | union members ih =>
    rw [Model.typeSchema, Model.typeSchema, memberSchemas_eq_mapM, memberSchemas_eq_mapM]
    exact hR.map (hR.mapM fun t ht => ih t ht path) Schema.anyOf
  | tuple elements =>
    rw [typeSchema_tuple, typeSchema_tuple]
    exact htuple path elements

/-- A property. -/
theorem propertySchema (path : PropertyPath) (p : Property) :
    R (String × Schema) (m.propertySchema policy f path p) (m.propertySchema policy' g path p) := by
  unfold Model.propertySchema
  cases p.declaredType with
  | error found => exact hR.same _ (quiet_failAt _ _)
  | ok text =>
    dsimp only
    cases TypeExpr.parse text with
    | error e => exact hR.same _ (quiet_failAt _ _)
    | ok t => exact hR.reported rfl (hR.map (hR.typeSchema htuple hclass (path.property p.name) t) (p.name, ·))

omit hclass htuple

/-- A class. Related at the tuples and at the limit, two expansions of a class are related. -/
theorem expand {options options' : ExpansionOptions} {active : List String} {name : String} {path : PropertyPath}
    (htuple : ∀ path elements,
      R Schema (m.tupleSchema options.tuplePolicy path elements) (m.tupleSchema options'.tuplePolicy path elements))
    (hdepth : options.maxDepth ≤ options'.maxDepth)
    (hlimit : ∀ path n (y : Traced SchemaError Schema), options.maxDepth < n →
      R Schema (failAt path (.depthLimit options.maxDepth))
        (if options'.maxDepth < n then failAt path (.depthLimit options'.maxDepth) else y)) :
    R Schema (m.expand options active name path) (m.expand options' active name path) := by
  -- Both expansions open the same classes, so those that are not open become fewer in both.
  induction hn : (m.unopened active).length using Nat.strong_induction_on generalizing active name path with
  | h n ih =>
    subst hn
    rw [expand_eq, expand_eq]
    cases hc : m.classes.get? name with
    | none => exact hR.same _ (quiet_failAt _ _)
    | some c =>
      dsimp only
      by_cases ha : name ∈ active
      · rw [if_pos ha, if_pos ha]
        exact hR.same _ (quiet_failAt _ _)
      · rw [if_neg ha, if_neg ha]
        by_cases hd : options.maxDepth < active.length
        · rw [if_pos hd]
          exact hlimit path active.length _ hd
        · have hd' : ¬options'.maxDepth < active.length := fun h => hd (Nat.lt_of_le_of_lt hdepth h)
          rw [if_neg hd, if_neg hd']
          have hclass (d : String) (q : PropertyPath) :
              R Schema (m.inner options active name d q) (m.inner options' active name d q) :=
            ih _ (length_unopened_lt (mem_names_of_get? hc) ha) rfl
          exact hR.reported rfl (hR.map (hR.mapM fun p _ => hR.propertySchema htuple hclass path p) (Schema.object name))

end SideBySide

end Model

end ClassSchema
