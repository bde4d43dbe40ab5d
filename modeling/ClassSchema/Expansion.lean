import ClassSchema.Log
import ClassSchema.Model
import ClassSchema.Schema
import ClassSchema.SchemaError
import ClassSchema.TypeExpr.Parser

/-!
# From a class to its schema

A class becomes an object schema in which every class it names is written out in full, and so on inside. The classes
open at a point, outermost first, are `active`: a class that is already open is a cycle, and more open classes than the
limit allows are refused. Since only a registered class that is not open is ever opened, the classes that are left
(`unopened`) become fewer at every level, and that is why the expansion ends on every model.

A name outside a tuple is looked up among the classes, then among the enumerations, then among the scalars. The
elements of a tuple must be scalars, and there a scalar's name always means the scalar.
-/

namespace ClassSchema

/-- What happens to a tuple whose elements have different types. -/
inductive TuplePolicy where
  /-- Its items all get the type of the first element. -/
  | firstElement
  /-- It is refused. -/
  | homogeneous
  deriving DecidableEq, Repr

/-- What may be chosen for an expansion. -/
structure ExpansionOptions where
  /-- How many classes may be open around a class that is expanded. -/
  maxDepth : Nat := 64
  tuplePolicy : TuplePolicy := .firstElement
  deriving DecidableEq, Repr

namespace Model

/-- A failure at a path. -/
def failAt (path : PropertyPath) (fault : SchemaFault) : Traced SchemaError α := .fail ⟨path, fault⟩

/-- The scalar that an element of a tuple names. -/
def elementScalar (m : Model) (path : PropertyPath) (element : TypeExpr) : Traced SchemaError Scalar :=
  match element with
  | .ident name =>
    match Scalar.ofName? name with
    | some s => pure s
    | none =>
      if m.classes.contains name || m.enums.contains name then
        failAt path (.unsupported element.render .compoundElement)
      else failAt path (.unknownReference name)
  | _ => failAt path (.unsupported element.render .compoundElement)

/-- An element of a tuple after the first is a scalar and, as the policy has it, of the first element's type. -/
def laterElement (m : Model) (policy : TuplePolicy) (path : PropertyPath) (elements : List TypeExpr) (first : Scalar)
    (element : TypeExpr) : Traced SchemaError Unit := do
  let other ← m.elementScalar path.items element
  if other = first then pure ()
  else match policy with
    | .firstElement => .report (.mixedTuple path first other)
    | .homogeneous => failAt path (.unsupported (TypeExpr.tuple elements).render (.mixedTuple first other))

/-- The schema of a tuple. A tuple without elements may hold anything. -/
def tupleSchema (m : Model) (policy : TuplePolicy) (path : PropertyPath) (elements : List TypeExpr) :
    Traced SchemaError Schema :=
  match elements with
  | [] => pure (.scalar .array)
  | head :: rest => do
    let first ← m.elementScalar path.items head
    rest.forM (m.laterElement policy path elements first)
    pure (.tuple first elements.length)

/-- The schema that a name stands for outside a tuple, given how a class is expanded. -/
def nameSchema (m : Model) (expandClass : String → PropertyPath → Traced SchemaError Schema) (path : PropertyPath)
    (name : String) : Traced SchemaError Schema :=
  if m.classes.contains name then expandClass name path
  else match m.enums.get? name with
    | some e => pure (.enumeration e.cases)
    | none =>
      match Scalar.ofName? name with
      | some s => pure (.scalar s)
      | none => failAt path (.unknownReference name)

mutual

/-- The schema of a type at a path, given how a class is expanded. -/
def typeSchema (m : Model) (policy : TuplePolicy) (expandClass : String → PropertyPath → Traced SchemaError Schema)
    (path : PropertyPath) : TypeExpr → Traced SchemaError Schema
  | .ident name => m.nameSchema expandClass path name
  | .generic base arg =>
    if TypeExpr.isArrayName base then do
      return .array (← typeSchema m policy expandClass path.items arg)
    else failAt path (.unsupported (TypeExpr.generic base arg).render (.genericBase base))
  | .union members => do return .anyOf (← memberSchemas m policy expandClass path members)
  | .tuple elements => m.tupleSchema policy path elements

/-- The schemas of the members of a union, in order. -/
def memberSchemas (m : Model) (policy : TuplePolicy) (expandClass : String → PropertyPath → Traced SchemaError Schema)
    (path : PropertyPath) : List TypeExpr → Traced SchemaError (List Schema)
  | [] => pure []
  | t :: ts => do
    let s ← typeSchema m policy expandClass path t
    return s :: (← memberSchemas m policy expandClass path ts)

end

/-- The schema of a property of the class at a path, under the name of the property. -/
def propertySchema (m : Model) (policy : TuplePolicy)
    (expandClass : String → PropertyPath → Traced SchemaError Schema) (path : PropertyPath) (p : Property) :
    Traced SchemaError (String × Schema) :=
  match p.declaredType with
  | .error found => failAt (path.property p.name) (.annotationCount found)
  | .ok text =>
    match TypeExpr.parse text with
    | .error e => failAt (path.property p.name) (.ofSyntaxError text e)
    | .ok expr => do
      .report (.property (path.property p.name) expr)
      return (p.name, ← m.typeSchema policy expandClass (path.property p.name) expr)

/-- The registered classes that are not open, in order. -/
def unopened (m : Model) (active : List String) : List String := m.classes.names.filter (!active.contains ·)

/-- Opening a class takes it from the classes that are left. -/
theorem unopened_append (m : Model) (active : List String) (name : String) :
    m.unopened (active ++ [name]) = (m.unopened active).filter (· != name) := by
  simp only [unopened, List.filter_filter]
  refine List.filter_congr fun n _ => ?_
  by_cases h : n = name <;> simp [h]

/-- Opening a registered class that is not open leaves fewer classes. -/
theorem length_unopened_lt {m : Model} {active : List String} {name : String} (hm : name ∈ m.classes.names)
    (ha : name ∉ active) : (m.unopened (active ++ [name])).length < (m.unopened active).length := by
  rw [unopened_append]
  exact List.length_filter_lt_length_iff_exists.2 ⟨name, by simpa [unopened] using ⟨hm, ha⟩, by simp⟩

/-- A class that is found by its name is registered under it. -/
theorem mem_names_of_get? {r : ClassRegistry} {name : String} {c : ClassDecl} (h : r.get? name = some c) :
    name ∈ r.names :=
  List.mem_map.2 ⟨c, List.mem_of_find?_eq_some h, by simpa using List.find?_some h⟩

/-- The schema of the class of a name, found at a path while the classes `active` are open around it. -/
def expand (m : Model) (options : ExpansionOptions) (active : List String) (name : String) (path : PropertyPath) :
    Traced SchemaError Schema :=
  match _found : m.classes.get? name with
  | none => failAt path (.unknownReference name)
  | some c =>
    if _open : name ∈ active then failAt path (.cycle (active.dropWhile (· != name) ++ [name]))
    else if options.maxDepth < active.length then failAt path (.depthLimit options.maxDepth)
    else do
      .report (.expandingClass name (active.length + 1))
      let properties ← c.properties.mapM (m.propertySchema options.tuplePolicy
        (fun inner innerPath => m.expand options (active ++ [name]) inner innerPath) path)
      return .object name properties
  termination_by (m.unopened active).length
  decreasing_by exact length_unopened_lt (mem_names_of_get? _found) _open

/-- The schema of the class of a name. -/
def generate (m : Model) (options : ExpansionOptions) (root : String) : Traced SchemaError Schema :=
  m.expand options [] root (.root root)

/-- Reports the names that a class and an enumeration share. -/
def reportSharedNames (m : Model) : Traced ε Unit := m.sharedNames.forM fun name => .report (.sharedName name)

end Model

end ClassSchema
