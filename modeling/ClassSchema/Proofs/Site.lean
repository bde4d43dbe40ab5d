import ClassSchema.Proofs.Reference

/-!
# Sites: the places of an expansion

What an expansion looks at, as a tree. A site is a class, a property, a type or an element of a tuple, together with its path
and the classes that are open there. A class has its properties below it, a property its type, an array its items, a union its
members, a tuple its elements, and a name outside tuples the class it stands for (`Model.below`). The tree is infinite where
classes are inside themselves. A site is found by its address, the list of the turns taken from the root, and the order of
addresses, in which a site stands before everything below it, is the order in which an expansion comes to the sites.

`Model.Defect` says what can be wrong at a site, by itself.
-/

namespace ClassSchema

/-- What an expansion looks at. -/
inductive Subject where
  /-- A class, by its name. -/
  | cls (name : String)
  /-- A property of a class. -/
  | property (p : Property)
  /-- A type, outside tuples. -/
  | type (t : TypeExpr)
  /-- An element of a tuple. -/
  | element (t : TypeExpr)

/-- Something that an expansion looks at, its path, and the classes that are open there, outermost first. -/
structure Site where
  path : PropertyPath
  active : List String
  subject : Subject

/-- The site of a root: the class itself, with nothing open around it. -/
def Site.root (name : String) : Site := ⟨.root name, [], .cls name⟩

namespace Model

/-- The sites right below a site, in order. -/
def below (m : Model) (site : Site) : List Site :=
  match site.subject with
  | .cls name =>
    match m.classes.get? name with
    | some c => c.properties.map fun p => ⟨site.path.property p.name, site.active ++ [name], .property p⟩
    | none => []
  | .property p => p.expr?.toList.map fun t => ⟨site.path, site.active, .type t⟩
  | .type (.ident name) => if m.classes.contains name then [⟨site.path, site.active, .cls name⟩] else []
  | .type (.generic base arg) =>
    if TypeExpr.isArrayName base then [⟨site.path.items, site.active, .type arg⟩] else []
  | .type (.union members) => members.map fun t => ⟨site.path, site.active, .type t⟩
  | .type (.tuple elements) => elements.map fun t => ⟨site.path.items, site.active, .element t⟩
  | .element _ => []

/-- The site at an address: the turns taken downwards, each the number of a site below the last one. -/
def siteAt? (m : Model) (site : Site) : List Nat → Option Site
  | [] => some site
  | i :: address => (m.below site)[i]?.bind fun next => m.siteAt? next address

variable {m : Model} {options : ExpansionOptions}

/-- One turn and the turns after it. -/
theorem siteAt?_cons_eq_some_iff {site found : Site} {i : Nat} {address : List Nat} :
    m.siteAt? site (i :: address) = some found ↔
      ∃ next, (m.below site)[i]? = some next ∧ m.siteAt? next address = some found := by
  rw [siteAt?, Option.bind_eq_some_iff]

/-! ## Defects -/

/-- A name that is that of no class and of no enumeration. -/
def Unregistered (m : Model) (name : String) : Prop :=
  m.classes.contains name = false ∧ m.enums.contains name = false

/-- What is wrong at a site, by itself. -/
inductive Defect (m : Model) (options : ExpansionOptions) : Site → SchemaFault → Prop where
  /-- The class is not registered. -/
  | unknownClass {path : PropertyPath} {active : List String} {name : String} :
      m.classes.contains name = false → Defect m options ⟨path, active, .cls name⟩ (.unknownReference name)
  /-- The class is open already; the chain goes from it, through the classes opened in it, back to it. -/
  | cycle {path : PropertyPath} {before after : List String} {name : String} :
      m.classes.contains name = true → name ∉ before →
        Defect m options ⟨path, before ++ name :: after, .cls name⟩ (.cycle (name :: after ++ [name]))
  /-- The class is not open, and more classes are open than the limit allows. -/
  | depthLimit {path : PropertyPath} {active : List String} {name : String} :
      m.classes.contains name = true → name ∉ active → options.maxDepth < active.length →
        Defect m options ⟨path, active, .cls name⟩ (.depthLimit options.maxDepth)
  /-- The property has no annotation, or several. -/
  | annotationCount {path : PropertyPath} {active : List String} {p : Property} :
      p.annotations.length ≠ 1 → Defect m options ⟨path, active, .property p⟩ (.annotationCount p.annotations.length)
  /-- The only annotation of the property is not well formed. -/
  | malformed {path : PropertyPath} {active : List String} {p : Property} {text : String} {e : SyntaxError} :
      p.annotations = [text] → TypeExpr.parse text = .error e → e.isUnsupported = false →
        Defect m options ⟨path, active, .property p⟩ (.malformed e)
  /-- The only annotation of the property has a generic with several arguments. -/
  | arity {path : PropertyPath} {active : List String} {p : Property} {text : String} {e : SyntaxError} :
      p.annotations = [text] → TypeExpr.parse text = .error e → e.isUnsupported = true →
        Defect m options ⟨path, active, .property p⟩ (.unsupported text (.arity e))
  /-- The generic is no array. -/
  | genericBase {path : PropertyPath} {active : List String} {base : String} {arg : TypeExpr} :
      TypeExpr.isArrayName base = false →
        Defect m options ⟨path, active, .type (.generic base arg)⟩
          (.unsupported (TypeExpr.generic base arg).render (.genericBase base))
  /-- The name stands for nothing. -/
  | unknownName {path : PropertyPath} {active : List String} {name : String} :
      m.Unregistered name → Scalar.ofName? name = none →
        Defect m options ⟨path, active, .type (.ident name)⟩ (.unknownReference name)
  /-- An element of the tuple is another scalar than the first, and all before it are the same as the first. -/
  | mixedTuple {path : PropertyPath} {active : List String} {head found : TypeExpr} {before after : List TypeExpr}
      {first other : Scalar} :
      options.tuplePolicy = .homogeneous → head.scalar? = some first → (∀ t ∈ before, t.scalar? = some first) →
        found.scalar? = some other → other ≠ first →
          Defect m options ⟨path, active, .type (.tuple (head :: (before ++ found :: after)))⟩
            (.unsupported (TypeExpr.tuple (head :: (before ++ found :: after))).render (.mixedTuple first other))
  /-- The element is no name, or the name of a class or of an enumeration, and no scalar. -/
  | compoundElement {path : PropertyPath} {active : List String} {t : TypeExpr} :
      t.scalar? = none → (∀ name, t = .ident name → ¬m.Unregistered name) →
        Defect m options ⟨path, active, .element t⟩ (.unsupported t.render .compoundElement)
  /-- The element is a name that stands for nothing. -/
  | unknownElement {path : PropertyPath} {active : List String} {name : String} :
      Scalar.ofName? name = none → m.Unregistered name →
        Defect m options ⟨path, active, .element (.ident name)⟩ (.unknownReference name)

/-- Where the entries before one of another kind are given by what they are not, the first such entry is fixed. -/
theorem find?_scalar_eq_some {head : Scalar} {before after : List TypeExpr} {found : TypeExpr} {other : Scalar}
    (hbefore : ∀ t ∈ before, t.scalar? = some head) (hfound : found.scalar? = some other) (hne : other ≠ head) :
    (before ++ found :: after).find? (fun t => t.scalar? != some head) = some found := by
  rw [List.find?_append]
  have hnone : before.find? (fun t => t.scalar? != some head) = none := by
    rw [List.find?_eq_none]
    intro t ht
    simp [hbefore t ht]
  rw [hnone, Option.none_or, List.find?_cons_of_pos]
  simp [hfound, hne]

/-- At most one thing is wrong at a site. -/
theorem Defect.unique {site : Site} {a b : SchemaFault} (ha : m.Defect options site a) (hb : m.Defect options site b) :
    a = b := by
  cases ha with
  | unknownClass h =>
    cases hb with
    | unknownClass => rfl
    | cycle h' => simp [h] at h'
    | depthLimit h' => simp [h] at h'
  | @cycle path before after name h hn =>
    generalize hl : before ++ name :: after = active at hb
    cases hb with
    | unknownClass h' => simp [h] at h'
    | @cycle _ before' after' _ h' hn' =>
      have hd := congrArg (List.dropWhile (· != name)) hl
      rw [List.dropWhile_append_of_pos (by simpa using fun a ha (h : a = name) => hn (h ▸ ha)),
        List.dropWhile_append_of_pos (by simpa using fun a ha (h : a = name) => hn' (h ▸ ha))] at hd
      simp only [bne_self_eq_false, Bool.false_eq_true, not_false_eq_true, List.dropWhile_cons_of_neg, List.cons.injEq,
        true_and] at hd
      rw [hd]
    | depthLimit _ hn' _ => exact absurd (hl ▸ List.mem_append_right _ List.mem_cons_self) hn'
  | @depthLimit path active name h hn hd =>
    cases hb with
    | unknownClass h' => simp [h] at h'
    | cycle => exact absurd (List.mem_append_right _ List.mem_cons_self) hn
    | depthLimit => rfl
  | annotationCount h =>
    cases hb with
    | annotationCount => rfl
    | malformed ha => simp [ha] at h
    | arity ha => simp [ha] at h
  | malformed ha hp hu =>
    cases hb with
    | annotationCount h => simp [ha] at h
    | malformed ha' hp' =>
      cases ha.symm.trans ha'
      cases hp.symm.trans hp'
      rfl
    | arity ha' hp' hu' =>
      cases ha.symm.trans ha'
      cases hp.symm.trans hp'
      simp [hu] at hu'
  | arity ha hp hu =>
    cases hb with
    | annotationCount h => simp [ha] at h
    | malformed ha' hp' hu' =>
      cases ha.symm.trans ha'
      cases hp.symm.trans hp'
      simp [hu] at hu'
    | arity ha' hp' =>
      cases ha.symm.trans ha'
      cases hp.symm.trans hp'
      rfl
  | genericBase =>
    cases hb
    rfl
  | unknownName =>
    cases hb
    rfl
  | @mixedTuple path active head found before after first other _ hfirst hbefore hfound hne =>
    generalize hl : before ++ found :: after = rest at hb
    cases hb with
    | @mixedTuple _ _ _ found' before' after' first' other' _ hfirst' hbefore' hfound' hne' =>
      cases hfirst.symm.trans hfirst'
      have hfind : (before ++ found :: after).find? (fun t => t.scalar? != some first) = some found :=
        find?_scalar_eq_some hbefore hfound hne
      rw [hl, find?_scalar_eq_some hbefore' hfound' hne'] at hfind
      cases hfind
      cases hfound.symm.trans hfound'
      rfl
  | compoundElement hs hr =>
    cases hb with
    | compoundElement => rfl
    | unknownElement _ hu => exact absurd hu (hr _ rfl)
  | unknownElement _ hu =>
    cases hb with
    | compoundElement _ hr => exact absurd hu (hr _ rfl)
    | unknownElement => rfl

end Model

end ClassSchema
