import ClassSchema.DocComment

/-!
# Registries: the classes and the enumerations of a model

A class has properties and an enumeration has cases, both in the order declared. A property is declared with all the
annotations that were found for it; one that is usable has exactly one (`Property.declaredType`).

A registry holds declarations in order, under distinct names; the properties of a class have distinct names too. That
is part of the type, so whoever holds a registry need not check it again. `ClassRegistry.ofList` and
`EnumRegistry.ofList` build one from any list of declarations or name the first that repeats a name. Within one class a
repeated property comes before a repeated class name.
-/

namespace ClassSchema

/-! ## Declarations -/

/-- A property and every annotation found for it. -/
structure Property where
  name : String
  annotations : List String
  deriving DecidableEq, Repr

/-- The property whose annotations are those that a doc comment declares. -/
def Property.ofDocComment (name doc : String) : Property := ⟨name, DocComment.annotations doc⟩

/-- The only annotation of a property, or the number of its annotations. -/
def Property.declaredType (p : Property) : Except Nat String :=
  match p.annotations with
  | [one] => .ok one
  | several => .error several.length

/-- A class and its properties. -/
structure ClassDecl where
  name : String
  properties : List Property
  deriving DecidableEq, Repr

/-- The names of the properties of a class. -/
def ClassDecl.propertyNames (c : ClassDecl) : List String := c.properties.map (·.name)

/-- An enumeration and its cases. -/
structure EnumDecl where
  name : String
  cases : List String
  deriving DecidableEq, Repr

/-! ## Repeated names -/

/-- Why declarations make no registry. -/
inductive RegistryError where
  | duplicateClass (name : String)
  | duplicateEnum (name : String)
  | duplicateProperty (className property : String)
  deriving DecidableEq, Repr

/-- The words for a refused declaration. -/
def RegistryError.message : RegistryError → String
  | .duplicateClass name => s!"class `{name}` is declared more than once"
  | .duplicateEnum name => s!"enum `{name}` is declared more than once"
  | .duplicateProperty className property => s!"class `{className}` declares property `{property}` more than once"

/-- The first name of a list that stands before it, in `seen` or in the list. -/
def firstRepeat? (seen : List String) : List String → Option String
  | [] => none
  | name :: names => if name ∈ seen then some name else firstRepeat? (name :: seen) names

theorem firstRepeat?_eq_none_iff {seen names : List String} :
    firstRepeat? seen names = none ↔ names.Nodup ∧ ∀ n ∈ names, n ∉ seen := by
  induction names generalizing seen with
  | nil => simp [firstRepeat?]
  | cons name names ih =>
    rw [firstRepeat?]
    split
    · rename_i h
      simp [h]
    · rename_i h
      rw [ih, List.nodup_cons]
      constructor
      · rintro ⟨hn, hs⟩
        refine ⟨⟨fun hm => hs name hm List.mem_cons_self, hn⟩, fun n hm => ?_⟩
        rcases List.mem_cons.1 hm with rfl | hm
        · exact h
        · exact fun hsn => hs n hm (List.mem_cons_of_mem _ hsn)
      · rintro ⟨⟨hnn, hn⟩, hs⟩
        refine ⟨hn, fun n hm hc => ?_⟩
        rcases List.mem_cons.1 hc with rfl | hc
        · exact hnn hm
        · exact hs n (List.mem_cons_of_mem _ hm) hc

/-! ## Classes -/

/-- Classes under distinct names, each with properties of distinct names. -/
structure ClassRegistry where
  classes : List ClassDecl
  names_nodup : (classes.map (·.name)).Nodup
  properties_nodup : ∀ c ∈ classes, c.propertyNames.Nodup

namespace ClassRegistry

/-- The first fault of a list of classes, given the names of the classes before it. -/
def firstFault? (seen : List String) : List ClassDecl → Option RegistryError
  | [] => none
  | c :: cs =>
    match firstRepeat? [] c.propertyNames with
    | some property => some (.duplicateProperty c.name property)
    | none => if c.name ∈ seen then some (.duplicateClass c.name) else firstFault? (c.name :: seen) cs

theorem firstFault?_eq_none_iff {seen : List String} {cs : List ClassDecl} :
    firstFault? seen cs = none ↔
      ((cs.map (·.name)).Nodup ∧ ∀ c ∈ cs, c.name ∉ seen) ∧ ∀ c ∈ cs, c.propertyNames.Nodup := by
  induction cs generalizing seen with
  | nil => simp [firstFault?]
  | cons c cs ih =>
    rw [firstFault?]
    split
    · rename_i p hp
      have : ¬c.propertyNames.Nodup := fun h => by
        rw [firstRepeat?_eq_none_iff.2 ⟨h, by simp⟩] at hp
        cases hp
      simp [this]
    · rename_i hp
      have hc := (firstRepeat?_eq_none_iff.1 hp).1
      split
      · rename_i h
        simp [h]
      · rename_i h
        rw [ih, List.map_cons, List.nodup_cons]
        constructor
        · rintro ⟨⟨hn, hs⟩, hp⟩
          refine ⟨⟨⟨fun hm => ?_, hn⟩, fun d hd => ?_⟩, fun d hd => ?_⟩
          · obtain ⟨d, hd, hdn⟩ := List.mem_map.1 hm
            exact hs d hd (hdn ▸ List.mem_cons_self)
          · rcases List.mem_cons.1 hd with rfl | hd
            · exact h
            · exact fun hsd => hs d hd (List.mem_cons_of_mem _ hsd)
          · rcases List.mem_cons.1 hd with rfl | hd
            · exact hc
            · exact hp d hd
        · rintro ⟨⟨⟨hnn, hn⟩, hs⟩, hp⟩
          refine ⟨⟨hn, fun d hd hm => ?_⟩, fun d hd => hp d (List.mem_cons_of_mem _ hd)⟩
          rcases List.mem_cons.1 hm with heq | hm
          · exact hnn (heq ▸ List.mem_map.2 ⟨d, hd, rfl⟩)
          · exact hs d (List.mem_cons_of_mem _ hd) hm

/-- The registry of a list of classes, or the first class that is refused. -/
def ofList (classes : List ClassDecl) : Except RegistryError ClassRegistry :=
  match h : firstFault? [] classes with
  | some e => .error e
  | none =>
    .ok ⟨classes, (firstFault?_eq_none_iff.1 h).1.1, (firstFault?_eq_none_iff.1 h).2⟩

/-- The names of the classes, in order. -/
def names (r : ClassRegistry) : List String := r.classes.map (·.name)

/-- The class of a name. -/
def get? (r : ClassRegistry) (name : String) : Option ClassDecl := r.classes.find? (·.name == name)

/-- Whether there is a class of a name. -/
def contains (r : ClassRegistry) (name : String) : Bool := (r.get? name).isSome

end ClassRegistry

/-! ## Enumerations -/

/-- Enumerations under distinct names. -/
structure EnumRegistry where
  enums : List EnumDecl
  names_nodup : (enums.map (·.name)).Nodup

namespace EnumRegistry

/-- The registry of a list of enumerations, or the first that repeats a name. -/
def ofList (enums : List EnumDecl) : Except RegistryError EnumRegistry :=
  match h : firstRepeat? [] (enums.map (·.name)) with
  | some name => .error (.duplicateEnum name)
  | none => .ok ⟨enums, (firstRepeat?_eq_none_iff.1 h).1⟩

/-- The names of the enumerations, in order. -/
def names (r : EnumRegistry) : List String := r.enums.map (·.name)

/-- The enumeration of a name. -/
def get? (r : EnumRegistry) (name : String) : Option EnumDecl := r.enums.find? (·.name == name)

/-- Whether there is an enumeration of a name. -/
def contains (r : EnumRegistry) (name : String) : Bool := (r.get? name).isSome

end EnumRegistry

end ClassSchema
