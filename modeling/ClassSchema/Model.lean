import ClassSchema.Registry

/-!
# Models

A model is a registry of classes and a registry of enumerations. A class and an enumeration may share a name; the name
then stands for the class.
-/

namespace ClassSchema

/-- The classes and the enumerations that types may name. -/
structure Model where
  classes : ClassRegistry
  enums : EnumRegistry

namespace Model

/-- The model of declarations in order. A refused class comes before a refused enumeration. -/
def ofDecls (classes : List ClassDecl) (enums : List EnumDecl) : Except RegistryError Model := do
  let classes ← ClassRegistry.ofList classes
  let enums ← EnumRegistry.ofList enums
  return ⟨classes, enums⟩

/-- The names that are those of a class and of an enumeration, in the order of the classes. -/
def sharedNames (m : Model) : List String := m.classes.names.filter m.enums.contains

end Model

end ClassSchema
