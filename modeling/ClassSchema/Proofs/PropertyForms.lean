import ClassSchema.Proofs.Agreement
import ClassSchema.Proofs.Repeats
import ClassSchema.Proofs.TaggedType

/-!
# The forms of a property

A property of a model file may be written as its annotation, as a list with this one annotation, or as a doc comment in which
the annotation stands behind a tag. All three declare the same type, and nothing that is made from the file tells them apart
(`generate_fill`).

The doc comment need not declare the same text, since blanks in it may be dropped; that is why the properties, the classes and
the models are compared up to how a type is written (`Property.Alike`, `ofDecls_congr`).
-/

namespace ClassSchema

/-! ## Declarations that are alike -/

theorem ClassDecl.Alike.propertyNames_eq {c c' : ClassDecl} (h : c.Alike c') : c.propertyNames = c'.propertyNames := by
  obtain ⟨-, h⟩ := h
  unfold ClassDecl.propertyNames
  generalize c.properties = ps, c'.properties = ps' at h
  induction h with
  | nil => rfl
  | cons h _ ih => rw [List.map_cons, List.map_cons, h.1, ih]

namespace ClassRegistry

/-- Classes that are declared alike have the same first fault, for it is told by names alone. -/
theorem firstFault?_congr {seen : List String} {cs cs' : List ClassDecl} (h : List.Forall₂ ClassDecl.Alike cs cs') :
    firstFault? seen cs = firstFault? seen cs' := by
  induction h generalizing seen with
  | nil => rfl
  | cons h _ ih => rw [firstFault?, firstFault?, h.propertyNames_eq, h.1, ih]

/-- In registries of classes that are declared alike, a name finds classes that are alike, or none in both. -/
theorem get?_alike {r r' : ClassRegistry} (h : List.Forall₂ ClassDecl.Alike r.classes r'.classes) (name : String) :
    Option.Rel ClassDecl.Alike (r.get? name) (r'.get? name) := by
  unfold get?
  generalize r.classes = cs, r'.classes = cs' at h
  induction h with
  | nil => exact .none
  | @cons c c' cs cs' h _ ih =>
    rw [List.find?_cons, List.find?_cons, ← h.1]
    cases c.name == name with
    | true => exact .some h
    | false => exact ih

end ClassRegistry

namespace Model

/-- In models whose classes are declared alike and whose enumerations are the same, every name stands for alike things. -/
theorem meaning_alike {classes classes' : ClassRegistry} (h : List.Forall₂ ClassDecl.Alike classes.classes classes'.classes)
    (enums : EnumRegistry) (name : String) :
    (meaning ⟨classes, enums⟩ name).Alike (meaning ⟨classes', enums⟩ name) := by
  unfold meaning
  have hget := ClassRegistry.get?_alike h name
  generalize classes.get? name = found, classes'.get? name = found' at hget
  cases hget with
  | some h => exact .classDecl h
  | none => exact .refl _

/-- Classes that are declared alike make models that expand every class alike, or are refused for the same reason. -/
theorem ofDecls_congr {classes classes' : List ClassDecl} (h : List.Forall₂ ClassDecl.Alike classes classes')
    (enums : List EnumDecl) (options : ExpansionOptions) (root : String) :
    (ofDecls classes enums).map (·.generate options root) = (ofDecls classes' enums).map (·.generate options root) := by
  unfold ofDecls
  cases hfault : ClassRegistry.firstFault? [] classes with
  | some e =>
    rw [ClassRegistry.ofList_eq_error_iff.2 hfault,
      ClassRegistry.ofList_eq_error_iff.2 ((ClassRegistry.firstFault?_congr h).symm.trans hfault)]
  | none =>
    have hmade {cs : List ClassDecl} (hnone : ClassRegistry.firstFault? [] cs = none) : ∃ r, ClassRegistry.ofList cs = .ok r :=
      ClassRegistry.exists_ofList_eq_ok_iff.2 (ClassRegistry.firstFault?_nil_eq_none_iff.1 hnone)
    obtain ⟨r, hr⟩ := hmade hfault
    obtain ⟨r', hr'⟩ := hmade ((ClassRegistry.firstFault?_congr h).symm.trans hfault)
    rw [hr, hr']
    cases ClassRegistry.ofList_eq_ok_iff.1 hr
    cases ClassRegistry.ofList_eq_ok_iff.1 hr'
    cases EnumRegistry.ofList enums with
    | error e => rfl
    | ok es => exact congrArg Except.ok (generate_eq_of_alike (meaning_alike h es) options root)

end Model

/-! ## A property in its place -/

/-- Model files in which it is left open how one property is written. -/
structure PropertyPlace where
  filesBefore : List ModelFile
  enums : List (String × List String)
  classesBefore : List (String × List (String × PropertySpec))
  className : String
  propertiesBefore : List (String × PropertySpec)
  propertyName : String
  propertiesAfter : List (String × PropertySpec)
  classesAfter : List (String × List (String × PropertySpec))
  filesAfter : List ModelFile

/-- Lists that differ in one entry are related one by one if that entry is. -/
theorem forall₂_middle {α : Type} {R : α → α → Prop} (hrefl : ∀ a, R a a) {a b : α} (h : R a b) (before after : List α) :
    List.Forall₂ R (before ++ a :: after) (before ++ b :: after) :=
  List.rel_append (List.forall₂_same.2 fun c _ => hrefl c) (.cons h (List.forall₂_same.2 fun c _ => hrefl c))

namespace PropertyPlace

variable {place : PropertyPlace} {spec spec' : PropertySpec}

/-- The properties of the class, with the property written in one way. -/
def properties (place : PropertyPlace) (spec : PropertySpec) : List (String × PropertySpec) :=
  place.propertiesBefore ++ (place.propertyName, spec) :: place.propertiesAfter

/-- The file of the class, with the property written in one way. -/
def file (place : PropertyPlace) (spec : PropertySpec) : ModelFile :=
  ⟨place.enums, place.classesBefore ++ (place.className, place.properties spec) :: place.classesAfter⟩

/-- The model files with the property written in one way. -/
def fill (place : PropertyPlace) (spec : PropertySpec) : List ModelFile :=
  place.filesBefore ++ place.file spec :: place.filesAfter

/-- The expansion of a class, if the files make a model, with the property written in one way. -/
def generate (place : PropertyPlace) (spec : PropertySpec) (options : ExpansionOptions) (root : String) :
    Except RegistryError (Traced SchemaError Schema) :=
  (Model.ofFiles (place.fill spec)).result.map (·.generate options root)

/-- How a property is written does not change the enumerations. -/
theorem enumDecls_fill : (place.fill spec).flatMap ModelFile.enumDecls = (place.fill spec').flatMap ModelFile.enumDecls := by
  simp only [fill, List.flatMap_append, List.flatMap_cons]
  rfl

/-- A property that is written in two ways that are alike leaves the classes alike. -/
theorem classDecls_fill (h : (spec.toProperty place.propertyName).Alike (spec'.toProperty place.propertyName)) :
    List.Forall₂ ClassDecl.Alike ((place.fill spec).flatMap ModelFile.classDecls)
      ((place.fill spec').flatMap ModelFile.classDecls) := by
  have hproperties : List.Forall₂ Property.Alike ((place.properties spec).map fun p => p.2.toProperty p.1)
      ((place.properties spec').map fun p => p.2.toProperty p.1) := by
    simp only [properties, List.map_append, List.map_cons]
    exact forall₂_middle Property.Alike.refl h _ _
  have hfile : List.Forall₂ ClassDecl.Alike (place.file spec).classDecls (place.file spec').classDecls := by
    simp only [file, ModelFile.classDecls, List.map_append, List.map_cons]
    refine forall₂_middle ClassDecl.Alike.refl ?_ _ _
    exact ⟨rfl, hproperties⟩
  have hsame (cs : List ClassDecl) : List.Forall₂ ClassDecl.Alike cs cs := List.forall₂_same.2 fun c _ => .refl c
  simp only [fill, List.flatMap_append, List.flatMap_cons]
  exact List.rel_append (hsame _) (List.rel_append hfile (hsame _))

/-- Nothing that is made from a model file tells two ways apart to write a property that are alike. -/
theorem generate_eq_of_alike (h : (spec.toProperty place.propertyName).Alike (spec'.toProperty place.propertyName))
    (options : ExpansionOptions) (root : String) : place.generate spec options root = place.generate spec' options root := by
  rw [generate, generate, Model.result_ofFiles, Model.result_ofFiles, enumDecls_fill]
  exact Model.ofDecls_congr (classDecls_fill h) _ options root

/-- The three ways to write a property agree. A type behind the first tag of a doc comment, in a text whose blanks outside
brackets join what is around them and with nothing after it that goes on with it, is the only type that the comment declares;
and no expansion, nor the failure of one, changes with the way in which a property of that type is written. -/
theorem generate_fill {before text follow : String} {t : TypeExpr} (hbefore : DocComment.Untagged before.toList)
    (hlines : ∀ c ∈ text.toList ++ follow.toList, DocComment.isLineEnd c = false) (hjoined : DocComment.Joined text.toList)
    (hfollow : DocComment.Follows follow.toList) (hparse : TypeExpr.parse text = .ok t) :
    (∃ found, DocComment.annotations (before ++ "@var " ++ text ++ follow) = [found] ∧ TypeExpr.parse found = .ok t) ∧
      ∀ (place : PropertyPlace) (options : ExpansionOptions) (root : String),
        ∀ spec ∈ [PropertySpec.many [text], .doc (before ++ "@var " ++ text ++ follow)],
          place.generate spec options root = place.generate (.one text) options root := by
  obtain ⟨found, hfound, ht⟩ := DocComment.annotations_append_tag hbefore hlines hjoined hfollow hparse
  refine ⟨⟨found, hfound, ht⟩, fun place options root spec hspec => generate_eq_of_alike ?_ options root⟩
  simp only [List.mem_cons, List.not_mem_nil, or_false] at hspec
  rcases hspec with rfl | rfl
  · exact .refl _
  · refine ⟨rfl, Or.inr ⟨t, ?_, ?_⟩⟩
    · exact Property.expr?_eq_some_iff.2 ⟨found, hfound, ht⟩
    · exact Property.expr?_eq_some_iff.2 ⟨text, rfl, hparse⟩

/-- A box whose content may be written in any way. -/
def boxContent : PropertyPlace where
  filesBefore := [⟨[("Size", ["S", "L"])], [("Shape", [("size", .one "Size")])]⟩]
  enums := []
  classesBefore := []
  className := "Box"
  propertiesBefore := [("size", .doc "/** @var Size */")]
  propertyName := "content"
  propertiesAfter := [("lid", .many ["bool"])]
  classesAfter := []
  filesAfter := []

/-- The type of the content, with blanks wherever they may stand. -/
def contentType : String := "array{ int , int }  |?  array< string > | Shape"

/-- What stands before the tag in a comment on the content. -/
def contentText : String := "/** Each @variable\tis @var\n * "

theorem generate_fill_boxContent :
    (DocComment.Untagged contentText.toList ∧
      (∀ c ∈ contentType.toList ++ " $content, @var int */".toList, DocComment.isLineEnd c = false) ∧
      DocComment.Joined contentType.toList ∧ DocComment.Follows " $content, @var int */".toList ∧
      TypeExpr.parse contentType = .ok (.union [.tuple [.ident "int", .ident "int"],
        .union [.generic "array" (.ident "string"), .ident "null"], .ident "Shape"])) ∧
    boxContent.generate (.doc (contentText ++ "@var " ++ contentType ++ " $content, @var int */")) {} "Box" =
      boxContent.generate (.one contentType) {} "Box" := by
  have hbefore : DocComment.Untagged contentText.toList := by decide +kernel
  have hlines : ∀ c ∈ contentType.toList ++ " $content, @var int */".toList, DocComment.isLineEnd c = false := by
    decide +kernel
  have hjoined : DocComment.Joined contentType.toList := by decide +kernel
  have hfollow : DocComment.Follows " $content, @var int */".toList := by decide +kernel
  have hparse : TypeExpr.parse contentType = .ok (.union [.tuple [.ident "int", .ident "int"],
      .union [.generic "array" (.ident "string"), .ident "null"], .ident "Shape"]) := by decide +kernel
  refine ⟨⟨hbefore, hlines, hjoined, hfollow, hparse⟩, ?_⟩
  exact (generate_fill hbefore hlines hjoined hfollow hparse).2 boxContent {} "Box" _ (by simp)

end PropertyPlace

end ClassSchema
