import ClassSchema.Json.Decoder
import ClassSchema.Log
import ClassSchema.Model

/-!
# Model files

A model file is a JSON text with two sections, the enumerations and the classes:

```text
{ "enums":   { "Color": ["RED", "GREEN"] },
  "classes": { "Shape": { "color": "Color", "tags": ["string", "int"], "notes": { "doc": "/** @var string */" } } } }
```

Either section may be absent. The sections may also be the items of an array, the enumerations first. A property is
written as its annotation, as a list of annotations, or as an object with the doc comment that declares them; which of
these it is can be told only when its value has been read whole.

Several files make one model: their sections are put one after the other, in the order of the files.
-/

namespace ClassSchema

/-- A property as a model file writes it. -/
inductive PropertySpec where
  /-- Its only annotation. -/
  | one (written : String)
  /-- Its annotations. -/
  | many (written : List String)
  /-- The doc comment that declares its annotations. -/
  | doc (comment : String)
  deriving DecidableEq, Repr

/-- The property of a name that is written so. -/
def PropertySpec.toProperty (name : String) : PropertySpec → Property
  | .one written => ⟨name, [written]⟩
  | .many written => ⟨name, written⟩
  | .doc comment => .ofDocComment name comment

/-- The sections of a model file, in the order written. -/
structure ModelFile where
  enums : List (String × List String) := []
  classes : List (String × List (String × PropertySpec)) := []
  deriving DecidableEq, Repr

namespace ModelFile

/-- The enumerations that a file declares. -/
def enumDecls (f : ModelFile) : List EnumDecl := f.enums.map fun e => ⟨e.1, e.2⟩

/-- The classes that a file declares. -/
def classDecls (f : ModelFile) : List ClassDecl :=
  f.classes.map fun c => ⟨c.1, c.2.map fun p => p.2.toProperty p.1⟩

end ModelFile

/-- The model of several files, in their order; that it has been loaded is reported. -/
def Model.ofFiles (files : List ModelFile) : Traced RegistryError Model := do
  let m ← .ofExcept (Model.ofDecls (files.flatMap ModelFile.classDecls) (files.flatMap ModelFile.enumDecls))
  .report (.modelLoaded m.classes.classes.length m.enums.enums.length)
  return m

/-! ## Reading a file -/

/-- The text of a JSON string. -/
def Json.string? : Json → Option String
  | .string s => some s
  | _ => none

/-- The property that a value writes. In an object, what is not the doc comment is not looked at. -/
def PropertySpec.ofJson? : Json → Option PropertySpec
  | .string s => some (.one s)
  | .array items => (items.mapM Json.string?).map .many
  | .object members =>
    match members.filter (·.1 == "doc") with
    | [(_, .string comment)] => some (.doc comment)
    | _ => none
  | _ => none

namespace ModelFile

open Decoder

/-- How many brackets may be open inside one another in a model file. -/
def maxBrackets : Nat := 127

/-- Where a failure is placed that has no position of its own: at the next token, or after it if it is the brace that
closes the object around it. -/
def nextPlace (site : JsonSite) (ts : List Lexeme) : Position :=
  match ts with
  | [] => site.textEnd
  | t :: _ => if t.token = .closeObject then t.stop else t.start

/-- A property. Three brackets are open around it: those of the file, of the classes and of its class. -/
def decodeProperty : Decoder PropertySpec := fun site ts => do
  let d ← Decoder.value (maxBrackets - 3) site ts
  match PropertySpec.ofJson? d.value with
  | some spec => return d.map fun _ => spec
  | none => site.fail .noPropertyForm (nextPlace site d.rest)

/-- The section of the enumerations. -/
def decodeEnums : Decoder (List (String × List String)) := Decoder.map (Decoder.list Decoder.string)

/-- The section of the classes. -/
def decodeClasses : Decoder (List (String × List (String × PropertySpec))) := Decoder.map (Decoder.map decodeProperty)

/-- The sections found so far. -/
structure Sections where
  enums : Option (List (String × List String)) := none
  classes : Option (List (String × List (String × PropertySpec))) := none

/-- The file with the sections found; a section that is absent is empty. -/
def Sections.toFile (s : Sections) : ModelFile := ⟨s.enums.getD [], s.classes.getD []⟩

/-- A section under its name, each at most once. -/
def decodeSection : MemberStep Sections := fun found name site ts =>
  if name = "enums" then
    if found.enums.isSome then site.fail (.duplicateField name) (nextPlace site ts)
    else (memberValue decodeEnums name site ts).map (·.map fun enums => { found with enums := some enums })
  else if name = "classes" then
    if found.classes.isSome then site.fail (.duplicateField name) (nextPlace site ts)
    else (memberValue decodeClasses name site ts).map (·.map fun classes => { found with classes := some classes })
  else (site.member name).fail (.unknownField name) (nextPlace site ts)

/-- The end of the array form after both sections. -/
def decodeArrayEnd : Decoder Unit := fun site ts =>
  match ts with
  | [] => site.fail .endInArray site.textEnd
  | t :: rest =>
    if t.token = .closeArray then .ok ⟨(), rest, length_lt_of_lexeme t rest⟩
    else if t.token = .comma then
      match rest with
      | [] => site.fail .trailingCharacters site.textEnd
      | u :: _ => site.fail (if u.token = .closeArray then .trailingComma else .trailingCharacters) u.peek
    else site.fail .trailingCharacters t.peek

/-- The array form after its opening bracket. -/
def decodeArrayForm : Decoder ModelFile := fun site ts =>
  match ts with
  | [] => site.fail .endInArray site.textEnd
  | t :: rest =>
    if t.token = .closeArray then .ok ⟨{}, rest, length_lt_of_lexeme t rest⟩
    else do
      let enums ← decodeEnums (site.item 0) (t :: rest)
      let more ← separator .array site enums.rest
      have := enums.shorter
      have := more.shorter
      if more.value then
        let classes ← decodeClasses (site.item 1) more.rest
        let stop ← decodeArrayEnd site classes.rest
        have := classes.shorter
        have := stop.shorter
        return ⟨⟨enums.value, classes.value⟩, stop.rest, by omega⟩
      else return ⟨⟨enums.value, []⟩, more.rest, by omega⟩

/-- A model file. -/
def decode : Decoder ModelFile := fun site ts =>
  match ts with
  | [] => site.fail .endInValue site.textEnd
  | t :: rest =>
    if t.token = .openObject then
      (members decodeSection {} site rest).map fun d => (d.map Sections.toFile).after (length_le_of_lexeme t rest)
    else if t.token = .openArray then (decodeArrayForm site rest).map (·.after (length_le_of_lexeme t rest))
    else wrongType site .modelFile t

/-- The model file that a text writes. -/
def parse (text : String) : Except JsonError ModelFile := decode.run text

/-- The words for a file at a path whose text is no model file. -/
def invalidMessage (path : String) (e : JsonError) : String := s!"invalid model file {path}: {e.locatedMessage}"

end ModelFile

end ClassSchema
