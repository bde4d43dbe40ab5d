import ClassSchema.Proofs.CompactText
import ClassSchema.Proofs.Loading
import ClassSchema.Proofs.TaggedType

/-!
# The format of model files

What a model file looks like and what it declares, said about a value and without any reading (`FileForm`): an object with
the sections under their names, or an array of them. In a section stand the declarations, in the order of its members, and an
annotation is written in one of three forms (`AnnotationsForm`).

Where no object repeats a name, what the decoder makes of a value is this format (`fileForm_iff`). So a value is accepted from
its compact text exactly if it has the format, and the model that is loaded then declares what the value does
(`ModelFile.parse_compact`).
-/

namespace ClassSchema

open Decoder

/-! ## The format -/

/-- An object lists these, one for each of its members and in their order. -/
def Lists {α : Type} (Form : String × Json → α → Prop) (v : Json) (xs : List α) : Prop :=
  ∃ members, v = .object members ∧ List.Forall₂ Form members xs

/-- An enumeration is written as an array of its cases. -/
def EnumForm (entry : String × Json) (e : EnumDecl) : Prop :=
  entry.1 = e.name ∧ entry.2 = .array (e.cases.map .string)

/-- The annotations of a property are written as the only one, as an array, or as the doc comment that declares them; what
else stands beside the comment does not count. -/
inductive AnnotationsForm : Json → List String → Prop where
  | one (written : String) : AnnotationsForm (.string written) [written]
  | many (written : List String) : AnnotationsForm (.array (written.map .string)) written
  | doc {members : List (String × Json)} {comment : String} :
      ("doc", .string comment) ∈ members → AnnotationsForm (.object members) (DocComment.annotations comment)

/-- A property is written as its annotations. -/
def PropertyForm (entry : String × Json) (p : Property) : Prop :=
  entry.1 = p.name ∧ AnnotationsForm entry.2 p.annotations

/-- A class is written as an object that lists its properties. -/
def ClassForm (entry : String × Json) (c : ClassDecl) : Prop :=
  entry.1 = c.name ∧ Lists PropertyForm entry.2 c.properties

/-- A section is written under its name, or it is absent and empty. -/
def SectionForm {α : Type} (name : String) (Form : String × Json → α → Prop) (members : List (String × Json))
    (xs : List α) : Prop :=
  (∃ v, (name, v) ∈ members ∧ Lists Form v xs) ∨ name ∉ members.map (·.1) ∧ xs = []

/-- A model file is written as an object with its sections, or as an array of them; those at the end of the array may be
absent. -/
inductive FileForm : Json → List EnumDecl → List ClassDecl → Prop where
  | object {members : List (String × Json)} {enums : List EnumDecl} {classes : List ClassDecl} :
      (∀ entry ∈ members, entry.1 = "enums" ∨ entry.1 = "classes") → SectionForm "enums" EnumForm members enums →
      SectionForm "classes" ClassForm members classes → FileForm (.object members) enums classes
  | emptyArray : FileForm (.array []) [] []
  | enumsArray {e : Json} {enums : List EnumDecl} : Lists EnumForm e enums → FileForm (.array [e]) enums []
  | array {e c : Json} {enums : List EnumDecl} {classes : List ClassDecl} :
      Lists EnumForm e enums → Lists ClassForm c classes → FileForm (.array [e, c]) enums classes

/-- No object in a value repeats a name. -/
def Json.KeysDistinct (v : Json) : Prop := ∀ members, Part (.object members) v → (members.map (·.1)).Nodup

theorem Json.KeysDistinct.of_mem_items {v : Json} {items : List Json} (h : (array items).KeysDistinct) (hv : v ∈ items) :
    v.KeysDistinct := fun members hpart => h members (.item hv hpart)

theorem Json.KeysDistinct.of_mem_members {entry : String × Json} {members : List (String × Json)}
    (h : (object members).KeysDistinct) (hentry : entry ∈ members) : entry.2.KeysDistinct :=
  fun members hpart => h members (.member hentry hpart)

/-! ## Objects -/

section Lists

variable {α β : Type} {Means : Json → α → Prop} {Form : String × Json → β → Prop} {make : String × α → β}

/-- What members declare one by one is made of what they mean one by one. -/
theorem forall₂_form_iff {members : List (String × Json)}
    (h : ∀ entry ∈ members, ∀ b, Form entry b ↔ ∃ a, Means entry.2 a ∧ make (entry.1, a) = b) {bs : List β} :
    List.Forall₂ Form members bs ↔ ∃ pairs, List.Forall₂ (MemberMeans Means) members pairs ∧ pairs.map make = bs := by
  induction members generalizing bs with
  | nil => simp [List.forall₂_nil_left_iff, eq_comm]
  | cons entry members ih =>
    rw [List.forall_mem_cons] at h
    constructor
    · intro hforms
      obtain ⟨b, bs, hb, hbs, rfl⟩ := List.forall₂_cons_left_iff.1 hforms
      obtain ⟨a, hmeans, rfl⟩ := (h.1 b).1 hb
      obtain ⟨pairs, hpairs, rfl⟩ := (ih h.2).1 hbs
      exact ⟨(entry.1, a) :: pairs, .cons ⟨rfl, hmeans⟩ hpairs, rfl⟩
    · rintro ⟨pairs, hpairs, rfl⟩
      obtain ⟨⟨name, a⟩, pairs, ⟨rfl, hmeans⟩, hrest, rfl⟩ := List.forall₂_cons_left_iff.1 hpairs
      exact .cons ((h.1 _).2 ⟨a, hmeans, rfl⟩) ((ih h.2).2 ⟨pairs, hrest, rfl⟩)

/-- What an object without repeated names lists is made of what it means. -/
theorem lists_iff {v : Json} (hkeys : v.KeysDistinct)
    (h : ∀ members, v = .object members → ∀ entry ∈ members, ∀ b,
      Form entry b ↔ ∃ a, Means entry.2 a ∧ make (entry.1, a) = b) {bs : List β} :
    Lists Form v bs ↔ ∃ found, MapMeans Means v found ∧ found.map make = bs := by
  constructor
  · rintro ⟨members, rfl, hforms⟩
    obtain ⟨pairs, hpairs, rfl⟩ := (forall₂_form_iff (h members rfl)).1 hforms
    have hnodup := hkeys members .self
    rw [map_fst_eq hpairs] at hnodup
    exact ⟨pairs, ⟨members, pairs, rfl, hpairs, (gathered_eq_self hnodup).symm⟩, rfl⟩
  · rintro ⟨found, ⟨members, pairs, rfl, hpairs, rfl⟩, rfl⟩
    have hnodup := hkeys members .self
    rw [map_fst_eq hpairs] at hnodup
    rw [gathered_eq_self hnodup]
    exact ⟨members, rfl, (forall₂_form_iff (h members rfl)).2 ⟨pairs, hpairs, rfl⟩⟩

end Lists

/-! ## Sections -/

/-- Enumerations are declared as they are decoded. -/
theorem lists_enumForm_iff {v : Json} (hkeys : v.KeysDistinct) {enums : List EnumDecl} :
    Lists EnumForm v enums ↔ ∃ found, ModelFile.EnumsMean v found ∧ found.map (fun e => ⟨e.1, e.2⟩) = enums := by
  refine lists_iff hkeys ?_
  rintro members - ⟨name, w⟩ - ⟨name', cases⟩
  constructor
  · rintro ⟨rfl, hw⟩
    exact ⟨cases, hw, rfl⟩
  · rintro ⟨cases', hw, heq⟩
    cases heq
    exact ⟨rfl, hw⟩

theorem string?_eq_some_iff {v : Json} {s : String} : v.string? = some s ↔ v = .string s := by
  cases v <;> simp [Json.string?]

/-- Strings are read from an array of them only. -/
theorem mapM_string?_eq_some_iff {items : List Json} {ss : List String} :
    items.mapM Json.string? = some ss ↔ items = ss.map .string := by
  induction items generalizing ss with
  | nil => simp [List.mapM_nil, eq_comm]
  | cons v items ih =>
    simp only [List.mapM_cons, Option.bind_eq_bind, Option.bind_eq_some_iff, ih, string?_eq_some_iff, Option.pure_def,
      Option.some.injEq]
    constructor
    · rintro ⟨s, rfl, ss, rfl, rfl⟩
      rfl
    · intro h
      obtain ⟨s, ss, rfl, rfl, rfl⟩ := List.map_eq_cons_iff.1 h.symm
      exact ⟨s, rfl, ss, rfl, rfl⟩

/-- Where names are distinct, the members of a name are the only one. -/
theorem filter_eq_singleton {members : List (String × Json)} {name : String} {v : Json}
    (hnodup : (members.map (·.1)).Nodup) (h : (name, v) ∈ members) : members.filter (·.1 == name) = [(name, v)] := by
  induction members with
  | nil => nomatch h
  | cons entry members ih =>
    rw [List.map_cons, List.nodup_cons] at hnodup
    rcases List.mem_cons.1 h with rfl | h
    · have hnone : members.filter (·.1 == name) = [] := by
        rw [List.filter_eq_nil_iff]
        intro entry hentry heq
        have hmem : entry.1 ∈ members.map (·.1) := List.mem_map_of_mem hentry
        exact hnodup.1 (beq_iff_eq.1 heq ▸ hmem)
      simp [hnone]
    · have hne : entry.1 ≠ name := by
        intro heq
        have hmem : name ∈ members.map (·.1) := List.mem_map_of_mem h
        exact hnodup.1 (heq ▸ hmem)
      simp [hne, ih hnodup.2 h]

/-- Annotations are declared as they are decoded. -/
theorem annotationsForm_iff {v : Json} (hkeys : v.KeysDistinct) (name : String) {annotations : List String} :
    AnnotationsForm v annotations ↔
      ∃ spec, PropertySpec.ofJson? v = some spec ∧ (spec.toProperty name).annotations = annotations := by
  constructor
  · intro h
    cases h with
    | one written => exact ⟨.one written, rfl, rfl⟩
    | many =>
      refine ⟨.many annotations, ?_, rfl⟩
      rw [PropertySpec.ofJson?, mapM_string?_eq_some_iff.2 rfl, Option.map_some]
    | @doc members comment hdoc =>
      refine ⟨.doc comment, ?_, rfl⟩
      rw [PropertySpec.ofJson?, filter_eq_singleton (hkeys members .self) hdoc]
  · rintro ⟨spec, hspec, rfl⟩
    cases v with
    | null | bool b | number n => nomatch hspec
    | string written =>
      cases hspec
      exact .one written
    | array items =>
      obtain ⟨written, hwritten, rfl⟩ := Option.map_eq_some_iff.1 hspec
      rw [mapM_string?_eq_some_iff.1 hwritten]
      exact .many written
    | object members =>
      rw [PropertySpec.ofJson?] at hspec
      split at hspec
      · next found comment hfilter =>
        cases hspec
        have hmem : (found, .string comment) ∈ members.filter (·.1 == "doc") := hfilter ▸ List.mem_singleton_self _
        obtain ⟨hmem, hname⟩ := List.mem_filter.1 hmem
        exact .doc (beq_iff_eq.1 hname ▸ hmem)
      · nomatch hspec

theorem Property.ext_parts {p q : Property} (hname : p.name = q.name) (h : p.annotations = q.annotations) : p = q := by
  cases p
  cases q
  cases hname
  cases h
  rfl

/-- A property is declared as it is decoded, where not too many brackets are open. -/
theorem propertyForm_iff {entry : String × Json} (hkeys : entry.2.KeysDistinct) (hdepth : entry.2.depth < 100)
    {p : Property} :
    PropertyForm entry p ↔ ∃ spec, ModelFile.PropertyMeans entry.2 spec ∧ spec.toProperty entry.1 = p := by
  have hroom : entry.2.depth ≤ ModelFile.maxBrackets - 3 := Nat.le_trans (Nat.le_of_lt hdepth) (by decide)
  rw [PropertyForm, annotationsForm_iff hkeys entry.1]
  constructor
  · rintro ⟨hname, spec, hspec, hannotations⟩
    exact ⟨spec, ⟨hroom, hspec⟩, Property.ext_parts ((spec.name_toProperty entry.1).trans hname) hannotations⟩
  · rintro ⟨spec, ⟨-, hspec⟩, rfl⟩
    exact ⟨(spec.name_toProperty entry.1).symm, spec, hspec, rfl⟩

/-- A class is declared as it is decoded. -/
theorem lists_propertyForm_iff {v : Json} (hkeys : v.KeysDistinct) (hdepth : v.depth < 100) {properties : List Property} :
    Lists PropertyForm v properties ↔
      ∃ found, ModelFile.ClassMeans v found ∧ found.map (fun p => p.2.toProperty p.1) = properties := by
  refine lists_iff hkeys ?_
  rintro members rfl entry hentry p
  refine propertyForm_iff (hkeys.of_mem_members hentry) ?_
  exact Nat.lt_of_le_of_lt (Json.memberDepth_le_iff.1 (Nat.le_refl _) entry hentry) (Nat.lt_of_succ_lt hdepth)

/-- Classes are declared as they are decoded. -/
theorem lists_classForm_iff {v : Json} (hkeys : v.KeysDistinct) (hdepth : v.depth < 100) {classes : List ClassDecl} :
    Lists ClassForm v classes ↔
      ∃ found, ModelFile.ClassesMean v found ∧
        found.map (fun c => ⟨c.1, c.2.map fun p => p.2.toProperty p.1⟩) = classes := by
  refine lists_iff hkeys ?_
  rintro members rfl ⟨name, w⟩ hentry ⟨name', properties⟩
  have hw : w.depth < 100 :=
    Nat.lt_of_le_of_lt (Json.memberDepth_le_iff.1 (Nat.le_refl _) _ hentry) (Nat.lt_of_succ_lt hdepth)
  rw [ClassForm, lists_propertyForm_iff (hkeys.of_mem_members hentry) hw]
  constructor
  · rintro ⟨rfl, found, hmeans, rfl⟩
    exact ⟨found, hmeans, rfl⟩
  · rintro ⟨found, hmeans, heq⟩
    cases heq
    exact ⟨rfl, found, hmeans, rfl⟩

/-- A section is declared as it is decoded. -/
theorem sectionForm_iff {α β : Type} {Means : Json → List α → Prop} {Form : String × Json → β → Prop} {make : α → β}
    {name : String} {members : List (String × Json)}
    (h : ∀ v, (name, v) ∈ members → ∀ bs, Lists Form v bs ↔ ∃ found, Means v found ∧ found.map make = bs) {bs : List β} :
    SectionForm name Form members bs ↔
      ∃ found, Placed name Means members none found ∧ (found.getD []).map make = bs := by
  constructor
  · rintro (⟨v, hv, hlists⟩ | ⟨hname, rfl⟩)
    · obtain ⟨found, hmeans, rfl⟩ := (h v hv bs).1 hlists
      exact ⟨some found, Or.inr ⟨rfl, v, found, hv, hmeans, rfl⟩, rfl⟩
    · exact ⟨none, Or.inl ⟨hname, rfl⟩, rfl⟩
  · rintro ⟨_, ⟨hname, rfl⟩ | ⟨-, v, found, hv, hmeans, rfl⟩, rfl⟩
    · exact Or.inr ⟨hname, rfl⟩
    · exact Or.inl ⟨v, hv, (h v hv _).2 ⟨found, hmeans, rfl⟩⟩

/-! ## Files -/

section Files

variable {enums : List EnumDecl} {classes : List ClassDecl}

/-- A file that is written as an array declares what it is decoded to. -/
theorem arrayForm_iff {items : List Json} (hkeys : (Json.array items).KeysDistinct)
    (hdepth : (Json.array items).depth < 100) :
    FileForm (.array items) enums classes ↔
      ∃ f, ModelFile.ArrayMeans items f ∧ f.enumDecls = enums ∧ f.classDecls = classes := by
  have hitem : ∀ v ∈ items, v.KeysDistinct ∧ v.depth < 100 := by
    intro v hv
    exact ⟨hkeys.of_mem_items hv,
      Nat.lt_of_le_of_lt (Json.itemDepth_le_iff.1 (Nat.le_refl _) v hv) (Nat.lt_of_succ_lt hdepth)⟩
  constructor
  · intro h
    cases h with
    | emptyArray => exact ⟨{}, .absent, rfl, rfl⟩
    | enumsArray he =>
      obtain ⟨hkeys, -⟩ := hitem _ List.mem_cons_self
      obtain ⟨found, hmeans, rfl⟩ := (lists_enumForm_iff hkeys).1 he
      exact ⟨_, .enums hmeans, rfl, rfl⟩
    | array he hc =>
      obtain ⟨hkeys, -⟩ := hitem _ List.mem_cons_self
      obtain ⟨hkeys', hdepth'⟩ := hitem _ (List.mem_cons_of_mem _ List.mem_cons_self)
      obtain ⟨found, hmeans, rfl⟩ := (lists_enumForm_iff hkeys).1 he
      obtain ⟨found', hmeans', rfl⟩ := (lists_classForm_iff hkeys' hdepth').1 hc
      exact ⟨_, .both hmeans hmeans', rfl, rfl⟩
  · rintro ⟨f, hmeans, rfl, rfl⟩
    cases hmeans with
    | absent => exact .emptyArray
    | enums hmeans =>
      obtain ⟨hkeys, -⟩ := hitem _ List.mem_cons_self
      exact .enumsArray ((lists_enumForm_iff hkeys).2 ⟨_, hmeans, rfl⟩)
    | both hmeans hmeans' =>
      obtain ⟨hkeys, -⟩ := hitem _ List.mem_cons_self
      obtain ⟨hkeys', hdepth'⟩ := hitem _ (List.mem_cons_of_mem _ List.mem_cons_self)
      exact .array ((lists_enumForm_iff hkeys).2 ⟨_, hmeans, rfl⟩)
        ((lists_classForm_iff hkeys' hdepth').2 ⟨_, hmeans', rfl⟩)

/-- A file that is written as an object declares what it is decoded to. -/
theorem objectForm_iff {members : List (String × Json)} (hkeys : (Json.object members).KeysDistinct)
    (hdepth : (Json.object members).depth < 100) :
    FileForm (.object members) enums classes ↔
      ∃ found : ModelFile.Sections, Gathers ModelFile.SectionAdds {} members found ∧
        found.toFile.enumDecls = enums ∧ found.toFile.classDecls = classes := by
  have hmember : ∀ {name v}, (name, v) ∈ members → v.KeysDistinct ∧ v.depth < 100 := by
    intro name v hv
    exact ⟨hkeys.of_mem_members hv,
      Nat.lt_of_le_of_lt (Json.memberDepth_le_iff.1 (Nat.le_refl _) _ hv) (Nat.lt_of_succ_lt hdepth)⟩
  have henums : ∀ {enums}, SectionForm "enums" EnumForm members enums ↔ _ :=
    sectionForm_iff fun v hv bs => lists_enumForm_iff (hmember hv).1
  have hclasses : ∀ {classes}, SectionForm "classes" ClassForm members classes ↔ _ :=
    sectionForm_iff fun v hv bs => lists_classForm_iff (hmember hv).1 (hmember hv).2
  constructor
  · intro h
    cases h with
    | object hnames he hc =>
      obtain ⟨found, hplaced, rfl⟩ := henums.1 he
      obtain ⟨found', hplaced', rfl⟩ := hclasses.1 hc
      have hgathers : Gathers ModelFile.SectionAdds {} members ⟨found, found'⟩ :=
        ModelFile.gathers_sections_iff.2 ⟨hnames, hkeys members .self, hplaced, hplaced'⟩
      exact ⟨_, hgathers, rfl, rfl⟩
  · rintro ⟨found, hgathers, rfl, rfl⟩
    obtain ⟨hnames, -, hplaced, hplaced'⟩ := ModelFile.gathers_sections_iff.1 hgathers
    exact .object hnames (henums.2 ⟨_, hplaced, rfl⟩) (hclasses.2 ⟨_, hplaced', rfl⟩)

/-- A file declares what it is decoded to. -/
theorem fileForm_iff {v : Json} (hkeys : v.KeysDistinct) (hdepth : v.depth < 100) :
    FileForm v enums classes ↔ ∃ f, ModelFile.FileMeans v f ∧ f.enumDecls = enums ∧ f.classDecls = classes := by
  cases v with
  | null | bool b | number n | string s => exact iff_of_false nofun (by rintro ⟨f, h, -⟩; nomatch h)
  | array items =>
    rw [arrayForm_iff hkeys hdepth]
    constructor
    · rintro ⟨f, hmeans, hdecls⟩
      exact ⟨f, .array hmeans, hdecls⟩
    · rintro ⟨f, hmeans, hdecls⟩
      cases hmeans with
      | array hmeans => exact ⟨f, hmeans, hdecls⟩
  | object members =>
    rw [objectForm_iff hkeys hdepth]
    constructor
    · rintro ⟨found, hgathers, hdecls⟩
      exact ⟨_, .object hgathers, hdecls⟩
    · rintro ⟨f, hmeans, hdecls⟩
      cases hmeans with
      | object hgathers => exact ⟨_, hgathers, hdecls⟩

end Files

/-- A value without repeated names, whose numbers are integers of 64 bits and which is not too deep, is read from its compact
text exactly if it has the format of model files, and the model that is loaded then declares what the value does. -/
theorem ModelFile.parse_compact (v : Json) (hkeys : v.KeysDistinct) (hnumbers : v.OnlyIntegers64) (hdepth : v.depth < 100) :
    ((∃ f, parse v.compact = .ok f) ↔ ∃ enums classes, FileForm v enums classes) ∧
      ∀ f, parse v.compact = .ok f → ∃ m, (Model.ofFiles [f]).result = .ok m ∧
        ∀ enums classes, FileForm v enums classes ↔ m.enums.enums = enums ∧ m.classes.classes = classes := by
  have hparse : ∀ f, parse v.compact = .ok f ↔ FileMeans v f :=
    fun f => run_eq_ok_iff_means reads_file (Json.spells_compact v hnumbers)
  simp only [fileForm_iff hkeys hdepth, hparse]
  constructor
  · constructor
    · rintro ⟨f, hf⟩
      exact ⟨_, _, f, hf, rfl, rfl⟩
    · rintro ⟨_, _, f, hf, -⟩
      exact ⟨f, hf⟩
  · intro f hf
    obtain ⟨henums, hclasses, hproperties⟩ := distinct_of_fileMeans hf
    have hone : ∀ g ∈ [f], ∀ c ∈ g.classes, (c.2.map (·.1)).Nodup := by
      rintro g hg
      rw [List.mem_singleton.1 hg]
      exact hproperties
    obtain ⟨m, hm⟩ := (Model.exists_ofFiles_iff hone).2 (by simpa using ⟨hclasses, henums⟩)
    refine ⟨m, hm, ?_⟩
    obtain ⟨hmClasses, hmEnums⟩ := Model.result_ofFiles_eq_ok_iff.1 hm
    rw [List.flatMap_singleton] at hmClasses hmEnums
    intro enums classes
    constructor
    · rintro ⟨g, hg, rfl, rfl⟩
      -- Both files are read from one text.
      have heq : g = f := Except.ok.inj (((hparse g).2 hg).symm.trans ((hparse f).2 hf))
      rw [hmClasses, hmEnums, heq]
      exact ⟨rfl, rfl⟩
    · rintro ⟨rfl, rfl⟩
      exact ⟨f, hf, hmEnums.symm, hmClasses.symm⟩

/-- A file with an enumeration and with a class whose properties are written in the three forms. -/
def shapeFile : Json :=
  .object [("enums", .object [("Color", .array [.string "RED", .string "GREEN"])]),
    ("classes", .object [("Shape", .object [("color", .string "Color"), ("tags", .array [.string "string", .string "int"]),
      ("notes", .object [("since", .number (.integer 3)), ("doc", .string "@var string")])])])]

/-- The file of shapes is read, and its model declares the enumeration and the class. -/
theorem ModelFile.parse_compact_shapeFile : ∃ f m, parse shapeFile.compact = .ok f ∧ (Model.ofFiles [f]).result = .ok m ∧
    m.enums.enums = [⟨"Color", ["RED", "GREEN"]⟩] ∧
    m.classes.classes = [⟨"Shape", [⟨"color", ["Color"]⟩, ⟨"tags", ["string", "int"]⟩, ⟨"notes", ["string"]⟩]⟩] := by
  have hkeys : shapeFile.KeysDistinct := by
    intro members hpart
    simp only [shapeFile, Json.part_object_iff, Json.part_array_iff, Json.part_string_iff, Json.part_number_iff,
      List.mem_cons, List.not_mem_nil, or_false, exists_eq_or_imp, exists_eq_left, Json.object.injEq, reduceCtorEq,
      false_or] at hpart
    rcases hpart with rfl | rfl | rfl | rfl | rfl <;> decide
  have hnumbers : shapeFile.OnlyIntegers64 := by
    intro n hpart
    simp only [shapeFile, Json.part_object_iff, Json.part_array_iff, Json.part_string_iff, Json.part_number_iff,
      List.mem_cons, List.not_mem_nil, or_false, exists_eq_or_imp, exists_eq_left, Json.number.injEq, reduceCtorEq,
      false_or] at hpart
    subst hpart
    exact ⟨3, rfl, by decide, by decide⟩
  have hdepth : shapeFile.depth < 100 := by decide
  have hform : FileForm shapeFile [⟨"Color", ["RED", "GREEN"]⟩]
      [⟨"Shape", [⟨"color", ["Color"]⟩, ⟨"tags", ["string", "int"]⟩, ⟨"notes", ["string"]⟩]⟩] := by
    have hbody : DocComment.bodies "@var string".toList = ["string".toList] :=
      @DocComment.bodies_tag "string".toList (by decide)
    have hdoc : ["string"] = DocComment.annotations "@var string" := by
      rw [DocComment.annotations, hbody]
      decide
    have hproperties : Lists PropertyForm (.object [("color", .string "Color"),
        ("tags", .array [.string "string", .string "int"]),
        ("notes", .object [("since", .number (.integer 3)), ("doc", .string "@var string")])])
        [⟨"color", ["Color"]⟩, ⟨"tags", ["string", "int"]⟩, ⟨"notes", ["string"]⟩] :=
      ⟨_, rfl, .cons ⟨rfl, .one "Color"⟩ (.cons ⟨rfl, .many ["string", "int"]⟩
        (.cons ⟨rfl, hdoc ▸ .doc (by simp)⟩ .nil))⟩
    refine .object (by decide) (Or.inl ⟨_, List.mem_cons_self, _, rfl, .cons ⟨rfl, rfl⟩ .nil⟩) ?_
    exact Or.inl ⟨_, List.mem_cons_of_mem _ List.mem_cons_self, _, rfl, .cons ⟨rfl, hproperties⟩ .nil⟩
  obtain ⟨hread, hload⟩ := parse_compact shapeFile hkeys hnumbers hdepth
  obtain ⟨f, hf⟩ := hread.2 ⟨_, _, hform⟩
  obtain ⟨m, hm, hdeclares⟩ := hload f hf
  exact ⟨f, m, hf, hm, (hdeclares _ _).1 hform⟩

end ClassSchema
