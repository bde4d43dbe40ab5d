import ClassSchema.ModelFile
import ClassSchema.Proofs.Outcome
import Mathlib.Data.List.Nodup

/-!
# Repeated declarations

A list of declarations makes a registry unless a name is repeated, and the registry holds the whole list. Of several faults the
first is named: the faulty class is the first one that cannot stand after those before it
(`ClassRegistry.firstFault?_eq_some_iff`), and of the two faults that one class can have, a repeated property comes first
(`ClassFault`).

Model files are merged before a registry is made, so only the order of all their declarations matters, not how it is divided
into files (`Model.ofFiles_splitInto`).

The main statement is `Model.registries_reject_exactly_repeats`.
-/

namespace ClassSchema

/-! ## Names -/

/-- A name of a list that stands before it too, while the names before it are distinct. -/
def FirstRepeat (names : List String) (name : String) : Prop :=
  ∃ before after, names = before ++ name :: after ∧ before.Nodup ∧ name ∈ before

theorem firstRepeat?_eq_some_iff {seen names : List String} {name : String} :
    firstRepeat? seen names = some name ↔
      ∃ before after, names = before ++ name :: after ∧ (before.Nodup ∧ ∀ n ∈ before, n ∉ seen) ∧
        (name ∈ seen ∨ name ∈ before) := by
  induction names generalizing seen with
  | nil => simp [firstRepeat?]
  | cons first names ih =>
    rw [firstRepeat?]
    by_cases hfirst : first ∈ seen
    · rw [if_pos hfirst, Option.some_inj]
      constructor
      · intro h
        subst h
        exact ⟨[], names, rfl, ⟨List.nodup_nil, by simp⟩, Or.inl hfirst⟩
      · rintro ⟨before, after, hnames, ⟨-, hnew⟩, -⟩
        cases before with
        | nil => exact (List.cons.inj hnames).1
        | cons b before =>
          cases (List.cons.inj hnames).1
          exact absurd hfirst (hnew first List.mem_cons_self)
    · rw [if_neg hfirst, ih]
      constructor
      · rintro ⟨before, after, hnames, ⟨hnodup, hnew⟩, hname⟩
        refine ⟨first :: before, after, by rw [hnames, List.cons_append], ⟨?_, ?_⟩, ?_⟩
        · exact List.nodup_cons.2 ⟨fun hmem => hnew first hmem List.mem_cons_self, hnodup⟩
        · intro n hn
          rcases List.mem_cons.1 hn with rfl | hn
          · exact hfirst
          · exact fun hseen => hnew n hn (List.mem_cons_of_mem _ hseen)
        · simpa only [List.mem_cons, or_left_comm, or_assoc] using hname
      · rintro ⟨before, after, hnames, ⟨hnodup, hnew⟩, hname⟩
        cases before with
        | nil =>
          cases (List.cons.inj hnames).1
          simp [hfirst] at hname
        | cons b before =>
          rw [List.cons_append] at hnames
          obtain ⟨rfl, hrest⟩ := List.cons.inj hnames
          obtain ⟨hb, hnodup⟩ := List.nodup_cons.1 hnodup
          refine ⟨before, after, hrest, ⟨hnodup, ?_⟩, ?_⟩
          · intro n hn hseen
            rcases List.mem_cons.1 hseen with rfl | hseen
            · exact hb hn
            · exact hnew n (List.mem_cons_of_mem _ hn) hseen
          · simpa only [List.mem_cons, or_left_comm, or_assoc] using hname

/-- With no names before, a repeat is found if there is one. -/
theorem firstRepeat?_nil_eq_none_iff {names : List String} : firstRepeat? [] names = none ↔ names.Nodup := by
  simp [firstRepeat?_eq_none_iff]

theorem firstRepeat?_nil_eq_some_iff {names : List String} {name : String} :
    firstRepeat? [] names = some name ↔ FirstRepeat names name := by
  simp [firstRepeat?_eq_some_iff, FirstRepeat]

/-- Among entries of distinct names, the one of a name is found. -/
theorem find?_eq_some_iff_of_nodup {α : Type} {f : α → String} {xs : List α} (h : (xs.map f).Nodup) {name : String} {x : α} :
    xs.find? (f · == name) = some x ↔ x ∈ xs ∧ f x = name := by
  constructor
  · intro hfound
    exact ⟨List.mem_of_find?_eq_some hfound, by simpa using List.find?_some hfound⟩
  · rintro ⟨hx, rfl⟩
    cases hfound : xs.find? (f · == f x) with
    | none => simpa using List.find?_eq_none.1 hfound x hx
    | some y =>
      have hname : f y = f x := by simpa using List.find?_some hfound
      rw [List.inj_on_of_nodup_map h (List.mem_of_find?_eq_some hfound) hx hname]

/-! ## Classes -/

/-- Classes that a registry can hold. -/
structure Distinct (classes : List ClassDecl) : Prop where
  names : (classes.map (·.name)).Nodup
  properties : ∀ c ∈ classes, c.propertyNames.Nodup

/-- Why a class cannot stand after classes of some names: it repeats a property or, if it does not, one of the names. -/
inductive ClassFault (names : List String) (c : ClassDecl) : RegistryError → Prop where
  | property {property : String} : FirstRepeat c.propertyNames property → ClassFault names c (.duplicateProperty c.name property)
  | name : c.propertyNames.Nodup → c.name ∈ names → ClassFault names c (.duplicateClass c.name)

variable {names names' : List String} {c : ClassDecl} {classes : List ClassDecl} {e : RegistryError}

/-- What is wrong with a class does not depend on the order of the names. -/
theorem ClassFault.of_subset (h : ClassFault names c e) (hsub : names ⊆ names') : ClassFault names' c e := by
  cases h with
  | property hrepeat => exact .property hrepeat
  | name hnodup hname => exact .name hnodup (hsub hname)

theorem classFault_iff :
    ClassFault names c e ↔
      (∃ property, firstRepeat? [] c.propertyNames = some property ∧ e = .duplicateProperty c.name property) ∨
        firstRepeat? [] c.propertyNames = none ∧ c.name ∈ names ∧ e = .duplicateClass c.name := by
  constructor
  · intro h
    cases h with
    | property hrepeat => exact Or.inl ⟨_, firstRepeat?_nil_eq_some_iff.2 hrepeat, rfl⟩
    | name hnodup hname => exact Or.inr ⟨firstRepeat?_nil_eq_none_iff.2 hnodup, hname, rfl⟩
  · rintro (⟨property, hrepeat, rfl⟩ | ⟨hnone, hname, rfl⟩)
    · exact .property (firstRepeat?_nil_eq_some_iff.1 hrepeat)
    · exact .name (firstRepeat?_nil_eq_none_iff.1 hnone) hname

namespace ClassRegistry

/-- The fault of a list is that of its first class or, if this one can stand where it does, of the classes after it. -/
theorem firstFault?_cons_eq_some_iff :
    firstFault? names (c :: classes) = some e ↔
      ClassFault names c e ∨ (c.propertyNames.Nodup ∧ c.name ∉ names) ∧ firstFault? (c.name :: names) classes = some e := by
  rw [firstFault?, classFault_iff, ← firstRepeat?_nil_eq_none_iff]
  cases firstRepeat? [] c.propertyNames with
  | some property => simp [eq_comm]
  | none => by_cases hname : c.name ∈ names <;> simp [hname, eq_comm]

theorem firstFault?_cons_eq_none_iff :
    firstFault? names (c :: classes) = none ↔
      (c.propertyNames.Nodup ∧ c.name ∉ names) ∧ firstFault? (c.name :: names) classes = none := by
  rw [firstFault?, ← firstRepeat?_nil_eq_none_iff]
  cases firstRepeat? [] c.propertyNames with
  | some property => simp
  | none => by_cases hname : c.name ∈ names <;> simp [hname]

/-- The fault of a list is that of the first class that cannot stand after those before it. -/
theorem firstFault?_eq_some_iff :
    firstFault? names classes = some e ↔
      ∃ before c after, classes = before ++ c :: after ∧ firstFault? names before = none ∧
        ClassFault (before.map (·.name) ++ names) c e := by
  induction classes generalizing names with
  | nil => simp [firstFault?]
  | cons first classes ih =>
    rw [firstFault?_cons_eq_some_iff, ih]
    have hswap (before : List ClassDecl) :
        before.map (·.name) ++ first.name :: names ⊆ (first :: before).map (·.name) ++ names ∧
          (first :: before).map (·.name) ++ names ⊆ before.map (·.name) ++ first.name :: names := by
      simp only [List.map_cons, List.cons_append]
      exact ⟨List.perm_middle.subset, List.perm_middle.symm.subset⟩
    constructor
    · rintro (hfirst | ⟨hstands, before, c, after, rfl, hbefore, hc⟩)
      · exact ⟨[], first, classes, rfl, rfl, hfirst⟩
      · exact ⟨first :: before, c, after, rfl, firstFault?_cons_eq_none_iff.2 ⟨hstands, hbefore⟩,
          hc.of_subset (hswap before).1⟩
    · rintro ⟨before, c, after, hclasses, hbefore, hc⟩
      cases before with
      | nil =>
        cases hclasses
        exact Or.inl hc
      | cons b before =>
        cases hclasses
        obtain ⟨hstands, hbefore⟩ := firstFault?_cons_eq_none_iff.1 hbefore
        exact Or.inr ⟨hstands, before, c, after, rfl, hbefore, hc.of_subset (hswap before).2⟩

theorem firstFault?_nil_eq_none_iff : firstFault? [] classes = none ↔ Distinct classes := by
  rw [firstFault?_eq_none_iff]
  constructor
  · exact fun h => ⟨h.1.1, h.2⟩
  · exact fun h => ⟨⟨h.names, fun _ _ => List.not_mem_nil⟩, h.properties⟩

/-- Classes make a registry exactly if it can hold them. -/
theorem ofList_eq_ok_iff {r : ClassRegistry} : ofList classes = .ok r ↔ r.classes = classes := by
  unfold ofList
  constructor
  · intro h
    split at h
    · nomatch h
    · cases h
      rfl
  · rintro rfl
    have hnone : firstFault? [] r.classes = none := firstFault?_nil_eq_none_iff.2 ⟨r.names_nodup, r.properties_nodup⟩
    split
    · next h =>
      rw [hnone] at h
      nomatch h
    · rfl

theorem exists_ofList_eq_ok_iff : (∃ r, ofList classes = .ok r) ↔ Distinct classes := by
  simp only [ofList_eq_ok_iff]
  constructor
  · rintro ⟨r, rfl⟩
    exact ⟨r.names_nodup, r.properties_nodup⟩
  · exact fun h => ⟨⟨classes, h.names, h.properties⟩, rfl⟩

/-- Classes make no registry exactly if they have a fault. -/
theorem ofList_eq_error_iff : ofList classes = .error e ↔ firstFault? [] classes = some e := by
  unfold ofList
  split
  · rename_i h
    rw [h, Except.error.injEq, Option.some_inj]
  · rename_i h
    simp [h]

/-- A registry finds the class of a name. -/
theorem get?_eq_some_iff {r : ClassRegistry} {name : String} : r.get? name = some c ↔ c ∈ r.classes ∧ c.name = name :=
  find?_eq_some_iff_of_nodup r.names_nodup

end ClassRegistry

/-! ## Enumerations -/

namespace EnumRegistry

variable {enums : List EnumDecl}

/-- Enumerations make a registry exactly if it can hold them. -/
theorem ofList_eq_ok_iff {r : EnumRegistry} : ofList enums = .ok r ↔ r.enums = enums := by
  unfold ofList
  constructor
  · intro h
    split at h
    · nomatch h
    · cases h
      rfl
  · rintro rfl
    have hnone : firstRepeat? [] (r.enums.map (·.name)) = none := firstRepeat?_nil_eq_none_iff.2 r.names_nodup
    split
    · next h =>
      rw [hnone] at h
      nomatch h
    · rfl

theorem exists_ofList_eq_ok_iff : (∃ r, ofList enums = .ok r) ↔ (enums.map (·.name)).Nodup := by
  simp only [ofList_eq_ok_iff]
  constructor
  · rintro ⟨r, rfl⟩
    exact r.names_nodup
  · exact fun h => ⟨⟨enums, h⟩, rfl⟩

/-- Enumerations make no registry exactly if a name is repeated. -/
theorem ofList_eq_error_iff :
    ofList enums = .error e ↔ ∃ name, FirstRepeat (enums.map (·.name)) name ∧ e = .duplicateEnum name := by
  simp only [← firstRepeat?_nil_eq_some_iff]
  unfold ofList
  split
  · rename_i name h
    simp [h, eq_comm]
  · rename_i h
    simp [h]

/-- A registry finds the enumeration of a name. -/
theorem get?_eq_some_iff {r : EnumRegistry} {name : String} {en : EnumDecl} :
    r.get? name = some en ↔ en ∈ r.enums ∧ en.name = name :=
  find?_eq_some_iff_of_nodup r.names_nodup

end EnumRegistry

/-! ## Files -/

/-- The sections of a file, divided among several files. -/
structure ModelFile.SplitInto (f : ModelFile) (parts : List ModelFile) : Prop where
  enums : parts.flatMap (·.enums) = f.enums
  classes : parts.flatMap (·.classes) = f.classes

namespace Model

variable {files : List ModelFile} {m : Model}

/-- Files are merged, and their declarations make the model. -/
theorem result_ofFiles (files : List ModelFile) :
    (ofFiles files).result = ofDecls (files.flatMap ModelFile.classDecls) (files.flatMap ModelFile.enumDecls) := by
  cases hdecls : ofDecls (files.flatMap ModelFile.classDecls) (files.flatMap ModelFile.enumDecls) <;>
    simp only [ofFiles, hdecls] <;> rfl

theorem ofDecls_eq_ok_iff {enums : List EnumDecl} {classes : List ClassDecl} :
    ofDecls classes enums = .ok m ↔ ClassRegistry.ofList classes = .ok m.classes ∧ EnumRegistry.ofList enums = .ok m.enums := by
  unfold ofDecls
  rcases ClassRegistry.ofList classes with e | r
  · simp [bind, Except.bind]
  · rcases EnumRegistry.ofList enums with e | s
    · simp [bind, Except.bind]
    · obtain ⟨r', s'⟩ := m
      simp [bind, Except.bind, pure, Except.pure]

/-- Declarations are refused for a class or, if the classes make a registry, for an enumeration. -/
theorem ofDecls_eq_error_iff {enums : List EnumDecl} {classes : List ClassDecl} :
    ofDecls classes enums = .error e ↔ ClassRegistry.ofList classes = .error e ∨
      (∃ r, ClassRegistry.ofList classes = .ok r) ∧ EnumRegistry.ofList enums = .error e := by
  unfold ofDecls
  rcases ClassRegistry.ofList classes with e' | r
  · simp [bind, Except.bind]
  · rcases EnumRegistry.ofList enums with e' | s <;> simp [bind, Except.bind, pure, Except.pure]

/-- The model of files holds what they declare, in order. -/
theorem result_ofFiles_eq_ok_iff : (ofFiles files).result = .ok m ↔
    m.classes.classes = files.flatMap ModelFile.classDecls ∧ m.enums.enums = files.flatMap ModelFile.enumDecls := by
  rw [result_ofFiles, ofDecls_eq_ok_iff, ClassRegistry.ofList_eq_ok_iff, EnumRegistry.ofList_eq_ok_iff]

/-- Nothing depends on how declarations are divided into files. -/
theorem ofFiles_splitInto {f : ModelFile} {parts : List ModelFile} (h : f.SplitInto parts) (before after : List ModelFile) :
    ofFiles (before ++ f :: after) = ofFiles (before ++ (parts ++ after)) := by
  have hclasses : parts.flatMap ModelFile.classDecls = f.classDecls := by
    rw [ModelFile.classDecls, ← h.classes, List.map_flatMap]
    rfl
  have henums : parts.flatMap ModelFile.enumDecls = f.enumDecls := by
    rw [ModelFile.enumDecls, ← h.enums, List.map_flatMap]
    rfl
  unfold ofFiles
  rw [List.flatMap_append, List.flatMap_append, List.flatMap_append, List.flatMap_append, List.flatMap_append,
    List.flatMap_append, List.flatMap_cons, List.flatMap_cons, hclasses, henums]

/-- Registries reject exactly what is repeated and lose nothing else. Classes make a registry exactly if their names and the
names of the properties of each are distinct; enumerations, if their names are. The registry has the names in the order of the
list, and finds the declaration of every name that is in the list. What is rejected is the first class that cannot stand after
those before it, for a repeated property before its name, or the first enumeration with a repeated name. Files make the
registries of all their declarations in order, those of the classes first, so that it does not matter how they are divided. -/
theorem registries_reject_exactly_repeats :
    (∀ classes : List ClassDecl,
      ((∃ r, ClassRegistry.ofList classes = .ok r) ↔ Distinct classes) ∧
      (∀ r, ClassRegistry.ofList classes = .ok r → r.names = classes.map (·.name) ∧
        ∀ name c, r.get? name = some c ↔ c ∈ classes ∧ c.name = name) ∧
      ∀ e, ClassRegistry.ofList classes = .error e ↔ ∃ before c after, classes = before ++ c :: after ∧ Distinct before ∧
        ClassFault (before.map (·.name)) c e) ∧
    (∀ enums : List EnumDecl,
      ((∃ r, EnumRegistry.ofList enums = .ok r) ↔ (enums.map (·.name)).Nodup) ∧
      (∀ r, EnumRegistry.ofList enums = .ok r → r.names = enums.map (·.name) ∧
        ∀ name en, r.get? name = some en ↔ en ∈ enums ∧ en.name = name) ∧
      ∀ e, EnumRegistry.ofList enums = .error e ↔ ∃ name, FirstRepeat (enums.map (·.name)) name ∧ e = .duplicateEnum name) ∧
    (∀ files : List ModelFile,
      (∀ m, (ofFiles files).result = .ok m ↔
        ClassRegistry.ofList (files.flatMap ModelFile.classDecls) = .ok m.classes ∧
          EnumRegistry.ofList (files.flatMap ModelFile.enumDecls) = .ok m.enums) ∧
      ∀ e, (ofFiles files).result = .error e ↔
        ClassRegistry.ofList (files.flatMap ModelFile.classDecls) = .error e ∨
          (∃ r, ClassRegistry.ofList (files.flatMap ModelFile.classDecls) = .ok r) ∧
            EnumRegistry.ofList (files.flatMap ModelFile.enumDecls) = .error e) ∧
    ∀ (f : ModelFile) (parts : List ModelFile), f.SplitInto parts → ∀ before after,
      ofFiles (before ++ f :: after) = ofFiles (before ++ (parts ++ after)) := by
  refine ⟨fun classes => ⟨ClassRegistry.exists_ofList_eq_ok_iff, ?_, fun e => ?_⟩,
    fun enums => ⟨EnumRegistry.exists_ofList_eq_ok_iff, ?_, fun e => EnumRegistry.ofList_eq_error_iff⟩,
    fun files => ⟨fun m => ?_, fun e => ?_⟩, fun f parts h => ofFiles_splitInto h⟩
  · intro r hr
    cases ClassRegistry.ofList_eq_ok_iff.1 hr
    exact ⟨rfl, fun name c => ClassRegistry.get?_eq_some_iff⟩
  · rw [ClassRegistry.ofList_eq_error_iff, ClassRegistry.firstFault?_eq_some_iff]
    simp only [ClassRegistry.firstFault?_nil_eq_none_iff, List.append_nil]
  · intro r hr
    cases EnumRegistry.ofList_eq_ok_iff.1 hr
    exact ⟨rfl, fun name en => EnumRegistry.get?_eq_some_iff⟩
  · rw [result_ofFiles, ofDecls_eq_ok_iff]
  · rw [result_ofFiles, ofDecls_eq_error_iff]

/-- A file with two classes and two enumerations. -/
def plotFile : ModelFile :=
  ⟨[("Color", ["RED", "GREEN"]), ("Size", ["S"])], [("Point", [("x", .one "int"), ("y", .one "int")]), ("Plot", [])]⟩

/-- The same declarations in three files, of which one is empty. -/
def plotParts : List ModelFile :=
  [⟨[("Color", ["RED", "GREEN"])], [("Point", [("x", .one "int"), ("y", .one "int")]), ("Plot", [])]⟩, {},
    ⟨[("Size", ["S"])], []⟩]

/-- A class that repeats a property and the name of another. -/
def pointAgain : ClassDecl := ⟨"Point", [⟨"x", ["int"]⟩, ⟨"z", []⟩, ⟨"x", ["bool"]⟩]⟩

theorem registries_reject_exactly_repeats_plotFile :
    (∃ r, ClassRegistry.ofList plotFile.classDecls = .ok r ∧ r.names = ["Point", "Plot"] ∧
      r.get? "Plot" = some ⟨"Plot", []⟩) ∧
    (∃ r, EnumRegistry.ofList plotFile.enumDecls = .ok r ∧ r.names = ["Color", "Size"] ∧ r.get? "Size" = some ⟨"Size", ["S"]⟩) ∧
    ClassRegistry.ofList (plotFile.classDecls ++ [pointAgain, ⟨"Plot", []⟩]) = .error (.duplicateProperty "Point" "x") ∧
    ofFiles ([] ++ plotFile :: [plotFile]) = ofFiles ([] ++ (plotParts ++ [plotFile])) := by
  obtain ⟨hclasses, henums, -, hsplit⟩ := registries_reject_exactly_repeats
  have hdistinct : Distinct plotFile.classDecls := ⟨by decide, by decide⟩
  refine ⟨?_, ?_, ?_, hsplit plotFile plotParts ⟨rfl, rfl⟩ [] [plotFile]⟩
  · obtain ⟨hexists, hok, -⟩ := hclasses plotFile.classDecls
    obtain ⟨r, hr⟩ := hexists.2 hdistinct
    obtain ⟨hnames, hget⟩ := hok r hr
    exact ⟨r, hr, hnames, (hget _ _).2 ⟨by decide, rfl⟩⟩
  · obtain ⟨hexists, hok, -⟩ := henums plotFile.enumDecls
    obtain ⟨r, hr⟩ := hexists.2 (by decide)
    obtain ⟨hnames, hget⟩ := hok r hr
    exact ⟨r, hr, hnames, (hget _ _).2 ⟨by decide, rfl⟩⟩
  · refine ((hclasses _).2.2 _).2 ⟨plotFile.classDecls, pointAgain, [⟨"Plot", []⟩], rfl, hdistinct, .property ?_⟩
    exact ⟨["x", "z"], [], rfl, by decide, by decide⟩

end Model

end ClassSchema
