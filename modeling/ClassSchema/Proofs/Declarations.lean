import ClassSchema.Proofs.CompactText
import ClassSchema.Proofs.Loading

/-!
# Which declarations are kept

Names may be repeated in two ways. In one file, a name that an object repeats is declared once: with what the last of its
members says, while the others are dropped without a word (`KeepsLast`). Over several files, a class or an enumeration that two
of them declare is refused, and otherwise all their declarations are kept (`Model.ofFiles_keeps`).
-/

namespace ClassSchema

open Decoder

/-! ## One file -/

/-- Of the members of an object those are kept that are the last ones of their names. -/
structure KeepsLast {α : Type} (Means : Json → α → Prop) (members : List (String × Json)) (found : List (String × α)) :
    Prop where
  /-- No name is lost, and none is kept twice. -/
  names : (found.map (·.1)).Nodup
  mem_names_iff : ∀ name, name ∈ found.map (·.1) ↔ name ∈ members.map (·.1)
  /-- A name is kept with what the last of its members says. -/
  values : ∀ p ∈ found, ∃ v, IsLast (p.1, v) members ∧ Means v p.2

/-- The members of a section of a file: it is an object under its name or at its place, or it is absent. -/
inductive SectionMembers (name : String) (index : Nat) : Json → List (String × Json) → Prop where
  | member {sections members : List (String × Json)} :
      (name, .object members) ∈ sections → SectionMembers name index (.object sections) members
  | item {items : List Json} {members : List (String × Json)} :
      items[index]? = some (.object members) → SectionMembers name index (.array items) members
  | absentMember {sections : List (String × Json)} :
      name ∉ sections.map (·.1) → SectionMembers name index (.object sections) []
  | absentItem {items : List Json} : items.length ≤ index → SectionMembers name index (.array items) []

/-- Of the members of an object that means a class, the last one of each name is kept. -/
def KeepsProperties (v : Json) (properties : List (String × PropertySpec)) : Prop :=
  ∃ members, v = .object members ∧ KeepsLast ModelFile.PropertyMeans members properties

/-- A file that is read from a text keeps, of the members written in the sections and in the classes, the last one of each
name. -/
def KeepsFile (text : String) (f : ModelFile) : Prop :=
  ∃ v front rest enums classes, text.toList = front ++ rest ∧ JsonToken.Spells v.tokens front ∧
    SectionMembers "enums" 0 v enums ∧ KeepsLast ModelFile.StringsMean enums f.enums ∧
    SectionMembers "classes" 1 v classes ∧ KeepsLast KeepsProperties classes f.classes

section KeepsLast

variable {α : Type} {Means Means' : Json → α → Prop} {members : List (String × Json)} {found : List (String × α)}

theorem KeepsLast.mono (h : KeepsLast Means members found) (himp : ∀ v a, Means v a → Means' v a) :
    KeepsLast Means' members found := by
  refine ⟨h.names, h.mem_names_iff, ?_⟩
  intro p hp
  obtain ⟨v, hlast, hmeans⟩ := h.values p hp
  exact ⟨v, hlast, himp v p.2 hmeans⟩

theorem keepsLast_nil : KeepsLast Means [] [] := ⟨List.nodup_nil, fun _ => Iff.rfl, nofun⟩

/-- What an object means keeps the last member of each name. -/
theorem keepsLast_of_mapMeans {v : Json} (h : MapMeans Means v found) :
    ∃ members, v = .object members ∧ KeepsLast Means members found := by
  have hnodup := ModelFile.nodup_of_mapMeans h
  have hvalues := fun p hp => ModelFile.exists_isLast_of_mem (p := p) h hp
  obtain ⟨members, pairs, rfl, hpairs, rfl⟩ := h
  refine ⟨members, rfl, hnodup, ?_, ?_⟩
  · intro name
    rw [mem_map_gathered_iff, map_fst_eq hpairs]
  · intro p hp
    obtain ⟨_, v, heq, hlast, hmeans⟩ := hvalues p hp
    cases heq
    exact ⟨v, hlast, hmeans⟩

/-- So do classes, of which each keeps the last property of each name. -/
theorem keepsLast_of_classesMean {v : Json} {classes : List (String × List (String × PropertySpec))}
    (h : ModelFile.ClassesMean v classes) : ∃ members, v = .object members ∧ KeepsLast KeepsProperties members classes := by
  obtain ⟨members, rfl, hkeeps⟩ := keepsLast_of_mapMeans h
  exact ⟨members, rfl, hkeeps.mono fun _ _ hmeans => keepsLast_of_mapMeans hmeans⟩

/-- A section that is found under its name has members there, and one that is not found is absent. -/
theorem exists_sectionMembers_of_placed (index : Nat) {Kept : Json → α → Prop} {name : String}
    {sections : List (String × Json)} {Section : Json → List (String × α) → Prop} {after : Option (List (String × α))}
    (h : Placed name Section sections none after)
    (hkeeps : ∀ v found, Section v found → ∃ members, v = .object members ∧ KeepsLast Kept members found) :
    ∃ members, SectionMembers name index (.object sections) members ∧ KeepsLast Kept members (after.getD []) := by
  rcases h with ⟨hname, rfl⟩ | ⟨-, v, found, hv, hfound, rfl⟩
  · exact ⟨[], .absentMember hname, keepsLast_nil⟩
  · obtain ⟨members, rfl, hlast⟩ := hkeeps v found hfound
    exact ⟨members, .member hv, hlast⟩

end KeepsLast

/-- A file that is read keeps the last member of each name. -/
theorem keepsFile_of_parse {text : String} {f : ModelFile} (h : ModelFile.parse text = .ok f) : KeepsFile text f := by
  obtain ⟨v, front, rest, htext, hspells, hmeans⟩ := (run_eq_ok_iff ModelFile.reads_file nofun).1 h
  cases hmeans with
  | object hgathers =>
    obtain ⟨-, -, henums, hclasses⟩ := ModelFile.gathers_sections_iff.1 hgathers
    obtain ⟨enums, hmembers, hkeeps⟩ := exists_sectionMembers_of_placed 0 henums fun _ _ => keepsLast_of_mapMeans
    obtain ⟨classes, hmembers', hkeeps'⟩ :=
      exists_sectionMembers_of_placed 1 hclasses fun _ _ => keepsLast_of_classesMean
    exact ⟨_, front, rest, enums, classes, htext, hspells, hmembers, hkeeps, hmembers', hkeeps'⟩
  | array hmeans =>
    cases hmeans with
    | absent =>
      exact ⟨_, front, rest, [], [], htext, hspells, .absentItem (Nat.le_refl 0), keepsLast_nil,
        .absentItem (Nat.zero_le 1), keepsLast_nil⟩
    | enums he =>
      obtain ⟨enums, rfl, hkeeps⟩ := keepsLast_of_mapMeans he
      exact ⟨_, front, rest, enums, [], htext, hspells, .item rfl, hkeeps, .absentItem (Nat.le_refl 1), keepsLast_nil⟩
    | both he hc =>
      obtain ⟨enums, rfl, hkeeps⟩ := keepsLast_of_mapMeans he
      obtain ⟨classes, rfl, hkeeps'⟩ := keepsLast_of_classesMean hc
      exact ⟨_, front, rest, enums, classes, htext, hspells, .item rfl, hkeeps, .item rfl, hkeeps'⟩

/-! ## Several files -/

/-- Each of several files keeps the last member of each name. They make a model exactly if no two of them declare a class, or
an enumeration, of one name, and the model then has all that they keep, in order. -/
theorem Model.ofFiles_keeps (texts : List String) (files : List ModelFile)
    (hparse : List.Forall₂ (fun text f => ModelFile.parse text = .ok f) texts files) :
    List.Forall₂ KeepsFile texts files ∧
      ((∃ m, (ofFiles files).result = .ok m) ↔
        (files.flatMap fun f => f.classes.map (·.1)).Nodup ∧ (files.flatMap fun f => f.enums.map (·.1)).Nodup) ∧
      ∀ m, (ofFiles files).result = .ok m →
        m.classes.classes = files.flatMap ModelFile.classDecls ∧ m.enums.enums = files.flatMap ModelFile.enumDecls := by
  refine ⟨hparse.imp fun _ _ => keepsFile_of_parse, exists_ofFiles_iff ?_, fun m => result_ofFiles_eq_ok_iff.1⟩
  intro f hf
  obtain ⟨before, after, rfl⟩ := List.append_of_mem hf
  obtain ⟨_, text, _, -, hparse, -⟩ := ModelFile.exists_split_of_forall₂ hparse
  obtain ⟨v, _, _, -, -, hmeans⟩ := (run_eq_ok_iff ModelFile.reads_file nofun).1 hparse
  exact (ModelFile.distinct_of_fileMeans hmeans).2.2

/-- A file that declares an enumeration twice. -/
def twoColors : Json :=
  .object [("enums", .object [("Color", .array [.string "RED"]), ("Color", .array [.string "BLUE"])])]

theorem compact_twoColors :
    twoColors.compact = "\x7b\"enums\":\x7b\"Color\":[\"RED\"],\"Color\":[\"BLUE\"]\x7d\x7d" := by
  rfl

/-- Of the two declarations the second is read. -/
theorem parse_twoColors : ModelFile.parse twoColors.compact = .ok ⟨[("Color", ["BLUE"])], []⟩ := by
  have hnumbers : twoColors.OnlyIntegers64 := by
    intro n hpart
    simp [twoColors] at hpart
  have henums : ModelFile.EnumsMean (.object [("Color", .array [.string "RED"]), ("Color", .array [.string "BLUE"])])
      [("Color", ["BLUE"])] :=
    ⟨_, [("Color", ["RED"]), ("Color", ["BLUE"])], rfl, .cons ⟨rfl, rfl⟩ (.cons ⟨rfl, rfl⟩ .nil), by decide⟩
  have hmeans : ModelFile.FileMeans twoColors (ModelFile.Sections.toFile ⟨some [("Color", ["BLUE"])], none⟩) :=
    .object (.cons (.enums rfl henums) (.nil _))
  exact (run_eq_ok_iff_means ModelFile.reads_file (Json.spells_compact twoColors hnumbers)).2 hmeans

/-- The file with both declarations makes a model, to which one of them is lost. -/
theorem Model.ofFiles_keeps_twoColors :
    ∃ f, ModelFile.parse twoColors.compact = .ok f ∧ KeepsFile twoColors.compact f ∧
      ∃ m, (ofFiles [f]).result = .ok m ∧ m.enums.enums = [⟨"Color", ["BLUE"]⟩] := by
  obtain ⟨hkeeps, hmodel, hdeclares⟩ := ofFiles_keeps [twoColors.compact] _ (.cons parse_twoColors .nil)
  obtain ⟨m, hm⟩ := hmodel.2 (by decide)
  exact ⟨_, parse_twoColors, (List.forall₂_cons.1 hkeeps).1, m, hm, (hdeclares m hm).2⟩

/-- A declaration is lost although the text that holds it is read and makes a model. -/
theorem Model.exists_lost_declaration :
    ∃ f m, ModelFile.parse "\x7b\"enums\":\x7b\"Color\":[\"RED\"],\"Color\":[\"BLUE\"]\x7d\x7d" = .ok f ∧
      (ofFiles [f]).result = .ok m ∧ ∀ e ∈ m.enums.enums, "RED" ∉ e.cases := by
  have hfiles : ([⟨[("Color", ["BLUE"])], []⟩] : List ModelFile).flatMap ModelFile.enumDecls = [⟨"Color", ["BLUE"]⟩] := rfl
  have hproperties : ∀ f ∈ ([⟨[("Color", ["BLUE"])], []⟩] : List ModelFile), ∀ c ∈ f.classes, (c.2.map (·.1)).Nodup := by
    decide
  obtain ⟨m, hm⟩ := (exists_ofFiles_iff hproperties).2 (by decide)
  refine ⟨_, m, compact_twoColors ▸ parse_twoColors, hm, ?_⟩
  rw [(result_ofFiles_eq_ok_iff.1 hm).2, hfiles]
  decide

end ClassSchema
