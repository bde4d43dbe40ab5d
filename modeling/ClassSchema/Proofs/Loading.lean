import ClassSchema.Proofs.FileDecoding
import ClassSchema.Proofs.Repeats

/-!
# The model that files make

The sections of a file written as an object are found under their names (`ModelFile.gathers_sections_iff`). In the sections of
one file every name stands once, however the file is written (`ModelFile.distinct_of_fileMeans`). So files whose classes repeat no
property make a model exactly if no two of them share a name (`Model.exists_ofFiles_iff`).
-/

namespace ClassSchema

open Decoder

/-! ## Sections -/

/-- Under its name a section is found, which has not been there before; or no member has its name, and it is as before. -/
def Placed {α : Type} (name : String) (Means : Json → α → Prop) (members : List (String × Json))
    (before after : Option α) : Prop :=
  name ∉ members.map (·.1) ∧ after = before ∨
    before = none ∧ ∃ v a, (name, v) ∈ members ∧ Means v a ∧ after = some a

section Placed

variable {α : Type} {name other : String} {Means : Json → α → Prop} {v : Json} {members : List (String × Json)}
  {before after : Option α}

theorem placed_nil : Placed name Means [] before after ↔ after = before := by
  simp [Placed]

/-- A member of another name changes nothing. -/
theorem placed_cons_of_ne (h : other ≠ name) :
    Placed name Means ((other, v) :: members) before after ↔ Placed name Means members before after := by
  simp [Placed, h.symm]

/-- The only member of the name has the section. -/
theorem placed_cons_self (h : name ∉ members.map (·.1)) :
    Placed name Means ((name, v) :: members) before after ↔ before = none ∧ ∃ a, Means v a ∧ after = some a := by
  unfold Placed
  rw [List.map_cons, List.mem_cons]
  constructor
  · rintro (⟨hname, -⟩ | ⟨hbefore, w, a, hw, hmeans, hafter⟩)
    · exact absurd (Or.inl rfl) hname
    · rcases List.mem_cons.1 hw with heq | hw
      · cases heq
        exact ⟨hbefore, a, hmeans, hafter⟩
      · exact absurd (List.mem_map_of_mem hw) h
  · rintro ⟨hbefore, a, hmeans, hafter⟩
    exact Or.inr ⟨hbefore, v, a, List.mem_cons_self, hmeans, hafter⟩

/-- What has been there before is not found again. -/
theorem placed_some_iff {a : α} :
    Placed name Means members (some a) after ↔ name ∉ members.map (·.1) ∧ after = some a := by
  simp [Placed]

/-- What was not there before is found or still not there. -/
theorem exists_means_of_placed {a : α} (h : Placed name Means members none (some a)) : ∃ v, Means v a := by
  rcases h with ⟨-, hnone⟩ | ⟨-, v, b, -, hmeans, hsome⟩
  · nomatch hnone
  · cases hsome
    exact ⟨v, hmeans⟩

end Placed

namespace ModelFile

/-- The members of a file written as an object are sections under their names, each at most once. -/
theorem gathers_sections_iff {members : List (String × Json)} {found found' : Sections} :
    Gathers SectionAdds found members found' ↔
      (∀ entry ∈ members, entry.1 = "enums" ∨ entry.1 = "classes") ∧ (members.map (·.1)).Nodup ∧
        Placed "enums" EnumsMean members found.enums found'.enums ∧
        Placed "classes" ClassesMean members found.classes found'.classes := by
  induction members generalizing found with
  | nil =>
    simp only [placed_nil]
    constructor
    · rintro ⟨⟩
      exact ⟨nofun, List.nodup_nil, rfl, rfl⟩
    · rintro ⟨-, -, henums, hclasses⟩
      obtain ⟨enums, classes⟩ := found'
      cases henums
      cases hclasses
      exact .nil found
  | cons entry members ih =>
    have henumsNe : "enums" ≠ "classes" := by decide
    rw [List.forall_mem_cons, List.map_cons, List.nodup_cons]
    constructor
    · intro h
      cases h with
      | cons hadds hrest =>
        obtain ⟨hnames, hnodup, henums, hclasses⟩ := ih.1 hrest
        -- A section that has been added is not found again behind.
        cases hadds with
        | enums hnew hmeans =>
          obtain ⟨hnot, hafter⟩ := placed_some_iff.1 henums
          exact ⟨⟨Or.inl rfl, hnames⟩, ⟨hnot, hnodup⟩, (placed_cons_self hnot).2 ⟨hnew, _, hmeans, hafter⟩,
            (placed_cons_of_ne henumsNe).2 hclasses⟩
        | classes hnew hmeans =>
          obtain ⟨hnot, hafter⟩ := placed_some_iff.1 hclasses
          exact ⟨⟨Or.inr rfl, hnames⟩, ⟨hnot, hnodup⟩, (placed_cons_of_ne henumsNe.symm).2 henums,
            (placed_cons_self hnot).2 ⟨hnew, _, hmeans, hafter⟩⟩
    · rintro ⟨⟨hname, hnames⟩, ⟨hnot, hnodup⟩, henums, hclasses⟩
      obtain ⟨name, v⟩ := entry
      rcases hname with rfl | rfl
      · obtain ⟨hnew, enums, hmeans, hafter⟩ := (placed_cons_self hnot).1 henums
        rw [placed_cons_of_ne henumsNe] at hclasses
        exact .cons (.enums hnew hmeans) (ih.2 ⟨hnames, hnodup, placed_some_iff.2 ⟨hnot, hafter⟩, hclasses⟩)
      · obtain ⟨hnew, classes, hmeans, hafter⟩ := (placed_cons_self hnot).1 hclasses
        rw [placed_cons_of_ne henumsNe.symm] at henums
        exact .cons (.classes hnew hmeans) (ih.2 ⟨hnames, hnodup, henums, placed_some_iff.2 ⟨hnot, hafter⟩⟩)

/-! ## Names in one file -/

/-- What an object means has distinct names. -/
theorem nodup_of_mapMeans {α : Type} {Means : Json → α → Prop} {v : Json} {found : List (String × α)}
    (h : MapMeans Means v found) : (found.map (·.1)).Nodup := by
  obtain ⟨members, pairs, -, -, rfl⟩ := h
  exact nodup_gathered pairs

/-- Where entries are related one by one, what is related to one of them stands where it stands. -/
theorem exists_split_of_forall₂ {α β : Type} {R : α → β → Prop} {as : List α} {before after : List β} {b : β}
    (h : List.Forall₂ R as (before ++ b :: after)) :
    ∃ xs x xs', as = xs ++ x :: xs' ∧ R x b ∧ List.Forall₂ R xs' after := by
  have hdrop := List.forall₂_drop_append as before (b :: after) h
  obtain ⟨x, xs', hx, hxs', heq⟩ := List.forall₂_cons_right_iff.1 hdrop
  exact ⟨as.take before.length, x, xs', by rw [← heq, List.take_append_drop], hx, hxs'⟩

/-- What an object means under a name is what the last value of that name means. -/
theorem exists_isLast_of_mem {α : Type} {Means : Json → α → Prop} {w : Json} {found : List (String × α)}
    {p : String × α} (h : MapMeans Means w found) (hp : p ∈ found) :
    ∃ members v, w = .object members ∧ IsLast (p.1, v) members ∧ Means v p.2 := by
  obtain ⟨members, pairs, rfl, hpairs, rfl⟩ := h
  obtain ⟨before, after, rfl, hafter⟩ := mem_gathered_iff.1 hp
  obtain ⟨xs, ⟨name, v⟩, xs', rfl, ⟨hname, hmeans⟩, hxs'⟩ := exists_split_of_forall₂ hpairs
  cases hname
  exact ⟨_, v, rfl, ⟨xs, xs', rfl, by rw [map_fst_eq hxs']; exact hafter⟩, hmeans⟩

/-- What an object means as classes has distinct names, and so have the properties of each class. -/
theorem nodup_of_classesMean {v : Json} {classes : List (String × List (String × PropertySpec))} (h : ClassesMean v classes) :
    (classes.map (·.1)).Nodup ∧ ∀ c ∈ classes, (c.2.map (·.1)).Nodup := by
  refine ⟨nodup_of_mapMeans h, ?_⟩
  intro c hc
  obtain ⟨members, w, -, -, hw⟩ := exists_isLast_of_mem h hc
  exact nodup_of_mapMeans hw

/-- The names in one file are distinct: those of its enumerations, those of its classes, and those of the properties of each
class. -/
theorem distinct_of_fileMeans {v : Json} {f : ModelFile} (h : FileMeans v f) :
    (f.enums.map (·.1)).Nodup ∧ (f.classes.map (·.1)).Nodup ∧ ∀ c ∈ f.classes, (c.2.map (·.1)).Nodup := by
  cases h with
  | @object members found hgathers =>
    obtain ⟨-, -, hfound, hfound'⟩ := gathers_sections_iff.1 hgathers
    obtain ⟨enums, classes⟩ := found
    constructor
    · cases enums with
      | none => exact List.nodup_nil
      | some enums =>
        obtain ⟨w, hw⟩ := exists_means_of_placed hfound
        exact nodup_of_mapMeans hw
    · cases classes with
      | none => exact ⟨List.nodup_nil, nofun⟩
      | some classes =>
        obtain ⟨w, hw⟩ := exists_means_of_placed hfound'
        exact nodup_of_classesMean hw
  | array hmeans =>
    cases hmeans with
    | absent => exact ⟨List.nodup_nil, List.nodup_nil, nofun⟩
    | enums he => exact ⟨nodup_of_mapMeans he, List.nodup_nil, nofun⟩
    | both he hc => exact ⟨nodup_of_mapMeans he, nodup_of_classesMean hc⟩

end ModelFile

/-! ## Several files -/

/-- The property that is written so has the name it is written under. -/
theorem PropertySpec.name_toProperty (name : String) (spec : PropertySpec) : (spec.toProperty name).name = name := by
  cases spec <;> rfl

namespace Model

/-- Files whose classes have distinct properties make a model exactly if no class and no enumeration is declared twice. -/
theorem exists_ofFiles_iff {files : List ModelFile} (h : ∀ f ∈ files, ∀ c ∈ f.classes, (c.2.map (·.1)).Nodup) :
    (∃ m, (ofFiles files).result = .ok m) ↔
      (files.flatMap fun f => f.classes.map (·.1)).Nodup ∧ (files.flatMap fun f => f.enums.map (·.1)).Nodup := by
  have hclassNames : (files.flatMap ModelFile.classDecls).map (·.name) = files.flatMap fun f => f.classes.map (·.1) := by
    rw [List.map_flatMap]
    simp only [ModelFile.classDecls, List.map_map]
    rfl
  have henumNames : (files.flatMap ModelFile.enumDecls).map (·.name) = files.flatMap fun f => f.enums.map (·.1) := by
    rw [List.map_flatMap]
    simp only [ModelFile.enumDecls, List.map_map]
    rfl
  constructor
  · rintro ⟨m, hm⟩
    obtain ⟨hclasses, henums⟩ := result_ofFiles_eq_ok_iff.1 hm
    rw [← hclassNames, ← henumNames, ← hclasses, ← henums]
    exact ⟨m.classes.names_nodup, m.enums.names_nodup⟩
  · rintro ⟨hclasses, henums⟩
    rw [← hclassNames] at hclasses
    rw [← henumNames] at henums
    have hproperties : ∀ c ∈ files.flatMap ModelFile.classDecls, c.propertyNames.Nodup := by
      intro c hc
      obtain ⟨f, hf, hc⟩ := List.mem_flatMap.1 hc
      obtain ⟨written, hwritten, rfl⟩ := List.mem_map.1 hc
      have hnames : (written.2.map fun p => p.2.toProperty p.1).map (·.name) = written.2.map (·.1) := by
        simp only [List.map_map, Function.comp_def, PropertySpec.name_toProperty]
      rw [ClassDecl.propertyNames, hnames]
      exact h f hf written hwritten
    exact ⟨⟨⟨_, hclasses, hproperties⟩, ⟨_, henums⟩⟩, result_ofFiles_eq_ok_iff.2 ⟨rfl, rfl⟩⟩

end Model

end ClassSchema
