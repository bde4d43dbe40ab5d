import ClassSchema.ModelFile
import ClassSchema.Proofs.JsonText

/-!
# What model files mean

Which values are model files, and what they mean, said without the decoder (`ModelFile.FileMeans`): the decoder reads
exactly these (`ModelFile.reads_file`).

So what is decoded from a text is what the first value in it means. What follows this value is not looked at, white space or
not (`ModelFile.decodes_iff_begins`).
-/

namespace ClassSchema

namespace ModelFile

open Decoder

/-! ## Enumerations -/

/-- An array of strings means these strings. -/
def StringsMean (v : Json) (ss : List String) : Prop := v = .array (ss.map .string)

theorem forall₂_string_iff {items : List Json} {ss : List String} :
    List.Forall₂ (fun v s => v = Json.string s) items ss ↔ items = ss.map .string := by
  rw [← List.forall₂_eq_eq_eq, List.forall₂_map_right_iff]

theorem reads_strings : Reads (list string) StringsMean := by
  refine (reads_list reads_string).congr ?_
  intro v ss
  simp only [forall₂_string_iff, exists_eq_right]
  rfl

/-- An object means the enumerations under its names. -/
def EnumsMean : Json → List (String × List String) → Prop := MapMeans StringsMean

theorem reads_enums : Reads decodeEnums EnumsMean := reads_map reads_strings

/-! ## Classes -/

/-- A value means a property. Not too many brackets may be open in it. -/
def PropertyMeans (v : Json) (spec : PropertySpec) : Prop :=
  v.depth ≤ maxBrackets - 3 ∧ PropertySpec.ofJson? v = some spec

theorem reads_property : Reads decodeProperty PropertyMeans := by
  intro site ts spec rest
  unfold decodeProperty
  rw [gives_bind]
  constructor
  · rintro ⟨d, hd, hgives⟩
    obtain ⟨v, hv, heq, hdepth⟩ := (reads_value _ _ _ _ _).1 ⟨d, hd, rfl, rfl⟩
    split at hgives
    · next spec' hspec =>
      obtain ⟨rfl, rfl⟩ := gives_ok.1 hgives
      exact ⟨v, hv, hdepth, heq ▸ hspec⟩
    · exact absurd hgives not_gives_fail
  · rintro ⟨v, hv, hdepth, hspec⟩
    obtain ⟨d, hd, rfl, rfl⟩ := (reads_value _ site _ _ _).2 ⟨v, hv, rfl, hdepth⟩
    refine ⟨d, hd, ?_⟩
    simp only [hspec]
    exact gives_ok.2 ⟨rfl, rfl⟩

/-- An object means the properties under its names. -/
def ClassMeans : Json → List (String × PropertySpec) → Prop := MapMeans PropertyMeans

/-- An object means the classes under its names. -/
def ClassesMean : Json → List (String × List (String × PropertySpec)) → Prop := MapMeans ClassMeans

theorem reads_classes : Reads decodeClasses ClassesMean := reads_map (reads_map reads_property)

/-! ## Files written as objects -/

/-- A member adds the section that it names, which has not been there before. -/
inductive SectionAdds : Sections → String → Json → Sections → Prop where
  | enums {found : Sections} {v : Json} {enums : List (String × List String)} :
      found.enums = none → EnumsMean v enums → SectionAdds found "enums" v { found with enums := some enums }
  | classes {found : Sections} {v : Json} {classes : List (String × List (String × PropertySpec))} :
      found.classes = none → ClassesMean v classes →
      SectionAdds found "classes" v { found with classes := some classes }

theorem stepReads_section : StepReads decodeSection SectionAdds := by
  intro found name site ts found' rest
  unfold decodeSection
  constructor
  · intro hgives
    split at hgives
    · next hname =>
      subst hname
      split at hgives
      · exact absurd hgives not_gives_fail
      · next hnew =>
        obtain ⟨enums, hread, rfl⟩ := gives_map.1 hgives
        obtain ⟨v, hv, hmeans⟩ := (gives_memberValue reads_enums).1 hread
        exact ⟨v, hv, .enums (by simpa using hnew) hmeans⟩
    · split at hgives
      · next hname =>
        subst hname
        split at hgives
        · exact absurd hgives not_gives_fail
        · next hnew =>
          obtain ⟨classes, hread, rfl⟩ := gives_map.1 hgives
          obtain ⟨v, hv, hmeans⟩ := (gives_memberValue reads_classes).1 hread
          exact ⟨v, hv, .classes (by simpa using hnew) hmeans⟩
      · exact absurd hgives not_gives_fail
  · rintro ⟨v, hv, hadds⟩
    cases hadds with
    | enums hnew hmeans =>
      rw [if_pos rfl, if_neg (by simp [hnew])]
      exact gives_map.2 ⟨_, (gives_memberValue reads_enums).2 ⟨v, hv, hmeans⟩, rfl⟩
    | classes hnew hmeans =>
      rw [if_neg (by decide), if_pos rfl, if_neg (by simp [hnew])]
      exact gives_map.2 ⟨_, (gives_memberValue reads_classes).2 ⟨v, hv, hmeans⟩, rfl⟩

/-! ## Files written as arrays -/

/-- The items of an array mean the sections, in their order; those at the end may be absent. -/
inductive ArrayMeans : List Json → ModelFile → Prop where
  | absent : ArrayMeans [] {}
  | enums {e : Json} {enums : List (String × List String)} : EnumsMean e enums → ArrayMeans [e] ⟨enums, []⟩
  | both {e c : Json} {enums : List (String × List String)} {classes : List (String × List (String × PropertySpec))} :
      EnumsMean e enums → ClassesMean c classes → ArrayMeans [e, c] ⟨enums, classes⟩

/-- After both sections the array is closed. -/
theorem gives_arrayEnd (site : JsonSite) {ts rest : List Lexeme} {u : Unit} :
    Gives (decodeArrayEnd site ts) u rest ↔ StartsWith ts [.closeArray] rest := by
  unfold decodeArrayEnd
  constructor
  · intro hgives
    split at hgives
    · exact absurd hgives not_gives_fail
    · next t us =>
      split at hgives
      · next hclose =>
        obtain ⟨-, rfl⟩ := gives_ok.1 hgives
        exact startsWith_singleton.2 ⟨t, rfl, hclose⟩
      · split at hgives
        · split at hgives <;> exact absurd hgives not_gives_fail
        · exact absurd hgives not_gives_fail
  · intro h
    obtain ⟨t, rfl, ht⟩ := startsWith_singleton.1 h
    simp only [ht, if_true]
    exact gives_ok.2 ⟨rfl, rfl⟩

/-- The items of the array, to its closing bracket. -/
theorem gives_arrayForm {site : JsonSite} {ts rest : List Lexeme} {f : ModelFile} :
    Gives (decodeArrayForm site ts) f rest ↔
      ∃ items, StartsWith ts (Json.listed .closeArray (Json.itemTokens items)) rest ∧ ArrayMeans items f := by
  have hcomma : Enclosure.array.closing ≠ .comma := nofun
  unfold decodeArrayForm
  constructor
  · intro hgives
    split at hgives
    · exact absurd hgives not_gives_fail
    · next t us =>
      split at hgives
      · next hclose =>
        obtain ⟨rfl, rfl⟩ := gives_ok.1 hgives
        exact ⟨[], startsWith_singleton.2 ⟨t, rfl, hclose⟩, .absent⟩
      · obtain ⟨enums, henums, hgives⟩ := gives_bind.1 hgives
        obtain ⟨more, hmore, hgives⟩ := gives_bind.1 hgives
        obtain ⟨e, he, hmeans⟩ := (reads_enums _ _ _ _).1 ⟨enums, henums, rfl, rfl⟩
        rcases (gives_separator hcomma _).1 ⟨more, hmore, rfl, rfl⟩ with ⟨hvalue, hclose⟩ | ⟨hvalue, hsep, -⟩
        · rw [if_neg (by simp [hvalue])] at hgives
          obtain ⟨rfl, rfl⟩ := gives_ok.1 hgives
          exact ⟨[e], startsWith_listed_singleton.2 ⟨_, he, hclose⟩, .enums hmeans⟩
        · rw [if_pos hvalue] at hgives
          obtain ⟨classes, hclasses, hgives⟩ := gives_bind.1 hgives
          obtain ⟨stop, hstop, hgives⟩ := gives_bind.1 hgives
          obtain ⟨rfl, rfl⟩ := gives_ok.1 hgives
          obtain ⟨c, hc, hmeans'⟩ := (reads_classes _ _ _ _).1 ⟨classes, hclasses, rfl, rfl⟩
          have hclose := (gives_arrayEnd _).1 ⟨stop, hstop, rfl, rfl⟩
          exact ⟨[e, c],
            startsWith_listed_cons_cons.2 ⟨_, _, he, hsep, startsWith_listed_singleton.2 ⟨_, hc, hclose⟩⟩,
            .both hmeans hmeans'⟩
  · rintro ⟨items, hitems, hmeans⟩
    cases hmeans with
    | absent =>
      obtain ⟨t, rfl, ht⟩ := startsWith_singleton.1 hitems
      simp only [ht, if_true]
      exact gives_ok.2 ⟨rfl, rfl⟩
    | enums hmeans =>
      obtain ⟨between, he, hclose⟩ := startsWith_listed_singleton.1 hitems
      obtain ⟨u, us, rfl, hu⟩ := ne_closeArray_of_startsWith he
      obtain ⟨enums, henums, rfl, rfl⟩ := (reads_enums (site.item 0) _ _ _).2 ⟨_, he, hmeans⟩
      obtain ⟨more, hmore, hvalue, rfl⟩ := (gives_separator hcomma site).2 (Or.inl ⟨rfl, hclose⟩)
      dsimp only
      rw [if_neg hu]
      refine gives_bind.2 ⟨enums, henums, gives_bind.2 ⟨more, hmore, ?_⟩⟩
      rw [if_neg (by simp [hvalue])]
      exact gives_ok.2 ⟨rfl, rfl⟩
    | both hmeans hmeans' =>
      obtain ⟨between, others, he, hsep, hothers⟩ := startsWith_listed_cons_cons.1 hitems
      obtain ⟨between', hc, hclose⟩ := startsWith_listed_singleton.1 hothers
      obtain ⟨u, us, rfl, hu⟩ := ne_closeArray_of_startsWith he
      obtain ⟨enums, henums, rfl, rfl⟩ := (reads_enums (site.item 0) _ _ _).2 ⟨_, he, hmeans⟩
      obtain ⟨more, hmore, hvalue, rfl⟩ := (gives_separator hcomma site).2
        (Or.inr ⟨rfl, hsep, ne_closeArray_of_startsWith hc⟩)
      obtain ⟨classes, hclasses, rfl, rfl⟩ := (reads_classes (site.item 1) _ _ _).2 ⟨_, hc, hmeans'⟩
      obtain ⟨stop, hstop, -, rfl⟩ : Gives (decodeArrayEnd site classes.rest) () rest := (gives_arrayEnd site).2 hclose
      dsimp only
      rw [if_neg hu]
      refine gives_bind.2 ⟨enums, henums, gives_bind.2 ⟨more, hmore, ?_⟩⟩
      rw [if_pos hvalue]
      exact gives_bind.2 ⟨classes, hclasses, gives_bind.2 ⟨stop, hstop, gives_ok.2 ⟨rfl, rfl⟩⟩⟩

/-! ## Files -/

/-- A value means a model file. -/
inductive FileMeans : Json → ModelFile → Prop where
  | object {members : List (String × Json)} {found : Sections} :
      Gathers SectionAdds {} members found → FileMeans (.object members) found.toFile
  | array {items : List Json} {f : ModelFile} : ArrayMeans items f → FileMeans (.array items) f

theorem reads_file : Reads decode FileMeans := by
  intro site ts f rest
  unfold decode
  constructor
  · intro hgives
    split at hgives
    · exact absurd hgives not_gives_fail
    · next t us =>
      split at hgives
      · next hopen =>
        obtain ⟨found, hread, rfl⟩ := gives_map_map_after.1 hgives
        obtain ⟨members, hmembers, hgathers⟩ := (gives_members stepReads_section).1 hread
        exact ⟨.object members, startsWith_cons.2 ⟨t, us, rfl, hopen, hmembers⟩, .object hgathers⟩
      · split at hgives
        · next hopen =>
          obtain ⟨items, hitems, hmeans⟩ := gives_arrayForm.1 (gives_map_after.1 hgives)
          exact ⟨.array items, startsWith_cons.2 ⟨t, us, rfl, hopen, hitems⟩, .array hmeans⟩
        · exact absurd hgives not_gives_wrongType
  · rintro ⟨v, hv, hmeans⟩
    cases hmeans with
    | object hgathers =>
      obtain ⟨t, us, rfl, hopen, hmembers⟩ := startsWith_cons.1 hv
      simp only [hopen, if_true]
      exact gives_map_map_after.2 ⟨_, (gives_members stepReads_section).2 ⟨_, hmembers, hgathers⟩, rfl⟩
    | array hmeans =>
      obtain ⟨t, us, rfl, hopen, hitems⟩ := startsWith_cons.1 hv
      have hne : JsonToken.openArray ≠ .openObject := nofun
      simp only [hopen, hne, if_false, if_true]
      exact gives_map_after.2 (gives_arrayForm.2 ⟨_, hitems, hmeans⟩)

/-! ## What comes after a value -/

/-- A text is decoded as a model file, or as enumerations alone, exactly if it begins with the text of a value that means
that. What comes after the value is ignored. -/
theorem decodes_iff_begins (text : String) :
    (∀ f, parse text = .ok f ↔
      ∃ v front rest, text.toList = front ++ rest ∧ JsonToken.Spells v.tokens front ∧ FileMeans v f) ∧
    (∀ enums, run decodeEnums text = .ok enums ↔
      ∃ v front rest, text.toList = front ++ rest ∧ JsonToken.Spells v.tokens front ∧ EnumsMean v enums) := by
  constructor
  · intro f
    exact run_eq_ok_iff reads_file nofun
  · intro enums
    exact run_eq_ok_iff reads_enums (by rintro n enums ⟨members, pairs, h, -⟩; nomatch h)

/-- A letter after the closing brace is ignored, although the text is not that of a value. -/
theorem parse_letter_after_brace :
    parse "\x7b\x7d x" = .ok {} ∧ ¬∃ v : Json, JsonToken.Spells v.tokens "\x7b\x7d x".toList := by
  have hbraces : JsonToken.Spells (Json.object []).tokens ['{', '}'] :=
    .token .openObject (.token .closeObject .nil)
  have htext : "\x7b\x7d x".toList = ['{', '}'] ++ [' ', 'x'] := rfl
  constructor
  · have hmeans : FileMeans (.object []) (Sections.toFile {}) := .object (.nil _)
    exact (run_eq_ok_iff reads_file nofun).2 ⟨.object [], _, _, htext, hbraces, hmeans⟩
  · rintro ⟨v, hv⟩
    rw [htext] at hv
    have hspace := forall_isSpace_of_spells hbraces nofun hv 'x' (by decide)
    nomatch hspace

end ModelFile

end ClassSchema
