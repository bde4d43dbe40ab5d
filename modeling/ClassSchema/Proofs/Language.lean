import ClassSchema.Proofs.ReadTo
import ClassSchema.Proofs.Reading

/-!
# The language of annotations

The texts that are read are those of the grammar, up to the limit on their nesting. A text has a value exactly when it writes
a tree that stands for the value and costs no more than the limit; a text that writes a tree that costs more is refused for
its depth (`TypeExpr.parse_iff_writes`). One half is that the machine reads every tree (`Alternation.ofTokens_eq`), the other
that the tokens behind it are at every place the beginning of one (`writesEntry_of_ofTokens`).
-/

namespace ClassSchema

namespace Grammar

variable {limit : Nat} {lts : List Located}

/-! ## Tokens -/

/-- The tokens of an annotation are read to its value, from the first to the end of the text. -/
theorem Alternation.ofTokens_eq (a : Alternation) (h : lts.map (·.token) = a.tokens) :
    TypeExpr.ofTokens limit lts = (a.value limit 0).map ofMembers := by
  have hne : lts.isEmpty = false := by
    obtain ⟨t, us, htokens, -⟩ := a.begins
    rw [htokens] at h
    obtain ⟨lt, rest, rfl, -⟩ := List.map_eq_cons_iff.1 h
    rfl
  have hreads := a.reads limit [] [] (by simp)
  have hofTokens : TypeExpr.ofTokens limit lts =
      (lts.foldlM (Place.step limit) .initial >>= fun p => p.finish limit) := by
    simp [TypeExpr.ofTokens, hne]
  rw [hofTokens]
  change Reads limit .initial a.tokens (a.value limit 0) _ at hreads
  cases hv : a.value limit 0 with
  | error fault =>
    rw [hv] at hreads
    rw [hreads lts h]
    rfl
  | ok ts =>
    rw [hv] at hreads
    obtain ⟨p, ⟨before, last, hts, hready⟩, hruns⟩ := hreads
    obtain rfl : ts = before ++ [last] := hts
    rw [hruns lts h]
    change p.finish limit = .ok (ofMembers (before ++ [last]))
    rw [hready.finish, ← unionOf_eq_ofMembers]
    rfl

/-- Tokens that are read are those of an annotation with the value. -/
theorem writesEntry_of_ofTokens (hproper : ∀ t ∈ lts, Proper t.token) {t : TypeExpr}
    (h : TypeExpr.ofTokens limit lts = .ok t) : WritesEntry limit 0 t (lts.map (·.token)) := by
  unfold TypeExpr.ofTokens at h
  by_cases hne : lts.isEmpty = true
  · rw [if_pos hne] at h
    nomatch h
  · rw [if_neg hne] at h
    obtain ⟨p, hp, h⟩ := bind_eq_ok_iff.1 h
    exact ((readTo_initial limit).run hproper hp).finish h

/-- An annotation has an expression as its value exactly when it stands for it and costs no more than the limit. -/
theorem Alternation.map_value_eq_ok_iff {a : Alternation} {t : TypeExpr} :
    (a.value limit 0).map ofMembers = .ok t ↔ a.expr? = some t ∧ a.cost ≤ limit := by
  constructor
  · intro h
    cases hv : a.value limit 0 with
    | error fault =>
      rw [hv] at h
      nomatch h
    | ok ts =>
      rw [hv] at h
      obtain ⟨hts, hcost⟩ := a.value_eq_ok_iff.1 hv
      rw [Nat.zero_add] at hcost
      refine ⟨?_, hcost⟩
      unfold Alternation.expr?
      rw [hts, ← Except.ok.inj h]
      rfl
  · rintro ⟨ht, hcost⟩
    obtain ⟨ts, hts, rfl⟩ := Option.map_eq_some_iff.1 ht
    have hcost' : 0 + a.cost ≤ limit := by omega
    rw [a.value_eq_ok_iff.2 ⟨hts, hcost'⟩]
    rfl

/-- An annotation that stands for an expression and costs more than the limit is too deep. -/
theorem Alternation.map_value_eq_tooDeep {a : Alternation} {t : TypeExpr} (ht : a.expr? = some t)
    (hcost : limit < a.cost) : (a.value limit 0).map ofMembers = .error (.tooDeep limit) := by
  cases hv : a.value limit 0 with
  | ok ts =>
    obtain ⟨-, hle⟩ := a.value_eq_ok_iff.1 hv
    omega
  | error fault =>
    obtain ⟨ts, hts, -⟩ := Option.map_eq_some_iff.1 ht
    rw [a.value_error hts hv]
    rfl

/-! ## Texts -/

/-- A text has the value of the tokens found in it. -/
theorem parse_eq_ok_iff_ofTokens {text : String} {t : TypeExpr} :
    TypeExpr.parse text = .ok t ↔ TypeExpr.ofTokens maxNesting (Token.scan 0 text.toList) = .ok t := by
  unfold TypeExpr.parse
  cases TypeExpr.ofTokens maxNesting (Token.scan 0 text.toList) with
  | error fault => simp [Except.mapError]
  | ok r => simp [Except.mapError]

/-- From every text that writes an annotation the value of the annotation is read. -/
theorem Alternation.parse_eq {a : Alternation} {text : String} (h : a.Writes text) :
    TypeExpr.parse text = ((a.value maxNesting 0).map ofMembers).mapError (⟨text, ·⟩) := by
  rw [TypeExpr.parse, a.ofTokens_eq ((a.writes_iff_scan text 0).1 h)]

/-- An annotation that stands for an expression and costs no more than the limit is read as the expression. -/
theorem Alternation.parse_eq_ok {a : Alternation} {text : String} {t : TypeExpr} (hwrites : a.Writes text)
    (ht : a.expr? = some t) (hcost : a.cost ≤ maxNesting) : TypeExpr.parse text = .ok t := by
  rw [a.parse_eq hwrites, Alternation.map_value_eq_ok_iff.2 ⟨ht, hcost⟩]
  rfl

/-- An annotation that stands for an expression and costs more than the limit is refused for its depth. -/
theorem Alternation.parse_eq_tooDeep {a : Alternation} {text : String} {t : TypeExpr} (hwrites : a.Writes text)
    (ht : a.expr? = some t) (hcost : maxNesting < a.cost) :
    TypeExpr.parse text = .error ⟨text, .tooDeep maxNesting⟩ := by
  rw [a.parse_eq hwrites, Alternation.map_value_eq_tooDeep ht hcost]
  rfl

/-- A text that is read writes an annotation that stands for its value and costs no more than the limit. -/
theorem exists_writes_of_parse {text : String} {t : TypeExpr} (h : TypeExpr.parse text = .ok t) :
    ∃ a : Alternation, a.Writes text ∧ a.expr? = some t ∧ a.cost ≤ maxNesting := by
  have hproper := proper_of_mem_scan 0 text.toList
  obtain ⟨ts, rfl, a, htokens, hvalue⟩ := writesEntry_of_ofTokens hproper (parse_eq_ok_iff_ofTokens.1 h)
  have hmap : (a.value maxNesting 0).map ofMembers = .ok (ofMembers ts) := by
    rw [hvalue]
    rfl
  exact ⟨a, (a.writes_iff_scan text 0).2 htokens.symm, Alternation.map_value_eq_ok_iff.1 hmap⟩

end Grammar

open Grammar

/-- A text has a value exactly when it writes an annotation of the grammar that stands for the value and costs no more than
the limit. A text that writes an annotation that costs more is refused for its depth. -/
theorem TypeExpr.parse_iff_writes (text : String) :
    (∀ t, TypeExpr.parse text = .ok t ↔
      ∃ a : Alternation, a.Writes text ∧ a.expr? = some t ∧ a.cost ≤ maxNesting) ∧
    ∀ (a : Alternation) (t : TypeExpr), a.Writes text → a.expr? = some t → maxNesting < a.cost →
      TypeExpr.parse text = .error ⟨text, .tooDeep maxNesting⟩ := by
  constructor
  · intro t
    constructor
    · exact exists_writes_of_parse
    · rintro ⟨a, hwrites, ht, hcost⟩
      exact a.parse_eq_ok hwrites ht hcost
  · intro a t hwrites ht hcost
    exact a.parse_eq_tooDeep hwrites ht hcost

example : TypeExpr.parse (.ofList (List.replicate maxNesting '?' ++ ['a'])) =
    .error ⟨.ofList (List.replicate maxNesting '?' ++ ['a']), .tooDeep maxNesting⟩ := by
  cbv

example : TypeExpr.parse " ?a [ ] | ARRAY{b-c}" =
    .ok (.union [(TypeExpr.ident "a").arrayOf.nullable, .tuple [.ident "b-c"]]) := by
  cbv

end ClassSchema
