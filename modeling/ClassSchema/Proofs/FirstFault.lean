import ClassSchema.Proofs.Beginnings
import ClassSchema.Proofs.Language
import ClassSchema.Proofs.TokenOffsets

/-!
# The first fault of an annotation

What the machine fails with, and what an annotation can be refused for. A run fails at the first token that cannot stand where it
does, or at the end of the tokens (`FirstFault`); what a step can fail with is said once (`stepFault_of_step`). In the place of a
token that is refused, every token that begins with the same character is refused (`step_unexpected_of_firstChar`). What is
written as the grammar asks is refused only for its depth or for the number of arguments of a generic
(`Alternation.refused_of_ofTokens`).
-/

namespace ClassSchema

namespace Grammar

variable {limit depth : Nat} {frames : List Frame} {members : List TypeExpr} {e : TypeExpr} {p : Place} {t : Located}
  {lts : List Located} {fault : Fault}

/-! ## Annotations that are refused -/

/-- The faults of what is written as the grammar asks: it is too deep, or a generic in it has several arguments. -/
def Refused (limit : Nat) (fault : Fault) : Prop :=
  fault = .tooDeep limit ∨ ∃ base count, fault = .tooManyArguments base count

/-- A member that begins too deep is refused. -/
theorem refused_of_begin (h : begin limit depth = .error fault) : Refused limit fault := Or.inl (begin_eq_error h)

/-- A bracket is refused only for the number of its entries. -/
theorem refused_of_closeEntries {base : String} {bracket : Bracket} {es : List TypeExpr}
    (h : closeEntries base bracket es = .error fault) : Refused limit fault := by
  rcases bracket with _ | _ <;> rcases es with _ | ⟨e, _ | ⟨e', es⟩⟩ <;> cases h <;> exact Or.inr ⟨_, _, rfl⟩

mutual

/-- The faults of an annotation. -/
theorem Alternation.refused_of_value : (a : Alternation) → {depth : Nat} → {fault : Fault} →
    a.value limit depth = .error fault → Refused limit fault
  | .single m, depth, fault, h => m.refused_of_value (bind_pure_eq_error h)
  | .alternative m rest, depth, fault, h => by
    rcases bind_eq_error_iff.1 h with h | ⟨_, -, h⟩
    · exact m.refused_of_value h
    · exact rest.refused_of_value (bind_pure_eq_error h)

/-- The faults of a member. -/
theorem Member.refused_of_value : (m : Member) → {depth : Nat} → {fault : Fault} →
    m.value limit depth = .error fault → Refused limit fault
  | .nullable inner, depth, fault, h => by
    rcases bind_eq_error_iff.1 h with h | ⟨_, -, h⟩
    · exact refused_of_begin h
    · exact inner.refused_of_value (bind_pure_eq_error h)
  | .plain p wraps, depth, fault, h => by
    rcases bind_eq_error_iff.1 h with h | ⟨_, -, h⟩
    · exact p.refused_of_value h
    · exact Or.inl (suffixed_eq_error h)

/-- The faults of a primary. -/
theorem Primary.refused_of_value : (p : Primary) → {depth : Nat} → {fault : Fault} →
    p.value limit depth = .error fault → Refused limit fault
  | .name _, depth, fault, h => refused_of_begin (bind_pure_eq_error h)
  | .empty _ _, depth, fault, h => refused_of_begin (bind_pure_eq_error h)
  | .bracketed base bracket _ entries, depth, fault, h => by
    rcases bind_eq_error_iff.1 h with h | ⟨_, -, h⟩
    · exact refused_of_begin h
    rcases bind_eq_error_iff.1 h with h | ⟨_, -, h⟩
    · exact entries.refused_of_value h
    · exact refused_of_closeEntries h

/-- The faults of entries. -/
theorem Entries.refused_of_value : (es : Entries) → {depth : Nat} → {fault : Fault} →
    es.value limit depth = .error fault → Refused limit fault
  | .single a, depth, fault, h => a.refused_of_value (bind_pure_eq_error h)
  | .more a rest, depth, fault, h => by
    rcases bind_eq_error_iff.1 h with h | ⟨_, -, h⟩
    · exact a.refused_of_value h
    · exact rest.refused_of_value (bind_pure_eq_error h)

end

/-- Tokens of an annotation that are not read are refused. -/
theorem Alternation.refused_of_ofTokens {a : Alternation} (ha : lts.map (·.token) = a.tokens)
    (h : TypeExpr.ofTokens limit lts = .error fault) : Refused limit fault := by
  rw [a.ofTokens_eq ha] at h
  cases hv : a.value limit 0 with
  | ok ts =>
    rw [hv] at h
    nomatch h
  | error fault' =>
    rw [hv] at h
    cases h
    exact a.refused_of_value hv

/-! ## Steps that fail -/

/-- What a step can fail with. A word where a member may begin is at fault only for a dash at its end. -/
inductive StepFault (limit : Nat) (p : Place) (t : Located) : Fault → Prop where
  | tooDeep : StepFault limit p t (.tooDeep limit)
  | shapeBase {base : String} : StepFault limit p t (.shapeBase base)
  | tooManyArguments {base : String} {count : Nat} : StepFault limit p t (.tooManyArguments base count)
  | unexpected : (∀ c cs, t.token = .word c cs → ¬Beginning p) → StepFault limit p t t.unexpected
  | dash {c : Char} {cs : List Char} : Beginning p → t.token = .word c cs → cs.getLast? = some '-' →
      StepFault limit p t (.unexpected (t.offset + cs.length) '-')

/-- A token that begins no member. -/
theorem stepFault_beginMember (hp : Beginning p) (h : beginMember limit frames members t = .error fault) :
    StepFault limit p t fault := by
  unfold beginMember at h
  by_cases hd : limit ≤ frames.length
  · rw [if_pos hd] at h
    cases h
    exact .tooDeep
  rw [if_neg hd] at h
  cases ht : t.token with
  | word c cs =>
    simp only [ht] at h
    by_cases hlast : cs.getLast? = some '-'
    · rw [if_pos hlast] at h
      cases h
      exact .dash hp ht hlast
    · rw [if_neg hlast] at h
      nomatch h
  | mark c =>
    simp only [ht] at h
    by_cases hc : c = '?'
    · rw [if_pos hc] at h
      nomatch h
    · rw [if_neg hc] at h
      cases h
      exact .unexpected fun _ _ hword => nomatch ht.symm.trans hword

/-- A token that cannot follow a member. -/
theorem stepFault_endMember (hp : ¬Beginning p) (h : endMember members t frames e = .error fault) :
    StepFault limit p t fault := by
  induction frames generalizing e with
  | nil =>
    unfold endMember at h
    by_cases hbar : t.token = .mark '|'
    · rw [if_pos hbar] at h
      cases h
    · rw [if_neg hbar] at h
      cases h
      exact .unexpected fun _ _ _ => hp
  | cons frame frames ih =>
    cases frame with
    | nullable => exact ih h
    | entries base bracket done outer =>
      unfold endMember at h
      by_cases hbar : t.token = .mark '|'
      · rw [if_pos hbar] at h
        cases h
      rw [if_neg hbar] at h
      by_cases hcomma : t.token = .mark ','
      · rw [if_pos hcomma] at h
        cases h
      rw [if_neg hcomma] at h
      by_cases hclose : t.token = .mark bracket.close
      · rw [if_pos hclose] at h
        cases hr : closeEntries base bracket (done ++ [unionOf members e]) with
        | ok r =>
          rw [hr] at h
          cases h
        | error fault' =>
          rw [hr] at h
          cases h
          have hrefused : Refused limit fault := refused_of_closeEntries hr
          rcases hrefused with rfl | ⟨base, count, rfl⟩
          · exact .tooDeep
          · exact .tooManyArguments
      · rw [if_neg hclose] at h
        cases h
        exact .unexpected fun _ _ _ => hp

/-- A token that cannot follow an expression. -/
theorem stepFault_afterExpr {wraps : Nat} (hp : ¬Beginning p) (h : afterExpr frames members e wraps t = .error fault) :
    StepFault limit p t fault := by
  unfold afterExpr at h
  by_cases hsquare : t.token = .mark '['
  · rw [if_pos hsquare] at h
    nomatch h
  · rw [if_neg hsquare] at h
    exact stepFault_endMember hp h

/-- What a step can fail with, phase by phase. -/
theorem stepFault_of_step (h : p.step limit t = .error fault) : StepFault limit p t fault := by
  obtain ⟨frames, members, phase⟩ := p
  cases phase with
  | start => exact stepFault_beginMember (Or.inl rfl) h
  | opened base bracket =>
    have hp : Beginning ⟨frames, members, .opened base bracket⟩ := Or.inr ⟨base, bracket, rfl⟩
    simp only [Place.step] at h
    by_cases hclose : t.token = .mark bracket.close
    · rw [if_pos hclose] at h
      cases bracket with
      | brace => nomatch h
      | angle =>
        cases h
        exact .unexpected fun _ _ hword => nomatch hclose.symm.trans hword
    · rw [if_neg hclose] at h
      exact stepFault_beginMember hp h
  | named name =>
    have hp : ¬Beginning ⟨frames, members, .named name⟩ := by simp [Beginning]
    simp only [Place.step] at h
    by_cases hangle : t.token = .mark '<'
    · rw [if_pos hangle] at h
      nomatch h
    rw [if_neg hangle] at h
    by_cases hbrace : t.token = .mark '{'
    · rw [if_pos hbrace] at h
      by_cases harray : TypeExpr.isArrayName name = true
      · rw [if_pos harray] at h
        nomatch h
      · rw [if_neg harray] at h
        cases h
        exact .shapeBase
    · rw [if_neg hbrace] at h
      exact stepFault_afterExpr hp h
  | suffixed expr wraps =>
    have hp : ¬Beginning ⟨frames, members, .suffixed expr wraps⟩ := by simp [Beginning]
    exact stepFault_afterExpr hp h
  | square expr wraps =>
    have hp : ¬Beginning ⟨frames, members, .square expr wraps⟩ := by simp [Beginning]
    simp only [Place.step] at h
    by_cases hclose : t.token = .mark ']'
    · rw [if_pos hclose] at h
      by_cases hd : limit ≤ frames.length + wraps + 1
      · rw [if_pos hd] at h
        cases h
        exact .tooDeep
      · rw [if_neg hd] at h
        nomatch h
    · rw [if_neg hclose] at h
      cases h
      exact .unexpected fun _ _ _ => hp

/-- No word follows a member. -/
theorem endMember_word {c : Char} {cs : List Char} (ht : t.token = .word c cs) :
    endMember members t frames e = .error t.unexpected := by
  induction frames generalizing e with
  | nil => simp [endMember, ht]
  | cons frame frames ih =>
    cases frame with
    | nullable => exact ih
    | entries base bracket done outer => simp [endMember, ht]

/-- A word stands only where a member may begin. -/
theorem step_word (hp : ¬Beginning p) {c : Char} {cs : List Char} (ht : t.token = .word c cs) :
    p.step limit t = .error t.unexpected := by
  obtain ⟨frames, members, phase⟩ := p
  cases phase with
  | start => exact absurd (Or.inl rfl) hp
  | opened base bracket => exact absurd (Or.inr ⟨base, bracket, rfl⟩) hp
  | named name => simp [Place.step, afterExpr, ht, endMember_word ht]
  | suffixed expr wraps => simp [Place.step, afterExpr, ht, endMember_word ht]
  | square expr wraps => simp [Place.step, ht]

/-- In the place of a token that is refused, every token that begins like it is refused. -/
theorem step_unexpected_of_firstChar {u : Token} (ht : Proper t.token) (hu : Proper u)
    (hfirst : t.token.firstChar = u.firstChar) (hword : ∀ c cs, t.token = .word c cs → ¬Beginning p)
    (h : p.step limit t = .error t.unexpected) : p.step limit ⟨t.offset, u⟩ = .error t.unexpected := by
  rcases eq_or_words_of_firstChar ht hu hfirst with rfl | ⟨c, cs, ds, hcs, rfl⟩
  · exact h
  · rw [step_word (hword c cs hcs) rfl, Located.unexpected, Located.unexpected, hfirst]

/-! ## Runs that fail -/

/-- A run that fails stops at a step, and the steps before succeed. -/
theorem exists_step_error (h : lts.foldlM (Place.step limit) p = .error fault) :
    ∃ before t after q, lts = before ++ t :: after ∧ before.foldlM (Place.step limit) p = .ok q ∧
      q.step limit t = .error fault := by
  induction lts generalizing p with
  | nil => nomatch h
  | cons t lts ih =>
    rw [List.foldlM_cons] at h
    rcases bind_eq_error_iff.1 h with h | ⟨p', hp', h⟩
    · exact ⟨[], t, lts, p, rfl, rfl, h⟩
    · obtain ⟨before, u, after, q, rfl, hq, hu⟩ := ih h
      refine ⟨t :: before, u, after, q, rfl, ?_, hu⟩
      rw [List.foldlM_cons, hp']
      exact hq

/-- What follows a token that is refused is not looked at. -/
theorem foldlM_of_stop {before : List Located} {start : Place}
    (hrun : before.foldlM (Place.step limit) start = .ok p) (hstep : p.step limit t = .error fault) (after : List Located) :
    (before ++ t :: after).foldlM (Place.step limit) start = .error fault := by
  rw [List.foldlM_append, hrun]
  change (t :: after).foldlM (Place.step limit) p = _
  rw [List.foldlM_cons, hstep]
  rfl

/-- A run stops at one token only. -/
theorem stop_unique {before after before' after' : List Located} {t' : Located} {start p' : Place} {fault' : Fault}
    (h : before ++ t :: after = before' ++ t' :: after') (hrun : before.foldlM (Place.step limit) start = .ok p)
    (hstep : p.step limit t = .error fault) (hrun' : before'.foldlM (Place.step limit) start = .ok p')
    (hstep' : p'.step limit t' = .error fault') : before = before' ∧ fault = fault' := by
  have hsame : before = before' := by
    rcases List.append_eq_append_iff.1 h with ⟨more, rfl, hmore⟩ | ⟨more, rfl, hmore⟩
    · rcases more with _ | ⟨s, more⟩
      · exact (List.append_nil before).symm
      · obtain ⟨rfl, -⟩ := List.cons.inj hmore
        nomatch (foldlM_of_stop hrun hstep more).symm.trans hrun'
    · rcases more with _ | ⟨s, more⟩
      · exact List.append_nil before'
      · obtain ⟨rfl, -⟩ := List.cons.inj hmore
        nomatch (foldlM_of_stop hrun' hstep' more).symm.trans hrun
  have hfault : (.error fault : Except Fault Place) = .error fault' := by
    rw [← foldlM_of_stop hrun hstep after, ← foldlM_of_stop hrun' hstep' after', h]
  exact ⟨hsame, Except.error.inj hfault⟩

/-- Where a run from the first token stops, the tokens are refused. -/
theorem ofTokens_of_stop {before : List Located} (hrun : before.foldlM (Place.step limit) .initial = .ok p)
    (hstep : p.step limit t = .error fault) (after : List Located) :
    TypeExpr.ofTokens limit (before ++ t :: after) = .error fault := by
  rw [TypeExpr.ofTokens, if_neg (by simp), foldlM_of_stop hrun hstep]
  rfl

/-- The first fault of tokens: there are none, they end too early, or a step fails. -/
inductive FirstFault (limit : Nat) : List Located → Fault → Prop where
  | empty : FirstFault limit [] .empty
  | atEnd {lts : List Located} {p : Place} {fault : Fault} : lts.foldlM (Place.step limit) .initial = .ok p →
      (fault = .tooDeep limit ∨ ∃ expected, fault = .unexpectedEnd expected) → FirstFault limit lts fault
  | step {before after : List Located} {t : Located} {p : Place} {fault : Fault} :
      before.foldlM (Place.step limit) .initial = .ok p → p.step limit t = .error fault →
        FirstFault limit (before ++ t :: after) fault

/-- A text that ends too early wants something, or is too deep already. -/
theorem endText_eq_error (h : endText members frames e = .error fault) : ∃ expected, fault = .unexpectedEnd expected := by
  induction frames generalizing e with
  | nil => nomatch h
  | cons frame frames ih =>
    cases frame with
    | nullable => exact ih h
    | entries base bracket done outer =>
      cases h
      exact ⟨_, rfl⟩

/-- What the end of a text can fail with. -/
theorem finish_eq_error (h : p.finish limit = .error fault) :
    fault = .tooDeep limit ∨ ∃ expected, fault = .unexpectedEnd expected := by
  obtain ⟨frames, members, phase⟩ := p
  have hlate {n : Nat} (h : .error (if limit ≤ n then .tooDeep limit else .unexpectedEnd .name) =
      (.error fault : Except Fault TypeExpr)) : fault = .tooDeep limit ∨ ∃ expected, fault = .unexpectedEnd expected := by
    split at h
    · exact Or.inl (Except.error.inj h).symm
    · exact Or.inr ⟨_, (Except.error.inj h).symm⟩
  cases phase with
  | start => exact hlate h
  | opened base bracket => exact hlate h
  | named name => exact Or.inr (endText_eq_error h)
  | suffixed expr wraps => exact Or.inr (endText_eq_error h)
  | square expr wraps => exact Or.inr ⟨_, (Except.error.inj h).symm⟩

/-- Tokens that are not read have a first fault. -/
theorem firstFault_of_ofTokens (h : TypeExpr.ofTokens limit lts = .error fault) : FirstFault limit lts fault := by
  unfold TypeExpr.ofTokens at h
  cases lts with
  | nil =>
    cases h
    exact .empty
  | cons t lts =>
    rcases bind_eq_error_iff.1 h with h | ⟨p, hp, h⟩
    · obtain ⟨before, u, after, q, hlts, hq, hu⟩ := exists_step_error h
      rw [hlts]
      exact .step hq hu
    · exact .atEnd hp (finish_eq_error h)

/-- Only where there are no tokens is the fault that there are none. -/
theorem FirstFault.eq_nil (h : FirstFault limit lts .empty) : lts = [] := by
  cases h with
  | empty => rfl
  | atEnd _ h => rcases h with h | ⟨_, h⟩ <;> nomatch h
  | step _ h => nomatch stepFault_of_step h

/-- Where tokens end too early, all of them are read to a place. -/
theorem FirstFault.exists_place {expected : Expected} (h : FirstFault limit lts (.unexpectedEnd expected)) :
    ∃ p, lts.foldlM (Place.step limit) .initial = .ok p := by
  cases h with
  | atEnd h _ => exact ⟨_, h⟩
  | step _ h => nomatch stepFault_of_step h

/-- Any other fault is found at a token, and the tokens before are read to a place. -/
theorem FirstFault.exists_step (h : FirstFault limit lts fault) (hempty : fault ≠ .empty) (hdeep : fault ≠ .tooDeep limit)
    (hend : ∀ expected, fault ≠ .unexpectedEnd expected) :
    ∃ before t after p, lts = before ++ t :: after ∧ before.foldlM (Place.step limit) .initial = .ok p ∧
      p.step limit t = .error fault := by
  cases h with
  | empty => exact absurd rfl hempty
  | atEnd _ h =>
    rcases h with h | ⟨expected, h⟩
    · exact absurd h hdeep
    · exact absurd h (hend expected)
  | step hp h => exact ⟨_, _, _, _, rfl, hp, h⟩

end Grammar

end ClassSchema
