import ClassSchema.Proofs.Agreement
import ClassSchema.Proofs.Expandable
import ClassSchema.Proofs.Tuples

/-!
# Names in tuples

An element of a tuple has to name a scalar, and that is asked first: what else the name is registered as does not matter then. So
the name of a class or of an enumeration is refused in a tuple that an expansion comes to, or something before it is, exactly as
long as it is no scalar's name (`registered_element`). A class that has the name of a scalar is read as the scalar inside tuples
and as the class outside (`exists_class_read_as_scalar`).
-/

namespace ClassSchema

namespace Model

variable {m : Model} {options : ExpansionOptions} {policy : TuplePolicy} {path : PropertyPath}

/-! ## The element at which a tuple fails -/

/-- A failure because of an element of a tuple: the element names no scalar, or the strict policy asks for another one. -/
inductive ElementFailure (m : Model) (policy : TuplePolicy) (path : PropertyPath) (elements : List TypeExpr) (t : TypeExpr) :
    SchemaError → Prop where
  | own {e : SchemaError} : (m.elementScalar path.items t).result = .error e → ElementFailure m policy path elements t e
  | mixed {first other : Scalar} : policy = .homogeneous → t.scalar? = some other → other ≠ first →
      ElementFailure m policy path elements t
        ⟨path, .unsupported (TypeExpr.tuple elements).render (.mixedTuple first other)⟩

/-- A tuple fails because of an element before which there are only scalars. -/
theorem exists_elementFailure {elements : List TypeExpr} {e : SchemaError}
    (h : (m.tupleSchema policy path elements).result = .error e) :
    ∃ before t after, elements = before ++ t :: after ∧ (∀ u ∈ before, ∃ s, u.scalar? = some s) ∧
      m.ElementFailure policy path elements t e := by
  rcases elements with _ | ⟨head, rest⟩
  · cases h
  rw [tupleSchema, Traced.result_bind_eq_error] at h
  rcases h with h | ⟨first, hfirst, h⟩
  · exact ⟨[], head, rest, rfl, by simp, .own h⟩
  replace hfirst := elementScalar_eq_ok_iff.1 hfirst
  rcases Traced.result_bind_eq_error.1 h with h | ⟨_, -, h⟩
  · obtain ⟨before, t, after, rfl, hbefore, ht⟩ := Traced.result_forM_eq_error.1 h
    refine ⟨head :: before, t, after, rfl, ?_, ?_⟩
    · refine List.forall_mem_cons.2 ⟨⟨first, hfirst⟩, fun u hu => ?_⟩
      obtain ⟨other, hother, -⟩ := laterElement_eq_ok_iff.1 (hbefore u hu)
      exact ⟨other, hother⟩
    · rcases laterElement_eq_error_iff.1 ht with ht | ⟨other, hother, hne, hp, rfl⟩
      · exact .own ht
      · exact .mixed hp hother hne
  · cases h

/-- A name that is registered and is no scalar's is refused as an element. -/
theorem elementScalar_of_registered {name : String} (hscalar : Scalar.ofName? name = none)
    (hregistered : ¬m.Unregistered name) :
    m.elementScalar path (.ident name) = failAt path (.unsupported name .compoundElement) := by
  have hname : (m.classes.contains name || m.enums.contains name) = true := by
    rw [Bool.or_eq_true]
    by_contra hnone
    simp only [not_or, Bool.not_eq_true] at hnone
    exact hregistered hnone
  simp only [elementScalar, hscalar, hname, if_true, TypeExpr.render]

/-- Of two entries of one list, one stands before the other, or they are the same. -/
theorem cases_of_split {α : Type} {before after before' after' : List α} {x y : α}
    (h : before ++ x :: after = before' ++ y :: after') : y = x ∨ y ∈ before ∨ x ∈ before' := by
  rcases List.append_eq_append_iff.1 h with ⟨more, rfl, hmore⟩ | ⟨more, rfl, hmore⟩
  · rcases more with _ | ⟨u, more⟩
    · exact Or.inl (List.cons.inj hmore).1.symm
    · rw [(List.cons.inj hmore).1]
      exact Or.inr (Or.inr (List.mem_append_right _ List.mem_cons_self))
  · rcases more with _ | ⟨u, more⟩
    · exact Or.inl (List.cons.inj hmore).1
    · rw [(List.cons.inj hmore).1]
      exact Or.inr (Or.inl (List.mem_append_right _ List.mem_cons_self))

/-- A tuple with a registered name that is no scalar's fails because of it or of an element before it. -/
theorem tupleSchema_of_registered {before after : List TypeExpr} {name : String} (hscalar : Scalar.ofName? name = none)
    (hregistered : ¬m.Unregistered name) :
    ∃ e, (m.tupleSchema policy path (before ++ .ident name :: after)).result = .error e ∧
      (e = ⟨path.items, .unsupported name .compoundElement⟩ ∨
        ∃ t ∈ before, m.ElementFailure policy path (before ++ .ident name :: after) t e) := by
  have hnone : ¬∃ s, (TypeExpr.ident name).scalar? = some s := by
    rintro ⟨s, hs⟩
    rw [TypeExpr.scalar?, hscalar] at hs
    cases hs
  cases hr : (m.tupleSchema policy path (before ++ .ident name :: after)).result with
  | ok s =>
    -- A tuple has a schema only if all its elements name scalars.
    cases (exists_tupleSchema_iff (m := m)).1 ⟨s, hr⟩ with
    | tuple hall _ => exact absurd (hall _ (List.mem_append_right _ List.mem_cons_self)) hnone
  | error e =>
    refine ⟨e, rfl, ?_⟩
    obtain ⟨before', t, after', helements, hbefore', hfailure⟩ := exists_elementFailure hr
    rcases cases_of_split helements with rfl | ht | hname
    · left
      cases hfailure with
      | own h =>
        rw [elementScalar_of_registered hscalar hregistered] at h
        exact (Except.error.inj h).symm
      | mixed _ hother _ => exact absurd ⟨_, hother⟩ hnone
    · exact Or.inr ⟨t, ht, hfailure⟩
    · exact absurd (hbefore' _ hname) hnone

/-- What is registered does not matter to a tuple of scalars' names. -/
theorem tupleSchema_of_scalars (m m' : Model) {elements : List TypeExpr} (h : ∀ t ∈ elements, ∃ s, t.scalar? = some s) :
    m.tupleSchema policy path elements = m'.tupleSchema policy path elements := by
  have hsame (q : PropertyPath) : ∀ t ∈ elements, m.elementScalar q t = m'.elementScalar q t := by
    intro t ht
    obtain ⟨s, hs⟩ := h t ht
    rw [elementScalar_of_some hs, elementScalar_of_some hs]
  rcases elements with _ | ⟨head, rest⟩
  · rfl
  have hrest (first : Scalar) : rest.forM (m.laterElement policy path (head :: rest) first) =
      rest.forM (m'.laterElement policy path (head :: rest) first) := by
    refine forM_congr fun t ht => ?_
    rw [laterElement, laterElement, hsame path.items t (List.mem_cons_of_mem head ht)]
  simp only [tupleSchema, hsame path.items head List.mem_cons_self, hrest]

/-! ## Tuples that an expansion comes to -/

/-- Where an expansion comes to a tuple that fails, it fails as the tuple does. -/
theorem Reaches.generate_eq_error {root : String} {address : List Nat} {active : List String} {elements : List TypeExpr}
    {e : SchemaError} (h : m.Reaches options root address ⟨path, active, .type (.tuple elements)⟩)
    (he : (m.tupleSchema options.tuplePolicy path elements).result = .error e) :
    (m.generate options root).result = .error e := by
  have hjudges : m.Judges options ⟨path, active, .type (.tuple elements)⟩
      (m.tupleSchema options.tuplePolicy path elements).result := judges_tupleSchema elements
  rw [he] at hjudges
  exact h.generate_of_firstDefect hjudges

/-- A property with a type has no defect of its own. -/
theorem not_defect_property {active : List String} {p : Property} {t : TypeExpr} {fault : SchemaFault}
    (ht : p.expr? = some t) : ¬m.Defect options ⟨path, active, .property p⟩ fault := by
  obtain ⟨text, htext, hparse⟩ := Property.expr?_eq_some_iff.1 ht
  intro hdefect
  cases hdefect with
  | annotationCount h =>
    rw [htext] at h
    exact h rfl
  | malformed h he _ | arity h he _ =>
    cases htext.symm.trans h
    nomatch hparse.symm.trans he

/-- An expansion comes to the type of the root's first property. -/
theorem reaches_first {root : String} {c : ClassDecl} {p : Property} {others : List Property} {t : TypeExpr}
    (hc : m.classes.get? root = some c) (hp : c.properties = p :: others) (ht : p.expr? = some t) :
    m.Reaches options root [0, 0] ⟨.property (.root root) p.name, [root], .type t⟩ := by
  have hproperty : m.Reaches options root [0] ⟨.property (.root root) p.name, [root], .property p⟩ := reaches_firstProperty hc hp
  obtain ⟨next, hnext, hsite⟩ := siteAt?_cons_eq_some_iff.1 hproperty.1
  cases hsite
  refine ⟨siteAt?_cons_eq_some_iff.2 ⟨_, hnext, siteAt?_cons_eq_some_iff.2 ⟨_, ?_, rfl⟩⟩, ?_⟩
  · simp only [below, ht, Option.toList_some, List.map_cons, List.getElem?_cons_zero]
  intro earlier hlt passed hpassed fault
  -- Only the root and its first property come before.
  rcases earlier with _ | ⟨i, earlier⟩
  · exact hproperty.2 [] (List.nil_lt_cons 0 []) passed hpassed fault
  rcases List.cons_lt_cons_iff.1 hlt with hi | ⟨rfl, hrest⟩
  · exact absurd hi (Nat.not_lt_zero i)
  rcases earlier with _ | ⟨j, earlier⟩
  · cases hproperty.1.symm.trans hpassed
    exact not_defect_property ht
  · rcases List.cons_lt_cons_iff.1 hrest with hj | ⟨-, hnil⟩
    · exact absurd hj (Nat.not_lt_zero j)
    · exact absurd hnil (List.not_lt_nil earlier)

/-- A name that is registered and is no scalar's is never read as a scalar in a tuple: where an expansion comes to the tuple, it
fails because of the name, or of an element before it, and has no schema. A scalar's name is read as the scalar whatever it is
registered as: a tuple of such names comes to the same in every model. -/
theorem registered_element {root : String} {address : List Nat} {active : List String} {elements : List TypeExpr}
    (hreached : m.Reaches options root address ⟨path, active, .type (.tuple elements)⟩) :
    (∀ before name after, elements = before ++ .ident name :: after → ¬m.Unregistered name → Scalar.ofName? name = none →
      ∃ e, (m.tupleSchema options.tuplePolicy path elements).result = .error e ∧
        (m.generate options root).result = .error e ∧
        (e = ⟨path.items, .unsupported name .compoundElement⟩ ∨
          ∃ t ∈ before, m.ElementFailure options.tuplePolicy path elements t e)) ∧
    ((∀ t ∈ elements, ∃ s, t.scalar? = some s) → ∀ m' : Model,
      m.tupleSchema options.tuplePolicy path elements = m'.tupleSchema options.tuplePolicy path elements) := by
  refine ⟨?_, fun hscalars m' => tupleSchema_of_scalars m m' hscalars⟩
  rintro before name after rfl hregistered hscalar
  obtain ⟨e, he, hcause⟩ := tupleSchema_of_registered hscalar hregistered
  exact ⟨e, he, hreached.generate_eq_error he, hcause⟩

/-- A model with a class in a tuple, after a scalar. -/
def pairedPoint : Model :=
  ⟨⟨[⟨"Point", [⟨"x", ["float"]⟩]⟩, ⟨"Pin", [⟨"place", ["array{string,Point}"]⟩]⟩], by decide, by decide⟩, ⟨[], List.nodup_nil⟩⟩

theorem registered_element_pairedPoint :
    ∃ e, (pairedPoint.generate {} "Pin").result = .error e ∧
      (e = ⟨.items (.property (.root "Pin") "place"), .unsupported "Point" .compoundElement⟩ ∨
        ∃ t ∈ [TypeExpr.ident "string"], pairedPoint.ElementFailure .firstElement (.property (.root "Pin") "place")
          [.ident "string", .ident "Point"] t e) := by
  have htype : (⟨"place", ["array{string,Point}"]⟩ : Property).expr? = some (.tuple [.ident "string", .ident "Point"]) := by
    decide +kernel
  have hreached : pairedPoint.Reaches {} "Pin" [0, 0]
      ⟨.property (.root "Pin") "place", ["Pin"], .type (.tuple [.ident "string", .ident "Point"])⟩ :=
    reaches_first rfl rfl htype
  obtain ⟨hregistered, -⟩ := registered_element hreached
  obtain ⟨e, -, herror, hcause⟩ :=
    hregistered [.ident "string"] "Point" [] rfl (fun h => absurd h.1 (by decide)) (by decide +kernel)
  exact ⟨e, herror, hcause⟩

/-- A model with a class that has the name of a scalar. -/
def shadowedInt : Model :=
  ⟨⟨[⟨"int", []⟩, ⟨"Holder", [⟨"p", ["array{int}"]⟩]⟩], by decide, by decide⟩, ⟨[], List.nodup_nil⟩⟩

/-- An expansion can come to a tuple with the name of a registered class, and read the name as a scalar. -/
theorem exists_class_read_as_scalar :
    ∃ address path active, shadowedInt.Reaches {} "Holder" address ⟨path, active, .type (.tuple [.ident "int"])⟩ ∧
      shadowedInt.classes.contains "int" = true ∧
      (shadowedInt.generate {} "Holder").result = .ok (.object "Holder" [("p", .tuple .int 1)]) := by
  have htype : (⟨"p", ["array{int}"]⟩ : Property).expr? = some (.tuple [.ident "int"]) := by
    decide +kernel
  have hreached : shadowedInt.Reaches {} "Holder" [0, 0]
      ⟨.property (.root "Holder") "p", ["Holder"], .type (.tuple [.ident "int"])⟩ :=
    reaches_first rfl rfl htype
  exact ⟨_, _, _, hreached, by decide +kernel, by decide +kernel⟩

end Model

end ClassSchema
