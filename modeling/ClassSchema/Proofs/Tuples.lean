import ClassSchema.Proofs.FirstDefect
import ClassSchema.Proofs.SideBySide

/-!
# Tuples

What a tuple comes to depends on the policy only if it is mixed: an element names another scalar than the first element, and all
elements before it name the first one's (`TypeExpr.Mixed`). A tuple that is not mixed raises no warning and is the same under
both policies; a mixed one is a warning under the one and the same words as a failure under the other (`tupleSchema_cases`). What
holds of tuples holds of whole expansions, since both policies take the same steps elsewhere (`Model.Refuses`). So strict tuples
only ever refuse (`generate_homogeneous`).
-/

namespace ClassSchema

/-- An element of a tuple names another scalar than the first element, and all elements before it name the first one's. -/
def TypeExpr.Mixed (elements : List TypeExpr) (first other : Scalar) : Prop :=
  ∃ head before found after, elements = head :: (before ++ found :: after) ∧ head.scalar? = some first ∧
    (∀ t ∈ before, t.scalar? = some first) ∧ found.scalar? = some other ∧ other ≠ first

namespace Model

variable {m : Model} {policy : TuplePolicy} {path : PropertyPath}

/-! ## Elements -/

/-- The name of a scalar is the scalar. -/
theorem elementScalar_of_some {t : TypeExpr} {s : Scalar} (h : t.scalar? = some s) : m.elementScalar path t = pure s := by
  cases t with
  | ident name =>
    have hname : Scalar.ofName? name = some s := h
    simp only [elementScalar, hname]
  | generic base arg => cases h
  | union members => cases h
  | tuple elements => cases h

/-- What names no scalar is refused, and nothing is reported. -/
theorem elementScalar_of_none (m : Model) (path : PropertyPath) {t : TypeExpr} (h : t.scalar? = none) :
    ∃ fault, m.elementScalar path t = failAt path fault := by
  cases t with
  | ident name =>
    have hname : Scalar.ofName? name = none := h
    simp only [elementScalar, hname]
    split
    · exact ⟨_, rfl⟩
    · exact ⟨_, rfl⟩
  | generic base arg => exact ⟨_, rfl⟩
  | union members => exact ⟨_, rfl⟩
  | tuple elements => exact ⟨_, rfl⟩

variable {elements : List TypeExpr} {first other : Scalar}

/-- A later element that names the first one's scalar. -/
theorem laterElement_of_same {t : TypeExpr} (h : t.scalar? = some first) :
    m.laterElement policy path elements first t = pure () := by
  rw [laterElement, elementScalar_of_some h, pure_bind, if_pos rfl]

/-- A later element that names another scalar: a warning, or a failure with the same words. -/
theorem laterElement_of_other {t : TypeExpr} (h : t.scalar? = some other) (hne : other ≠ first) :
    m.laterElement policy path elements first t =
      match policy with
      | .firstElement => .report (.mixedTuple path first other)
      | .homogeneous => failAt path (.unsupported (TypeExpr.tuple elements).render (.mixedTuple first other)) := by
  cases policy <;> simp only [laterElement, elementScalar_of_some h, pure_bind, if_neg hne]

/-- A later element that names no scalar is refused under both policies. -/
theorem laterElement_of_none (m : Model) (path : PropertyPath) (elements : List TypeExpr) (first : Scalar) {t : TypeExpr}
    (h : t.scalar? = none) : ∃ fault, ∀ policy, m.laterElement policy path elements first t = failAt path.items fault := by
  obtain ⟨fault, hfault⟩ := elementScalar_of_none m path.items h
  refine ⟨fault, fun policy => ?_⟩
  rw [laterElement, hfault]
  rfl

/-- Elements that name the first one's scalar are passed over. -/
theorem forM_append_of_same {before rest : List TypeExpr} (h : ∀ t ∈ before, t.scalar? = some first) :
    (before ++ rest).forM (m.laterElement policy path elements first) =
      rest.forM (m.laterElement policy path elements first) := by
  induction before with
  | nil => rfl
  | cons t before ih =>
    rw [List.forall_mem_cons] at h
    rw [List.cons_append, Traced.cons_forM, laterElement_of_same h.1, pure_bind, ih h.2]

/-! ## Whole tuples -/

/-- A tuple whose first elements name one scalar is decided by the others. -/
theorem tupleSchema_of_same {head : TypeExpr} {before rest : List TypeExpr} (hhead : head.scalar? = some first)
    (hbefore : ∀ t ∈ before, t.scalar? = some first) :
    m.tupleSchema policy path (head :: (before ++ rest)) =
      rest.forM (m.laterElement policy path (head :: (before ++ rest)) first) >>= fun _ =>
        pure (.tuple first (head :: (before ++ rest)).length) := by
  rw [tupleSchema, elementScalar_of_some hhead, pure_bind, forM_append_of_same hbefore]

/-- The elements at the beginning of a list that name one scalar. -/
theorem exists_same_first (first : Scalar) (ts : List TypeExpr) :
    ∃ before rest, ts = before ++ rest ∧ (∀ t ∈ before, t.scalar? = some first) ∧
      ∀ t ∈ rest.head?, t.scalar? ≠ some first := by
  induction ts with
  | nil => exact ⟨[], [], rfl, by simp, by simp⟩
  | cons t ts ih =>
    by_cases ht : t.scalar? = some first
    · obtain ⟨before, rest, rfl, hbefore, hrest⟩ := ih
      exact ⟨t :: before, rest, rfl, List.forall_mem_cons.2 ⟨ht, hbefore⟩, hrest⟩
    · refine ⟨[], t :: ts, rfl, by simp, ?_⟩
      intro u hu
      cases hu
      exact ht

/-- A tuple is mixed, or it raises no warning and is the same under both policies. -/
theorem tupleSchema_cases (m : Model) (path : PropertyPath) (elements : List TypeExpr) :
    (∃ first other, TypeExpr.Mixed elements first other) ∨
      ∃ x : Traced SchemaError Schema, x.Quiet ∧ ∀ policy, m.tupleSchema policy path elements = x := by
  rcases elements with _ | ⟨head, ts⟩
  · exact Or.inr ⟨_, Traced.quiet_pure _, fun _ => rfl⟩
  cases hhead : head.scalar? with
  | none =>
    obtain ⟨fault, hfault⟩ := elementScalar_of_none m path.items hhead
    refine Or.inr ⟨failAt path.items fault, quiet_failAt _ _, fun policy => ?_⟩
    rw [tupleSchema, hfault]
    rfl
  | some first =>
    obtain ⟨before, rest, rfl, hbefore, hrest⟩ := exists_same_first first ts
    rcases rest with _ | ⟨found, after⟩
    · refine Or.inr ⟨pure (.tuple first (head :: (before ++ [])).length), Traced.quiet_pure _, fun policy => ?_⟩
      rw [tupleSchema_of_same hhead hbefore]
      rfl
    cases hfound : found.scalar? with
    | none =>
      obtain ⟨fault, hfault⟩ := laterElement_of_none m path (head :: (before ++ found :: after)) first hfound
      refine Or.inr ⟨failAt path.items fault, quiet_failAt _ _, fun policy => ?_⟩
      rw [tupleSchema_of_same hhead hbefore, Traced.cons_forM, hfault]
      rfl
    | some other =>
      have hne : other ≠ first := by
        rintro rfl
        exact hrest found rfl hfound
      exact Or.inl ⟨first, other, head, before, found, after, rfl, hhead, hbefore, hfound, hne⟩

/-- The first warning of a mixed tuple names its path, the first element's scalar and the other one. -/
theorem head?_events_of_mixed (m : Model) (path : PropertyPath) (h : TypeExpr.Mixed elements first other) :
    (m.tupleSchema .firstElement path elements).events.head? = some (.mixedTuple path first other) := by
  obtain ⟨head, before, found, after, rfl, hhead, hbefore, hfound, hne⟩ := h
  rw [tupleSchema_of_same hhead hbefore, Traced.cons_forM, laterElement_of_other hfound hne, bind_assoc]
  rfl

/-- A mixed tuple is refused by the strict policy. -/
theorem tupleSchema_homogeneous_of_mixed (h : TypeExpr.Mixed elements first other) :
    m.tupleSchema .homogeneous path elements =
      failAt path (.unsupported (TypeExpr.tuple elements).render (.mixedTuple first other)) := by
  obtain ⟨head, before, found, after, rfl, hhead, hbefore, hfound, hne⟩ := h
  rw [tupleSchema_of_same hhead hbefore, Traced.cons_forM, laterElement_of_other hfound hne]
  rfl

/-- All that can be wrong with a tuple by itself is that it is mixed, under the strict policy. -/
theorem defect_tuple_iff {options : ExpansionOptions} {active : List String} {fault : SchemaFault} :
    m.Defect options ⟨path, active, .type (.tuple elements)⟩ fault ↔
      options.tuplePolicy = .homogeneous ∧ ∃ first other, TypeExpr.Mixed elements first other ∧
        fault = .unsupported (TypeExpr.tuple elements).render (.mixedTuple first other) := by
  constructor
  · intro h
    cases h with
    | mixedTuple hp hhead hbefore hfound hne => exact ⟨hp, _, _, ⟨_, _, _, _, rfl, hhead, hbefore, hfound, hne⟩, rfl⟩
  · rintro ⟨hp, first, other, ⟨head, before, found, after, rfl, hhead, hbefore, hfound, hne⟩, rfl⟩
    exact .mixedTuple hp hhead hbefore hfound hne

/-! ## The two policies -/

/-- A step and its counterpart under the strict policy: they are quiet and the same, or the first raises a warning, and the second
is a failure that names the path and the types of the first warning. -/
inductive Refuses (α : Type) : Traced SchemaError α → Traced SchemaError α → Prop where
  | same (x : Traced SchemaError α) : x.Quiet → Refuses α x x
  | refused {x y : Traced SchemaError α} {path : PropertyPath} {first other : Scalar} {written : String} :
      x.events.find? (·.isMixedTuple) = some (.mixedTuple path first other) →
        y.result = .error ⟨path, .unsupported written (.mixedTuple first other)⟩ → Refuses α x y

/-- What is refused stays refused, for the reason of the first warning. -/
theorem sideBySide_refuses : SideBySide Refuses where
  same := Refuses.same
  bind := by
    intro α β x y f g hxy hfg
    cases hxy with
    | same hquiet =>
      cases hr : x.result with
      | error e =>
        rw [Traced.bind_of_error hr, Traced.bind_of_error hr]
        exact .same _ hquiet
      | ok a =>
        rw [Traced.bind_of_ok hr, Traced.bind_of_ok hr]
        have hrest := hfg a
        generalize f a = u, g a = v at hrest
        cases hrest with
        | same hquiet' => exact .same _ (List.forall_mem_append.2 ⟨hquiet, hquiet'⟩)
        | refused hfirst herror =>
          refine .refused ?_ herror
          rw [List.find?_append, hquiet.find?_eq_none, Option.none_or, hfirst]
    | refused hfirst herror =>
      rw [Traced.bind_of_error herror]
      refine .refused ?_ rfl
      cases hr : x.result with
      | error e => rw [Traced.bind_of_error hr, hfirst]
      | ok a => rw [Traced.bind_of_ok hr, List.find?_append, hfirst, Option.some_or]

/-- A tuple is refused by the strict policy when it raises a warning under the other. -/
theorem refuses_tupleSchema (m : Model) (path : PropertyPath) (elements : List TypeExpr) :
    Refuses Schema (m.tupleSchema .firstElement path elements) (m.tupleSchema .homogeneous path elements) := by
  rcases tupleSchema_cases m path elements with ⟨first, other, hmixed⟩ | ⟨x, hquiet, hx⟩
  · have hhead := head?_events_of_mixed m path hmixed
    obtain ⟨more, hevents⟩ := List.head?_eq_some_iff.1 hhead
    refine .refused ?_ (by rw [tupleSchema_homogeneous_of_mixed hmixed]; rfl)
    rw [hevents, List.find?_cons_of_pos rfl]
  · rw [hx, hx]
    exact .same x hquiet

/-- An expansion is refused by the strict policy when it raises a warning under the other. -/
theorem refuses_generate (m : Model) (d : Nat) (root : String) :
    Refuses Schema (m.generate ⟨d, .firstElement⟩ root) (m.generate ⟨d, .homogeneous⟩ root) := by
  refine sideBySide_refuses.expand (refuses_tupleSchema m) (Nat.le_refl d) ?_
  intro path n y hn
  rw [if_pos hn]
  exact .same _ (quiet_failAt _ _)

/-- A tuple that is not mixed raises no warning. -/
theorem quiet_tupleSchema {elements : List TypeExpr} (h : ¬∃ first other, TypeExpr.Mixed elements first other) :
    (m.tupleSchema policy path elements).Quiet := by
  rcases tupleSchema_cases m path elements with hmixed | ⟨x, hquiet, hx⟩
  · exact absurd hmixed h
  · rw [hx]
    exact hquiet

/-- Strict tuples only ever refuse. There is a schema under the strict policy exactly if there is the same one under the other and
no warning is raised; where a warning is raised, the strict policy refuses the tuple that raises the first one, which is the first
tuple in the order of an expansion to raise any, for the types that the warning names; and a failure without a warning before it
is the same under both. -/
theorem generate_homogeneous (m : Model) (d : Nat) (root : String) :
    (∀ s, (m.generate ⟨d, .homogeneous⟩ root).result = .ok s ↔
      (m.generate ⟨d, .firstElement⟩ root).result = .ok s ∧
        ∀ e ∈ (m.generate ⟨d, .firstElement⟩ root).events, e.isMixedTuple = false) ∧
    (∀ path first other,
      (m.generate ⟨d, .firstElement⟩ root).events.find? (·.isMixedTuple) = some (.mixedTuple path first other) →
        ∃ address active elements,
          m.siteAt? (.root root) address = some ⟨path, active, .type (.tuple elements)⟩ ∧
          (m.tupleSchema .firstElement path elements).events.head? = some (.mixedTuple path first other) ∧
          (∀ earlier < address, ∀ path' active' elements',
            m.siteAt? (.root root) earlier = some ⟨path', active', .type (.tuple elements')⟩ →
              ∀ e ∈ (m.tupleSchema .firstElement path' elements').events, e.isMixedTuple = false) ∧
          (m.generate ⟨d, .homogeneous⟩ root).result =
            .error ⟨path, .unsupported (TypeExpr.tuple elements).render (.mixedTuple first other)⟩) ∧
    ∀ e, (m.generate ⟨d, .firstElement⟩ root).result = .error e →
      (∀ w ∈ (m.generate ⟨d, .firstElement⟩ root).events, w.isMixedTuple = false) →
        (m.generate ⟨d, .homogeneous⟩ root).result = .error e := by
  have hrefuses := refuses_generate m d root
  have hjudged (e : SchemaError) : (m.generate ⟨d, .homogeneous⟩ root).result = .error e ↔
      m.FirstDefect ⟨d, .homogeneous⟩ (.root root) e := result_generate_eq_error_iff
  generalize m.generate ⟨d, .firstElement⟩ root = x, m.generate ⟨d, .homogeneous⟩ root = y at hrefuses hjudged
  cases hrefuses with
  | same hquiet =>
    refine ⟨fun s => ⟨fun h => ⟨h, hquiet⟩, fun h => h.1⟩, ?_, fun e h _ => h⟩
    intro path first other hfirst
    rw [hquiet.find?_eq_none] at hfirst
    nomatch hfirst
  | @refused _ path first other _ hfirst herror =>
    have hwarned : ¬x.Quiet := by
      intro hquiet
      rw [hquiet.find?_eq_none] at hfirst
      nomatch hfirst
    refine ⟨?_, ?_, fun e _ h => absurd h hwarned⟩
    · intro s
      constructor
      · intro h
        rw [herror] at h
        nomatch h
      · exact fun h => absurd h.2 hwarned
    · intro _ _ _ hfirst'
      rw [hfirst] at hfirst'
      cases hfirst'
      obtain ⟨address, site, hsite, hpath, hdefect, hearlier⟩ := (hjudged _).1 herror
      obtain ⟨sitePath, active, subject⟩ := site
      obtain rfl : path = sitePath := hpath
      cases hdefect with
      | mixedTuple hp hhead hbefore hfound hne =>
        refine ⟨address, active, _, hsite, ?_, ?_, herror⟩
        · exact head?_events_of_mixed m path ⟨_, _, _, _, rfl, hhead, hbefore, hfound, hne⟩
        intro earlier hlt path' active' elements' hsite'
        refine quiet_tupleSchema ?_
        rintro ⟨first', other', hmixed⟩
        exact hearlier earlier hlt _ hsite' _ (defect_tuple_iff.2 ⟨rfl, first', other', hmixed, rfl⟩)

/-- A model in which mixed tuples stand in a class of a list, and after a name that stands for nothing. -/
def mixedPlots : Model :=
  ⟨⟨[⟨"Plot", [⟨"corner", ["array{float,float}"]⟩, ⟨"label", ["array{string,string,int}"]⟩]⟩,
    ⟨"Map", [⟨"plots", ["array<Plot>|null"]⟩, ⟨"scale", ["array{int,float}"]⟩]⟩,
    ⟨"Draft", [⟨"map", ["array<Plan>"]⟩, ⟨"size", ["array{int,float}"]⟩]⟩], by decide, by decide⟩, ⟨[], List.nodup_nil⟩⟩

theorem generate_homogeneous_mixedPlots :
    (∃ s, (mixedPlots.generate ⟨64, .firstElement⟩ "Map").result = .ok s) ∧
      (∃ address active elements,
        mixedPlots.siteAt? (.root "Map") address = some
          ⟨.property (.items (.property (.root "Map") "plots")) "label", active, .type (.tuple elements)⟩ ∧
        (mixedPlots.generate ⟨64, .homogeneous⟩ "Map").result = .error
          ⟨.property (.items (.property (.root "Map") "plots")) "label",
            .unsupported (TypeExpr.tuple elements).render (.mixedTuple .string .int)⟩) ∧
      (mixedPlots.generate ⟨64, .homogeneous⟩ "Draft").result =
        .error ⟨.items (.property (.root "Draft") "map"), .unknownReference "Plan"⟩ := by
  have hmap : (mixedPlots.generate ⟨64, .firstElement⟩ "Map").result =
      .ok (.object "Map" [("plots", .anyOf [.array (.object "Plot" [("corner", .tuple .float 2), ("label", .tuple .string 3)]),
        .scalar .null]), ("scale", .tuple .int 2)]) := by
    decide +kernel
  have hfirst : (mixedPlots.generate ⟨64, .firstElement⟩ "Map").events.find? (·.isMixedTuple) =
      some (.mixedTuple (.property (.items (.property (.root "Map") "plots")) "label") .string .int) := by
    decide +kernel
  have hdraft : (mixedPlots.generate ⟨64, .firstElement⟩ "Draft").result =
      .error ⟨.items (.property (.root "Draft") "map"), .unknownReference "Plan"⟩ := by
    decide +kernel
  have hquiet : (mixedPlots.generate ⟨64, .firstElement⟩ "Draft").events.all (!·.isMixedTuple) = true := by
    decide +kernel
  obtain ⟨-, hwarned, -⟩ := generate_homogeneous mixedPlots 64 "Map"
  obtain ⟨-, -, hfailed⟩ := generate_homogeneous mixedPlots 64 "Draft"
  obtain ⟨address, active, elements, hsite, -, -, herror⟩ := hwarned _ _ _ hfirst
  refine ⟨⟨_, hmap⟩, ⟨address, active, elements, hsite, herror⟩, hfailed _ hdraft ?_⟩
  simpa using hquiet

end Model

end ClassSchema
