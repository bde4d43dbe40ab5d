import ClassSchema.Proofs.PassedSites

/-!
# The text of a path

The text of a path puts a dot before every name but a first one, and nothing before the brackets of a list. If no name is empty
or holds a dot or an opening bracket, the text of every step but a first name begins with a mark that is in no name, so each
name ends where the next mark stands (`name_append_inj`), and the text tells the steps (`stepChars_inj`). A first name has no dot
before it; it is the only step whose text does not begin with a mark, so the dot can be put back (`dotted_render`).

The main statement is `PropertyPath.render_unambiguous`.
-/

namespace ClassSchema

/-- A name that can be found in the text of a path: it is not empty, and it holds nothing that a step begins with. -/
structure PlainName (name : String) : Prop where
  ne_empty : name ≠ ""
  no_dot : '.' ∉ name.toList
  no_bracket : '[' ∉ name.toList

/-- A character that a step begins with, unless it is a first name. -/
def isStepMark (c : Char) : Bool := c == '.' || c == '['

variable {name name' : String} {c : Char}

theorem PlainName.isStepMark_of_mem (h : PlainName name) (hc : c ∈ name.toList) : isStepMark c = false := by
  rw [isStepMark, Bool.or_eq_false_iff, beq_eq_false_iff_ne, beq_eq_false_iff_ne]
  refine ⟨?_, ?_⟩
  · rintro rfl
    exact h.no_dot hc
  · rintro rfl
    exact h.no_bracket hc

namespace PropertyPath

/-- A path that is made step by step, from the empty path or from that of a class, out of plain names. -/
inductive Plain : PropertyPath → Prop where
  | empty : Plain .empty
  | root {name : String} : PlainName name → Plain (.root name)
  | property {path : PropertyPath} {name : String} : Plain path → PlainName name → Plain (path.property name)
  | items {path : PropertyPath} : Plain path → Plain path.items

/-- The names of a path are those that it was made of. -/
theorem Plain.plainName {path : PropertyPath} (h : path.Plain) : ∀ name, .name name ∈ path.steps → PlainName name := by
  induction h with
  | empty => nofun
  | root hname =>
    intro n hn
    cases List.mem_singleton.1 hn
    exact hname
  | property _ hname ih =>
    intro n hn
    rcases List.mem_append.1 hn with hn | hn
    · exact ih n hn
    · cases List.mem_singleton.1 hn
      exact hname
  | items _ ih =>
    intro n hn
    rcases List.mem_append.1 hn with hn | hn
    · exact ih n hn
    · nomatch List.mem_singleton.1 hn

/-! ## The text of steps -/

/-- The characters of a step that is no first name. -/
def stepChars (step : PathStep) : List Char := (stepText step).toList

theorem stepChars_name (name : String) : stepChars (.name name) = '.' :: name.toList := String.toList_append

/-- A step begins with a mark. -/
theorem exists_stepChars_eq_cons (step : PathStep) : ∃ c cs, stepChars step = c :: cs ∧ isStepMark c = true := by
  cases step with
  | name name => exact ⟨'.', name.toList, stepChars_name name, rfl⟩
  | items => exact ⟨'[', [']'], rfl, rfl⟩

/-- What follows a name begins with a mark. -/
theorem isStepMark_head (steps : List PathStep) : ∀ c ∈ (steps.flatMap stepChars).head?, isStepMark c = true := by
  intro c hc
  cases steps with
  | nil => nomatch hc
  | cons step steps =>
    obtain ⟨d, ds, hstep, hd⟩ := exists_stepChars_eq_cons step
    rw [List.flatMap_cons, hstep, List.cons_append, List.head?_cons, Option.mem_some_iff] at hc
    exact hc ▸ hd

/-- A plain name ends where the next step begins. -/
theorem name_append_inj {steps steps' : List PathStep} (h : PlainName name) (h' : PlainName name')
    (heq : name.toList ++ steps.flatMap stepChars = name'.toList ++ steps'.flatMap stepChars) :
    name = name' ∧ steps.flatMap stepChars = steps'.flatMap stepChars := by
  have hdrop {n : String} (hn : PlainName n) (rest : List PathStep) :
      (n.toList ++ rest.flatMap stepChars).dropWhile (!isStepMark ·) = rest.flatMap stepChars := by
    rw [List.dropWhile_append_of_pos (by simpa using fun c hc => hn.isStepMark_of_mem hc)]
    have hhead := isStepMark_head rest
    cases hrest : rest.flatMap stepChars with
    | nil => rfl
    | cons c cs =>
      rw [hrest] at hhead
      exact List.dropWhile_cons_of_neg (by simp [hhead c rfl])
  have hrest : steps.flatMap stepChars = steps'.flatMap stepChars := by
    rw [← hdrop h steps, heq, hdrop h' steps']
  rw [hrest] at heq
  exact ⟨String.toList_inj.1 (List.append_cancel_right heq), hrest⟩

/-- The text of steps tells the steps. -/
theorem stepChars_inj {steps steps' : List PathStep} (h : ∀ name, .name name ∈ steps → PlainName name)
    (h' : ∀ name, .name name ∈ steps' → PlainName name) (heq : steps.flatMap stepChars = steps'.flatMap stepChars) :
    steps = steps' := by
  induction steps generalizing steps' with
  | nil =>
    cases steps' with
    | nil => rfl
    | cons step' steps' =>
      obtain ⟨c, cs, hstep, -⟩ := exists_stepChars_eq_cons step'
      rw [List.flatMap_cons, hstep] at heq
      nomatch heq
  | cons step steps ih =>
    cases steps' with
    | nil =>
      obtain ⟨c, cs, hstep, -⟩ := exists_stepChars_eq_cons step
      rw [List.flatMap_cons, hstep] at heq
      nomatch heq
    | cons step' steps' =>
      rw [List.flatMap_cons, List.flatMap_cons] at heq
      have hrest (hsame : steps.flatMap stepChars = steps'.flatMap stepChars) : steps = steps' :=
        ih (fun n hn => h n (List.mem_cons_of_mem _ hn)) (fun n hn => h' n (List.mem_cons_of_mem _ hn)) hsame
      cases step with
      | name n =>
        cases step' with
        | name n' =>
          rw [stepChars_name, stepChars_name, List.cons_append, List.cons_append] at heq
          obtain ⟨rfl, hsame⟩ := name_append_inj (h n List.mem_cons_self) (h' n' List.mem_cons_self) (List.cons.inj heq).2
          rw [hrest hsame]
        | items =>
          rw [stepChars_name] at heq
          nomatch (List.cons.inj heq).1
      | items =>
        cases step' with
        | name n' =>
          rw [stepChars_name] at heq
          nomatch (List.cons.inj heq).1
        | items => rw [hrest (List.append_cancel_left heq)]

/-! ## The text of a path -/

/-- A text with a dot before it, unless it is empty or begins with a mark. -/
def dotted : List Char → List Char
  | [] => []
  | c :: cs => if isStepMark c then c :: cs else '.' :: c :: cs

/-- A text that begins with a mark stays as it is. -/
theorem dotted_eq_self {cs : List Char} (h : ∀ c ∈ cs.head?, isStepMark c = true) : dotted cs = cs := by
  cases cs with
  | nil => rfl
  | cons c cs => exact if_pos (h c rfl)

/-- Before a name, a dot is put. -/
theorem dotted_name (h : PlainName name) (rest : List Char) : dotted (name.toList ++ rest) = '.' :: (name.toList ++ rest) := by
  cases hname : name.toList with
  | nil => exact absurd (String.toList_eq_nil_iff.1 hname) h.ne_empty
  | cons c cs =>
    have hc := h.isStepMark_of_mem (c := c) (by rw [hname]; exact List.mem_cons_self)
    exact if_neg (by simp [hc])

/-- With the dot of its first name put back, the text of a path is that of its steps. -/
theorem dotted_render {path : PropertyPath} (h : ∀ name, .name name ∈ path.steps → PlainName name) :
    dotted path.render.toList = path.steps.flatMap stepChars := by
  have hjoin (steps : List PathStep) : (String.join (steps.map stepText)).toList = steps.flatMap stepChars := by
    rw [String.toList_join, List.flatMap_map]
    rfl
  obtain ⟨steps⟩ := path
  cases steps with
  | nil => rfl
  | cons step steps =>
    cases step with
    | name name =>
      rw [render, String.toList_append, hjoin, dotted_name (h name List.mem_cons_self), List.flatMap_cons, stepChars_name,
        List.cons_append]
    | items =>
      have htext : (render ⟨.items :: steps⟩).toList = (PathStep.items :: steps).flatMap stepChars := hjoin _
      rw [htext, dotted_eq_self (isStepMark_head _)]

/-- Paths of plain names with the same text are the same path. -/
theorem eq_of_render_eq {p q : PropertyPath} (hp : p.Plain) (hq : q.Plain) (h : p.render = q.render) : p = q := by
  have hsteps : p.steps = q.steps := by
    refine stepChars_inj hp.plainName hq.plainName ?_
    rw [← dotted_render hp.plainName, ← dotted_render hq.plainName, h]
  obtain ⟨steps⟩ := p
  exact congrArg PropertyPath.mk hsteps

end PropertyPath

/-! ## The paths of failures -/

namespace Model

variable {m : Model} {options : ExpansionOptions} {root : String}

/-- All properties have plain names. -/
def PlainProperties (m : Model) : Prop := ∀ c ∈ m.classes.classes, ∀ p ∈ c.properties, PlainName p.name

/-- A failure is reported at a path that is made of the name of the root and names of properties. -/
theorem plain_of_error {e : SchemaError} (hm : m.PlainProperties) (hroot : PlainName root)
    (h : (m.generate options root).result = .error e) : e.path.Plain := by
  have hstart : (Site.root root).path.Plain := .root hroot
  have hkept (site next : Site) (hsite : site.path.Plain) (hnext : next ∈ m.below site) : next.path.Plain := by
    rcases below_cases hnext with ⟨name, c, -, hc, -, p, hp, hpath⟩ | ⟨-, hpath | hpath⟩
    · rw [hpath]
      exact hsite.property (hm c (List.mem_of_find?_eq_some hc) p hp)
    · rw [hpath]
      exact hsite
    · rw [hpath]
      exact hsite.items
  obtain ⟨site, hsite, hpath, -⟩ :=
    exists_passed_of_error (P := fun site => site.path.Plain) hstart (fun site next hs _ => hkept site next hs) h
  rw [hpath]
  exact hsite

end Model

/-- The text of a path is unambiguous. Paths made of plain names have the same text only if they are the same path. So, in a
model whose properties have plain names, failures of roots with plain names at two different paths are never reported under the
same text. -/
theorem PropertyPath.render_unambiguous :
    (∀ p q : PropertyPath, p.Plain → q.Plain → p.render = q.render → p = q) ∧
    ∀ m : Model, m.PlainProperties → ∀ (options options' : ExpansionOptions) (root root' : String), PlainName root →
      PlainName root' → ∀ e e' : SchemaError, (m.generate options root).result = .error e →
        (m.generate options' root').result = .error e' → e.path ≠ e'.path → e.path.render ≠ e'.path.render := by
  refine ⟨fun p q => eq_of_render_eq, ?_⟩
  intro m hm options options' root root' hroot hroot' e e' he he' hne htext
  exact hne (eq_of_render_eq (Model.plain_of_error hm hroot he) (Model.plain_of_error hm hroot' he') htext)

/-- A model whose only class is refused at one property or at another, depending on the policy. -/
def labelledCrate : Model :=
  ⟨⟨[⟨"Crate", [⟨"sizes", ["array<array{int,float}>"]⟩, ⟨"label", ["Label"]⟩]⟩], by decide, by decide⟩,
    ⟨[], List.nodup_nil⟩⟩

theorem PropertyPath.render_unambiguous_labelledCrate :
    PropertyPath.empty.property "Crate" = .root "Crate" ∧
      ∃ e e' : SchemaError, (labelledCrate.generate ⟨64, .homogeneous⟩ "Crate").result = .error e ∧
        (labelledCrate.generate ⟨64, .firstElement⟩ "Crate").result = .error e' ∧ e.path.render ≠ e'.path.render := by
  have hcrate : PlainName "Crate" := ⟨by decide, by decide, by decide⟩
  have hproperties : labelledCrate.PlainProperties := by
    intro c hc p hp
    cases List.mem_singleton.1 hc
    simp only [List.mem_cons, List.not_mem_nil, or_false] at hp
    rcases hp with rfl | rfl <;> exact ⟨by decide, by decide, by decide⟩
  have hsizes : (labelledCrate.generate ⟨64, .homogeneous⟩ "Crate").result =
      .error ⟨.items (.property (.root "Crate") "sizes"),
        .unsupported (TypeExpr.tuple [.ident "int", .ident "float"]).render (.mixedTuple .int .float)⟩ := by
    decide +kernel
  have hlabel : (labelledCrate.generate ⟨64, .firstElement⟩ "Crate").result =
      .error ⟨.property (.root "Crate") "label", .unknownReference "Label"⟩ := by
    decide +kernel
  obtain ⟨hsame, hapart⟩ := render_unambiguous
  refine ⟨hsame _ _ (.property .empty hcrate) (.root hcrate) rfl, _, _, hsizes, hlabel, ?_⟩
  exact hapart labelledCrate hproperties _ _ _ _ hcrate hcrate _ _ hsizes hlabel (by decide)

end ClassSchema
