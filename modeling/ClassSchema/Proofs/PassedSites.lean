import ClassSchema.Proofs.FirstDefect
import ClassSchema.Proofs.OpenClasses

/-!
# What is open where an expansion comes to

Every site below a root stands in its class: the classes that are open there are those that a trail has left, and what is looked
at belongs to the last of them (`Model.Placed`). One turn downwards keeps this (`Placed.below`). The classes that are open are
distinct as long as nothing is wrong at the sites above, for a class that is open already is a defect (`nodup_below`). Both are
carried down an address (`invariant_of_passed`), so an expansion that fails does so at a site of which both are known
(`exists_site_of_error`).
-/

namespace ClassSchema

namespace TypeExpr

/-- An expression that is come to in `s` from the outside without going into a tuple. -/
inductive Outer (s : TypeExpr) : TypeExpr → Prop where
  | self : Outer s s
  | arg {base : String} {t : TypeExpr} : Outer s (.generic base t) → Outer s t
  | member {members : List TypeExpr} {t : TypeExpr} : Outer s (.union members) → t ∈ members → Outer s t

/-- What is mentioned in a part outside tuples is mentioned in the whole. -/
theorem Outer.mentions {s t : TypeExpr} (h : Outer s t) {name : String} (hname : Mentions t name) : Mentions s name := by
  induction h with
  | self => exact hname
  | arg _ ih => exact ih (.generic _ hname)
  | member _ ht ih => exact ih (.union ht hname)

end TypeExpr

namespace Model

variable {m : Model} {options : ExpansionOptions} {root : String}

/-- A part outside tuples of a type that is in order is in order. -/
theorem Admits.outer {policy : TuplePolicy} {s t : TypeExpr} (hs : m.Admits policy s) (h : s.Outer t) : m.Admits policy t := by
  induction h with
  | self => exact hs
  | arg _ ih =>
    cases ih with
    | generic _ harg => exact harg
  | member _ ht ih =>
    cases ih with
    | union hmembers => exact hmembers _ ht

/-! ## Where a site stands -/

/-- The open classes are those of a trail, and the last of them is the class `c`. -/
def Inside (m : Model) (root : String) (active : List String) (c : ClassDecl) : Prop :=
  ∃ before d, active = before ++ [d] ∧ m.Trail root before d ∧ m.classes.get? d = some c

/-- The type `t` stands outside tuples in the type of a property of the innermost class. -/
def TypeInside (m : Model) (root : String) (active : List String) (t : TypeExpr) : Prop :=
  ∃ c, m.Inside root active c ∧ ∃ p ∈ c.properties, ∃ s, p.expr? = some s ∧ s.Outer t

/-- What is looked at at a site belongs to the class opened last, and a class is come to along the classes that are open. -/
def Placed (m : Model) (root : String) (site : Site) : Prop :=
  match site.subject with
  | .cls name => m.Trail root site.active name
  | .property p => ∃ c, m.Inside root site.active c ∧ p ∈ c.properties
  | .type t => m.TypeInside root site.active t
  | .element t => ∃ elements, m.TypeInside root site.active (.tuple elements) ∧ t ∈ elements

/-- The innermost class is reachable from the root. -/
theorem Inside.reachable {active : List String} {c : ClassDecl} (h : m.Inside root active c) :
    ∃ d, Relation.ReflTransGen m.Refers root d ∧ m.classes.get? d = some c := by
  obtain ⟨before, d, -, htrail, hc⟩ := h
  exact ⟨d, htrail.reachable.1, hc⟩

/-- A class that a type inside another class names is come to by one more reference. -/
theorem TypeInside.trail {active : List String} {name : String} (h : m.TypeInside root active (.ident name))
    (hc : m.classes.contains name = true) : m.Trail root active name := by
  obtain ⟨c, ⟨before, d, rfl, htrail, hd⟩, p, hp, s, hs, houter⟩ := h
  exact htrail.step ⟨hc, c, hd, p, hp, s, hs, houter.mentions (.ident name)⟩

/-- One turn downwards keeps a site in its class. -/
theorem Placed.below {site next : Site} (h : m.Placed root site) (hnext : next ∈ m.below site) : m.Placed root next := by
  obtain ⟨path, active, subject⟩ := site
  cases subject with
  | cls name =>
    cases hc : m.classes.get? name with
    | none => simp [Model.below, hc] at hnext
    | some c =>
      simp only [Model.below, hc] at hnext
      obtain ⟨p, hp, rfl⟩ := List.mem_map.1 hnext
      exact ⟨c, ⟨active, name, rfl, h, hc⟩, hp⟩
  | property p =>
    simp only [Model.below, List.mem_map, Option.mem_toList] at hnext
    obtain ⟨t, ht, rfl⟩ := hnext
    obtain ⟨c, hinside, hp⟩ := h
    exact ⟨c, hinside, p, hp, t, ht, .self⟩
  | type t =>
    obtain ⟨c, hinside, p, hp, s, hs, houter⟩ := id h
    cases t with
    | ident name =>
      simp only [Model.below] at hnext
      split at hnext
      · rename_i hc
        rw [List.mem_singleton.1 hnext]
        exact TypeInside.trail h hc
      · exact absurd hnext List.not_mem_nil
    | generic base arg =>
      simp only [Model.below] at hnext
      split at hnext
      · rw [List.mem_singleton.1 hnext]
        exact ⟨c, hinside, p, hp, s, hs, houter.arg⟩
      · exact absurd hnext List.not_mem_nil
    | union members =>
      obtain ⟨t, ht, rfl⟩ := List.mem_map.1 hnext
      exact ⟨c, hinside, p, hp, s, hs, houter.member ht⟩
    | tuple elements =>
      obtain ⟨t, ht, rfl⟩ := List.mem_map.1 hnext
      exact ⟨elements, h, ht⟩
  | element t => exact absurd hnext List.not_mem_nil

/-- One turn downwards goes into a property of a class and opens the class, or it opens nothing and stays at its path or goes
to the items there. -/
theorem below_cases {site next : Site} (hnext : next ∈ m.below site) :
    (∃ name c, site.subject = .cls name ∧ m.classes.get? name = some c ∧ next.active = site.active ++ [name] ∧
      ∃ p ∈ c.properties, next.path = site.path.property p.name) ∨
    next.active = site.active ∧ (next.path = site.path ∨ next.path = site.path.items) := by
  obtain ⟨path, active, subject⟩ := site
  cases subject with
  | cls name =>
    cases hc : m.classes.get? name with
    | none => simp [Model.below, hc] at hnext
    | some c =>
      simp only [Model.below, hc] at hnext
      obtain ⟨p, hp, rfl⟩ := List.mem_map.1 hnext
      exact Or.inl ⟨name, c, rfl, hc, rfl, p, hp, rfl⟩
  | property p =>
    obtain ⟨t, -, rfl⟩ := List.mem_map.1 hnext
    exact Or.inr ⟨rfl, Or.inl rfl⟩
  | type t =>
    cases t with
    | ident name =>
      simp only [Model.below] at hnext
      split at hnext
      · rw [List.mem_singleton.1 hnext]
        exact Or.inr ⟨rfl, Or.inl rfl⟩
      · exact absurd hnext List.not_mem_nil
    | generic base arg =>
      simp only [Model.below] at hnext
      split at hnext
      · rw [List.mem_singleton.1 hnext]
        exact Or.inr ⟨rfl, Or.inr rfl⟩
      · exact absurd hnext List.not_mem_nil
    | union members =>
      obtain ⟨t, -, rfl⟩ := List.mem_map.1 hnext
      exact Or.inr ⟨rfl, Or.inl rfl⟩
    | tuple elements =>
      obtain ⟨t, -, rfl⟩ := List.mem_map.1 hnext
      exact Or.inr ⟨rfl, Or.inr rfl⟩
  | element t => exact absurd hnext List.not_mem_nil

/-- A class at which nothing is wrong is not open, and no more classes are open around it than the limit allows. -/
theorem not_open_of_not_defect {site : Site} (hnone : ∀ fault, ¬m.Defect options site fault) {name : String} {c : ClassDecl}
    (hsubject : site.subject = .cls name) (hc : m.classes.get? name = some c) :
    name ∉ site.active ∧ site.active.length ≤ options.maxDepth := by
  obtain ⟨path, active, subject⟩ := site
  cases hsubject
  have hcontains := contains_iff_exists_get?.2 ⟨c, hc⟩
  have hopen : name ∉ active := fun ha => hnone _ (defect_cycle hcontains ha)
  exact ⟨hopen, Nat.not_lt.1 fun hd => hnone _ (.depthLimit hcontains hopen hd)⟩

/-- One turn downwards opens no class twice, if nothing is wrong above. -/
theorem nodup_below {site next : Site} (hnodup : site.active.Nodup) (hnone : ∀ fault, ¬m.Defect options site fault)
    (hnext : next ∈ m.below site) : next.active.Nodup := by
  rcases below_cases hnext with ⟨name, c, hsubject, hc, hactive, -⟩ | ⟨hactive, -⟩
  · rw [hactive, ← List.concat_eq_append]
    exact hnodup.concat (not_open_of_not_defect hnone hsubject hc).1
  · rw [hactive]
    exact hnodup

/-- What holds of a site, and is kept by one turn downwards where nothing is wrong, holds wherever an expansion comes to. -/
theorem invariant_of_passed {P : Site → Prop} {site found : Site} {address : List Nat}
    (hkept : ∀ s next, P s → (∀ fault, ¬m.Defect options s fault) → next ∈ m.below s → P next)
    (hfound : m.siteAt? site address = some found) (hsite : P site)
    (hpassed : ∀ earlier < address, ∀ passed, m.siteAt? site earlier = some passed → ∀ fault, ¬m.Defect options passed fault) :
    P found := by
  induction address generalizing site with
  | nil =>
    cases hfound
    exact hsite
  | cons i address ih =>
    obtain ⟨next, hnext, hfound⟩ := siteAt?_cons_eq_some_iff.1 hfound
    -- A site is passed before everything below it.
    have hnone : ∀ fault, ¬m.Defect options site fault := hpassed [] (List.nil_lt_cons i address) site rfl
    refine ih hfound (hkept site next hsite hnone (List.mem_of_getElem? hnext)) ?_
    intro earlier hlt passed hp
    exact hpassed (i :: earlier) (List.cons_lt_cons_iff.2 (Or.inr ⟨rfl, hlt⟩)) passed
      (siteAt?_cons_eq_some_iff.2 ⟨next, hnext, hp⟩)

/-- A failure is the defect of a site, with its path, of which holds what holds of the root and is kept downwards. -/
theorem exists_passed_of_error {P : Site → Prop} {e : SchemaError} (hroot : P (.root root))
    (hkept : ∀ s next, P s → (∀ fault, ¬m.Defect options s fault) → next ∈ m.below s → P next)
    (h : (m.generate options root).result = .error e) :
    ∃ site, P site ∧ e.path = site.path ∧ m.Defect options site e.fault := by
  have hjudges : m.Judges options (.root root) (m.generate options root).result := judges_expand [] root (.root root)
  rw [h] at hjudges
  obtain ⟨address, found, hfound, hpath, hdefect, hpassed⟩ := hjudges
  exact ⟨found, invariant_of_passed hkept hfound hroot hpassed, hpath, hdefect⟩

/-- A failure is the defect of a site that is in its class and at which the open classes are distinct. -/
theorem exists_site_of_error {e : SchemaError} (h : (m.generate options root).result = .error e) :
    ∃ site, m.Placed root site ∧ site.active.Nodup ∧ m.Defect options site e.fault := by
  have hstart : m.Placed root (.root root) := .start
  have hkept : ∀ s next, m.Placed root s ∧ s.active.Nodup → (∀ fault, ¬m.Defect options s fault) → next ∈ m.below s →
      m.Placed root next ∧ next.active.Nodup :=
    fun s next hs hnone hnext => ⟨hs.1.below hnext, nodup_below hs.2 hnone hnext⟩
  obtain ⟨site, ⟨hplaced, hnodup⟩, -, hdefect⟩ := exists_passed_of_error ⟨hstart, .nil⟩ hkept h
  exact ⟨site, hplaced, hnodup, hdefect⟩

end Model

end ClassSchema
