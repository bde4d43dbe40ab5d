import ClassSchema.Proofs.Site
import ClassSchema.Proofs.StepValues
import Mathlib.Data.List.Lex

/-!
# A failure is the first defect

An expansion that fails names the first defect in the tree of its sites, in the order in which it comes to them, and an
expansion that succeeds has passed a tree without defects. Both are said of a result at once by `Model.Judges`, and proved for
each step from the steps inside it: a site without a defect of its own judges as the sites below it do, one after the other
(`judges_of_below`). The main statement is `generate_eq_error_iff`. Where an expansion comes to a site, it fails with the first
defect there (`Reaches.generate_of_firstDefect`).
-/

namespace ClassSchema

namespace Model

variable {m : Model} {options : ExpansionOptions}

/-- Nothing is wrong at a site or below it. -/
def Sound (m : Model) (options : ExpansionOptions) (site : Site) : Prop :=
  ∀ address found, m.siteAt? site address = some found → ∀ fault, ¬m.Defect options found fault

/-- The failure names the path and the defect of a site, and nothing is wrong at any site before that one. -/
def FirstDefect (m : Model) (options : ExpansionOptions) (site : Site) (e : SchemaError) : Prop :=
  ∃ address found, m.siteAt? site address = some found ∧ e.path = found.path ∧ m.Defect options found e.fault ∧
    ∀ earlier < address, ∀ passed, m.siteAt? site earlier = some passed → ∀ fault, ¬m.Defect options passed fault

/-- What a result says about a site: a value, that nothing is wrong there; a failure, which defect is the first. -/
def Judges {α : Type} (m : Model) (options : ExpansionOptions) (site : Site) : Except SchemaError α → Prop
  | .ok _ => m.Sound options site
  | .error e => m.FirstDefect options site e

/-! ## From the sites below to the site above -/

/-- Nothing is wrong where nothing is wrong at the site and at the sites right below it. -/
theorem sound_of_below {site : Site} (hnone : ∀ fault, ¬m.Defect options site fault)
    (h : ∀ next ∈ m.below site, m.Sound options next) : m.Sound options site := by
  intro address found hfound
  cases address with
  | nil =>
    cases hfound
    exact hnone
  | cons i address =>
    obtain ⟨next, hnext, hfound⟩ := siteAt?_cons_eq_some_iff.1 hfound
    exact h next (List.mem_of_getElem? hnext) address found hfound

/-- A defect of the site itself is the first. -/
theorem firstDefect_self {site : Site} {fault : SchemaFault} (h : m.Defect options site fault) :
    m.FirstDefect options site ⟨site.path, fault⟩ :=
  ⟨[], site, rfl, rfl, h, fun _ hlt => absurd hlt (List.not_lt_nil _)⟩

/-- The first defect of a site below is the first of the site above, if nothing is wrong at the site above and at the sites
before the one below. -/
theorem firstDefect_of_below {site next : Site} {before after : List Site} {e : SchemaError}
    (hnone : ∀ fault, ¬m.Defect options site fault) (hbelow : m.below site = before ++ next :: after)
    (hbefore : ∀ s ∈ before, m.Sound options s) (h : m.FirstDefect options next e) : m.FirstDefect options site e := by
  obtain ⟨address, found, hfound, hpath, hdefect, hfirst⟩ := h
  have hnext : (m.below site)[before.length]? = some next := by simp [hbelow]
  refine ⟨before.length :: address, found, siteAt?_cons_eq_some_iff.2 ⟨next, hnext, hfound⟩, hpath, hdefect, ?_⟩
  intro earlier hlt passed hpassed
  cases earlier with
  | nil =>
    cases hpassed
    exact hnone
  | cons i earlier =>
    obtain ⟨turned, hturned, hpassed⟩ := siteAt?_cons_eq_some_iff.1 hpassed
    rcases List.cons_lt_cons_iff.1 hlt with hi | ⟨rfl, hlt'⟩
    · -- An earlier turn leads to a site before the one below.
      rw [hbelow, List.getElem?_append_left hi] at hturned
      exact hbefore turned (List.mem_of_getElem? hturned) earlier passed hpassed
    · rw [hnext] at hturned
      cases hturned
      exact hfirst earlier hlt' passed hpassed

/-! ## Results of steps -/

/-- What is done with a value changes nothing of what a result says. -/
theorem judges_map {α β : Type} {site : Site} {r : Except SchemaError α} (g : α → β) :
    m.Judges options site (r.map g) ↔ m.Judges options site r := by
  cases r <;> rfl

/-- A failure with a defect of the site itself. -/
theorem judges_failAt {α : Type} {site : Site} {fault : SchemaFault} (h : m.Defect options site fault) :
    m.Judges options site (failAt site.path fault : Traced SchemaError α).result :=
  firstDefect_self h

/-- A site without a defect of its own, below which there is nothing. -/
theorem judges_leaf {α : Type} {site : Site} (a : α) (hnone : ∀ fault, ¬m.Defect options site fault)
    (hbelow : m.below site = []) : m.Judges options site (.ok a) :=
  sound_of_below hnone (by simp [hbelow])

/-- A site without a defect of its own judges as the sites right below it do, one after the other. -/
theorem judges_of_below {α β : Type} {site : Site} {xs : List α} {next : α → Site} {f : α → Traced SchemaError β}
    (hnone : ∀ fault, ¬m.Defect options site fault) (hbelow : m.below site = xs.map next)
    (h : ∀ x ∈ xs, m.Judges options (next x) (f x).result) : m.Judges options site (xs.mapM f).result := by
  cases hr : (xs.mapM f).result with
  | ok ys =>
    refine sound_of_below hnone ?_
    intro s hs
    rw [hbelow] at hs
    obtain ⟨x, hx, rfl⟩ := List.mem_map.1 hs
    obtain ⟨y, hy⟩ := Traced.exists_result_mapM_eq_ok.1 ⟨ys, hr⟩ x hx
    have hj := h x hx
    rw [hy] at hj
    exact hj
  | error e =>
    obtain ⟨before, x, after, rfl, hbefore, hx⟩ := Traced.result_mapM_eq_error.1 hr
    rw [List.map_append, List.map_cons] at hbelow
    refine firstDefect_of_below hnone hbelow ?_ ?_
    · intro s hs
      obtain ⟨y, hy, rfl⟩ := List.mem_map.1 hs
      obtain ⟨b, hb⟩ := hbefore y hy
      have hj := h y (List.mem_append_left _ hy)
      rw [hb] at hj
      exact hj
    · have hj := h x (List.mem_append_right _ List.mem_cons_self)
      rw [hx] at hj
      exact hj

/-- A site without a defect of its own judges as the only site right below it does. -/
theorem judges_of_only_below {α : Type} {site next : Site} {r : Except SchemaError α}
    (hnone : ∀ fault, ¬m.Defect options site fault) (hbelow : m.below site = [next]) (h : m.Judges options next r) :
    m.Judges options site r := by
  cases r with
  | ok a =>
    refine sound_of_below hnone ?_
    intro s hs
    rw [hbelow, List.mem_singleton] at hs
    exact hs ▸ h
  | error e =>
    have hbelow' : m.below site = [] ++ next :: [] := hbelow
    exact firstDefect_of_below hnone hbelow' (by simp) h

/-! ## Tuples -/

section Tuple

variable {path : PropertyPath} {active : List String}

/-- An element of a tuple fails with its defect. -/
theorem judges_elementScalar (t : TypeExpr) :
    m.Judges options ⟨path, active, .element t⟩ (m.elementScalar path t).result := by
  cases hs : t.scalar? with
  | some s =>
    rw [elementScalar_eq_ok_iff.2 hs]
    refine judges_leaf s ?_ rfl
    intro fault hd
    cases hd with
    | compoundElement h => simp [hs] at h
    | unknownElement h => simp [TypeExpr.scalar?, h] at hs
  | none =>
    cases t with
    | ident name =>
      have hs' : Scalar.ofName? name = none := hs
      simp only [elementScalar, hs']
      split
      · rename_i h
        refine judges_failAt (.compoundElement hs ?_)
        intro n hn hu
        cases hn
        simp [hu.1, hu.2] at h
      · rename_i h
        simp only [Bool.or_eq_true, not_or, Bool.not_eq_true] at h
        exact judges_failAt (.unknownElement hs' h)
    | generic base arg => exact judges_failAt (.compoundElement hs (by simp))
    | union members => exact judges_failAt (.compoundElement hs (by simp))
    | tuple elements => exact judges_failAt (.compoundElement hs (by simp))

/-- Nothing is wrong at an element that names a scalar. -/
theorem sound_element {t : TypeExpr} {s : Scalar} (h : t.scalar? = some s) :
    m.Sound options ⟨path, active, .element t⟩ := by
  have hj : m.Judges options ⟨path, active, .element t⟩ (m.elementScalar path t).result := judges_elementScalar t
  rw [elementScalar_eq_ok_iff.2 h] at hj
  exact hj

/-- A tuple has no defect of its own, if no scalar other than the first one's comes before everything that is no scalar. -/
theorem not_defect_tuple {head : TypeExpr} {rest : List TypeExpr}
    (h : options.tuplePolicy = .homogeneous → ∀ first other found, head.scalar? = some first →
      rest.find? (fun t => t.scalar? != some first) = some found → found.scalar? = some other → other = first) :
    ∀ fault, ¬m.Defect options ⟨path, active, .type (.tuple (head :: rest))⟩ fault := by
  intro fault hd
  cases hd with
  | mixedTuple hp hfirst hbefore hfound hne =>
    exact hne (h hp _ _ _ hfirst (find?_scalar_eq_some hbefore hfound hne) hfound)

/-- Nothing is wrong in a tuple whose elements are scalars, as the policy asks. -/
theorem sound_tuple {head : TypeExpr} {rest : List TypeExpr} {first : Scalar} (hfirst : head.scalar? = some first)
    (hrest : ∀ t ∈ rest, ∃ other, t.scalar? = some other ∧ (options.tuplePolicy = .homogeneous → other = first)) :
    m.Sound options ⟨path, active, .type (.tuple (head :: rest))⟩ := by
  refine sound_of_below (not_defect_tuple ?_) ?_
  · intro hp first' other found hfirst' hfind hother
    cases hfirst.symm.trans hfirst'
    obtain ⟨other', hother', heq⟩ := hrest found (List.mem_of_find?_eq_some hfind)
    cases hother.symm.trans hother'
    exact heq hp
  · intro next hnext
    obtain ⟨t, ht, rfl⟩ := List.mem_map.1 hnext
    rcases List.mem_cons.1 ht with rfl | ht
    · exact sound_element hfirst
    · obtain ⟨other, hother, -⟩ := hrest t ht
      exact sound_element hother

/-- The first element of a tuple that is no scalar is its first defect, if the scalars before are as the policy asks. -/
theorem firstDefect_tuple {head t : TypeExpr} {before after : List TypeExpr} {first : Scalar} {e : SchemaError}
    (hfirst : head.scalar? = some first)
    (hbefore : ∀ u ∈ before, ∃ other, u.scalar? = some other ∧ (options.tuplePolicy = .homogeneous → other = first))
    (ht : (m.elementScalar path.items t).result = .error e) :
    m.FirstDefect options ⟨path, active, .type (.tuple (head :: (before ++ t :: after)))⟩ e := by
  have hts : t.scalar? = none := by
    cases hts : t.scalar? with
    | none => rfl
    | some s => cases ht.symm.trans (elementScalar_eq_ok_iff.2 hts)
  have hj : m.Judges options ⟨path.items, active, .element t⟩ (m.elementScalar path.items t).result :=
    judges_elementScalar t
  rw [ht] at hj
  have hbelow : m.below ⟨path, active, .type (.tuple (head :: (before ++ t :: after)))⟩ =
      (head :: before).map (fun u => ⟨path.items, active, .element u⟩) ++
        ⟨path.items, active, .element t⟩ :: after.map (fun u => ⟨path.items, active, .element u⟩) := by
    simp [below]
  refine firstDefect_of_below (not_defect_tuple ?_) hbelow ?_ hj
  · -- The search for another scalar stops at this element, which is none.
    intro hp first' other found hfirst' hfind hother
    cases hfirst.symm.trans hfirst'
    have hnone : before.find? (fun u => u.scalar? != some first) = none := by
      rw [List.find?_eq_none]
      intro u hu
      obtain ⟨other, hother, heq⟩ := hbefore u hu
      simp [hother, heq hp]
    rw [List.find?_append, hnone, Option.none_or, List.find?_cons_of_pos (by simp [hts])] at hfind
    cases hfind
    cases hts.symm.trans hother
  · intro next hnext
    obtain ⟨u, hu, rfl⟩ := List.mem_map.1 hnext
    rcases List.mem_cons.1 hu with rfl | hu
    · exact sound_element hfirst
    · obtain ⟨other, hother, -⟩ := hbefore u hu
      exact sound_element hother

/-- A later element fails either as an element by itself or because it is another scalar than the first. -/
theorem laterElement_eq_error_iff {elements : List TypeExpr} {first : Scalar} {t : TypeExpr} {e : SchemaError}
    {policy : TuplePolicy} :
    (m.laterElement policy path elements first t).result = .error e ↔
      (m.elementScalar path.items t).result = .error e ∨
      ∃ other, t.scalar? = some other ∧ other ≠ first ∧ policy = .homogeneous ∧
        e = ⟨path, .unsupported (TypeExpr.tuple elements).render (.mixedTuple first other)⟩ := by
  unfold laterElement
  rw [Traced.result_bind_eq_error]
  refine or_congr Iff.rfl (exists_congr fun other => and_congr elementScalar_eq_ok_iff ?_)
  by_cases h : other = first
  · simp [h]
  · cases policy <;> simp [h, eq_comm]

/-- A tuple fails with the first defect among itself and its elements. -/
theorem judges_tupleSchema (elements : List TypeExpr) :
    m.Judges options ⟨path, active, .type (.tuple elements)⟩
      (m.tupleSchema options.tuplePolicy path elements).result := by
  cases elements with
  | nil =>
    refine judges_leaf _ ?_ rfl
    intro fault hd
    cases hd
  | cons head rest =>
    cases hr : (m.tupleSchema options.tuplePolicy path (head :: rest)).result with
    | ok s =>
      obtain ⟨first, hfirst, hrest, -⟩ := tupleSchema_cons_eq_ok_iff.1 hr
      exact sound_tuple hfirst hrest
    | error e =>
      rw [tupleSchema, Traced.result_bind_eq_error] at hr
      rcases hr with hhead | ⟨first, hfirst, hr⟩
      · -- The first element is no scalar.
        have hj : m.Judges options ⟨path.items, active, .element head⟩ (m.elementScalar path.items head).result :=
          judges_elementScalar head
        rw [hhead] at hj
        have hbelow : m.below ⟨path, active, .type (.tuple (head :: rest))⟩ = [] ++
            ⟨path.items, active, .element head⟩ :: rest.map (fun u => ⟨path.items, active, .element u⟩) := rfl
        refine firstDefect_of_below (not_defect_tuple ?_) hbelow (by simp) hj
        intro _ first _ _ hfirst
        cases hhead.symm.trans (elementScalar_eq_ok_iff.2 hfirst)
      · replace hfirst := elementScalar_eq_ok_iff.1 hfirst
        rcases Traced.result_bind_eq_error.1 hr with hr | ⟨_, -, hr⟩
        · obtain ⟨before, t, after, rfl, hbefore, ht⟩ := Traced.result_forM_eq_error.1 hr
          replace hbefore := fun u hu => laterElement_eq_ok_iff.1 (hbefore u hu)
          rcases laterElement_eq_error_iff.1 ht with ht | ⟨other, hother, hne, hp, rfl⟩
          · exact firstDefect_tuple hfirst hbefore ht
          · -- A later element is another scalar, and all before it are the first one's.
            refine firstDefect_self (.mixedTuple hp hfirst ?_ hother hne)
            intro u hu
            obtain ⟨other', hother', heq⟩ := hbefore u hu
            rw [hother', heq hp]
        · cases hr

end Tuple

/-! ## Types, properties and classes -/

section Nested

variable {path : PropertyPath} {active : List String} {f : String → PropertyPath → Traced SchemaError Schema}

/-- A name outside tuples fails as the class it stands for, or because it stands for nothing. -/
theorem judges_nameSchema (hf : ∀ d q, m.Judges options ⟨q, active, .cls d⟩ (f d q).result) (name : String) :
    m.Judges options ⟨path, active, .type (.ident name)⟩ (m.nameSchema f path name).result := by
  unfold nameSchema
  cases hc : m.classes.contains name with
  | true =>
    have hbelow : m.below ⟨path, active, .type (.ident name)⟩ = [⟨path, active, .cls name⟩] := by simp [below, hc]
    refine judges_of_only_below ?_ hbelow (hf name path)
    intro fault hd
    cases hd with
    | unknownName hu => cases hc.symm.trans hu.1
  | false =>
    have hbelow : m.below ⟨path, active, .type (.ident name)⟩ = [] := by simp [below, hc]
    cases he : m.enums.get? name with
    | some e =>
      refine judges_leaf _ ?_ hbelow
      intro fault hd
      cases hd with
      | unknownName hu => simp [Unregistered, EnumRegistry.contains, he] at hu
    | none =>
      cases hs : Scalar.ofName? name with
      | some s =>
        refine judges_leaf _ ?_ hbelow
        intro fault hd
        cases hd with
        | unknownName _ h => simp [hs] at h
      | none => exact judges_failAt (.unknownName ⟨hc, by simp [EnumRegistry.contains, he]⟩ hs)

/-- A type fails with the first defect in it, if classes do. -/
theorem judges_typeSchema (hf : ∀ d q, m.Judges options ⟨q, active, .cls d⟩ (f d q).result) (t : TypeExpr) :
    m.Judges options ⟨path, active, .type t⟩ (m.typeSchema options.tuplePolicy f path t).result := by
  induction t using TypeExpr.induct generalizing path with
  | ident name =>
    rw [typeSchema_ident]
    exact judges_nameSchema hf name
  | generic base arg ih =>
    rw [typeSchema]
    split
    · rename_i h
      rw [Traced.result_bind_pure, judges_map]
      refine judges_of_only_below ?_ (by simp [below, h]) ih
      intro fault hd
      cases hd with
      | genericBase h' => simp [h] at h'
    · rename_i h
      exact judges_failAt (.genericBase (by simpa using h))
  | union members ih =>
    rw [typeSchema, memberSchemas_eq_mapM, Traced.result_bind_pure, judges_map]
    refine judges_of_below ?_ rfl fun t ht => ih t ht
    intro fault hd
    cases hd
  | tuple elements =>
    rw [typeSchema_tuple]
    exact judges_tupleSchema elements

/-- A property fails because of its annotations, or as its type does. -/
theorem judges_propertySchema (hf : ∀ d q, m.Judges options ⟨q, active, .cls d⟩ (f d q).result) (p : Property) :
    m.Judges options ⟨path.property p.name, active, .property p⟩
      (m.propertySchema options.tuplePolicy f path p).result := by
  unfold propertySchema
  cases hd : p.declaredType with
  | error n =>
    obtain ⟨hne, rfl⟩ := Property.declaredType_eq_error_iff.1 hd
    exact judges_failAt (.annotationCount hne)
  | ok text =>
    dsimp only
    have ha := Property.declaredType_eq_ok_iff.1 hd
    cases hp : TypeExpr.parse text with
    | error e =>
      dsimp only
      unfold SchemaFault.ofSyntaxError
      cases hu : e.isUnsupported with
      | true => exact judges_failAt (.arity ha hp hu)
      | false => exact judges_failAt (.malformed ha hp hu)
    | ok t =>
      dsimp only
      rw [Traced.result_report_bind, Traced.result_bind_pure, judges_map]
      have ht := Property.expr?_eq_some_iff.2 ⟨text, ha, hp⟩
      refine judges_of_only_below ?_ (by simp [below, ht]) (judges_typeSchema hf t)
      intro fault hdefect
      cases hdefect with
      | annotationCount h => simp [ha] at h
      | malformed ha' hp' =>
        cases ha.symm.trans ha'
        cases hp.symm.trans hp'
      | arity ha' hp' =>
        cases ha.symm.trans ha'
        cases hp.symm.trans hp'

end Nested

/-- The chain of a class that is open goes from it through the classes opened in it. -/
theorem defect_cycle {path : PropertyPath} {active : List String} {name : String} (hc : m.classes.contains name = true)
    (ha : name ∈ active) :
    m.Defect options ⟨path, active, .cls name⟩ (.cycle (active.dropWhile (· != name) ++ [name])) := by
  obtain ⟨before, after, rfl, hn⟩ := List.eq_append_cons_of_mem ha
  rw [List.dropWhile_append_of_pos (by simpa using fun a ha (h : a = name) => hn (h ▸ ha)),
    List.dropWhile_cons_of_neg (by simp)]
  exact .cycle hc hn

/-- A class fails with the first defect in it. -/
theorem judges_expand (active : List String) (name : String) (path : PropertyPath) :
    m.Judges options ⟨path, active, .cls name⟩ (m.expand options active name path).result := by
  -- The classes that are not open become fewer with every class inside.
  induction hn : (m.unopened active).length using Nat.strong_induction_on generalizing active name path with
  | h n ih =>
    subst hn
    rw [expand_eq]
    cases hc : m.classes.get? name with
    | none => exact judges_failAt (.unknownClass (by simp [ClassRegistry.contains, hc]))
    | some c =>
      have hcontains := contains_iff_exists_get?.2 ⟨c, hc⟩
      dsimp only
      by_cases ha : name ∈ active
      · rw [if_pos ha]
        exact judges_failAt (defect_cycle hcontains ha)
      · rw [if_neg ha]
        by_cases hd : options.maxDepth < active.length
        · rw [if_pos hd]
          exact judges_failAt (.depthLimit hcontains ha hd)
        · rw [if_neg hd, Traced.result_report_bind, Traced.result_bind_pure, judges_map]
          have hinner (d : String) (q : PropertyPath) : m.Judges options ⟨q, active ++ [name], .cls d⟩
              (m.inner options active name d q).result :=
            ih _ (length_unopened_lt (mem_names_of_get? hc) ha) (active ++ [name]) d q rfl
          refine judges_of_below ?_ (by simp [below, hc]) fun p _ => judges_propertySchema hinner p
          intro fault hdefect
          cases hdefect with
          | unknownClass h => simp [hcontains] at h
          | cycle => exact ha (List.mem_append_right _ List.mem_cons_self)
          | depthLimit _ _ h => exact hd h

/-- The failure of a root is the first defect of its sites, and a root with a first defect fails with it. -/
theorem result_generate_eq_error_iff {root : String} {e : SchemaError} :
    (m.generate options root).result = .error e ↔ m.FirstDefect options (.root root) e := by
  have hjudges : m.Judges options (.root root) (m.generate options root).result := judges_expand [] root (.root root)
  constructor
  · intro h
    rw [h] at hjudges
    exact hjudges
  · rintro ⟨address, site, hsite, hpath, hdefect, hfirst⟩
    cases hr : (m.generate options root).result with
    | ok s =>
      rw [hr] at hjudges
      exact absurd hdefect (hjudges address site hsite _)
    | error e' =>
      rw [hr] at hjudges
      obtain ⟨address', site', hsite', hpath', hdefect', hfirst'⟩ := hjudges
      rcases lt_trichotomy address address' with hlt | rfl | hlt
      · exact absurd hdefect (hfirst' address hlt site hsite _)
      · rw [hsite] at hsite'
        cases hsite'
        have hfault : e'.fault = e.fault := hdefect'.unique hdefect
        cases e
        cases e'
        cases hpath
        cases hpath'
        cases hfault
        rfl
      · exact absurd hdefect' (hfirst address' hlt site' hsite' _)

/-- A root fails exactly with the first defect of its sites: the failure has the path of a site and names what is wrong
there, and nothing is wrong at the sites that the expansion comes to before. -/
theorem generate_eq_error_iff (m : Model) (options : ExpansionOptions) (root : String) (e : SchemaError) :
    (m.generate options root).result = .error e ↔
      ∃ address site, m.siteAt? (.root root) address = some site ∧ e.path = site.path ∧
        m.Defect options site e.fault ∧
        ∀ earlier < address, ∀ passed, m.siteAt? (.root root) earlier = some passed →
          ∀ fault, ¬m.Defect options passed fault :=
  result_generate_eq_error_iff

/-! ## Sites that an expansion comes to -/

/-- An expansion of the root comes to the site at an address: nothing is wrong at the sites before it. -/
def Reaches (m : Model) (options : ExpansionOptions) (root : String) (address : List Nat) (site : Site) : Prop :=
  m.siteAt? (.root root) address = some site ∧
    ∀ earlier < address, ∀ passed, m.siteAt? (.root root) earlier = some passed → ∀ fault, ¬m.Defect options passed fault

/-- The first defect below a site is the first of all, if nothing is wrong at the sites before that site. -/
theorem firstDefect_of_passed {site found : Site} {address : List Nat} {e : SchemaError}
    (hfound : m.siteAt? site address = some found)
    (hpassed : ∀ earlier < address, ∀ passed, m.siteAt? site earlier = some passed → ∀ fault, ¬m.Defect options passed fault)
    (h : m.FirstDefect options found e) : m.FirstDefect options site e := by
  induction address generalizing site with
  | nil =>
    cases hfound
    exact h
  | cons i address ih =>
    obtain ⟨next, hnext, hfound⟩ := siteAt?_cons_eq_some_iff.1 hfound
    obtain ⟨hi, hget⟩ := List.getElem?_eq_some_iff.1 hnext
    have hbelow : m.below site = (m.below site).take i ++ next :: (m.below site).drop (i + 1) := by
      rw [← hget, List.getElem_cons_drop, List.take_append_drop]
    refine firstDefect_of_below (hpassed [] (List.nil_lt_cons i address) site rfl) hbelow ?_ (ih hfound ?_)
    · -- What is below an earlier turn comes before the site.
      intro s hs turns passed hturns
      obtain ⟨j, hj, hget'⟩ := List.mem_take_iff_getElem.1 hs
      have hsj : (m.below site)[j]? = some s := List.getElem?_eq_some_iff.2 ⟨_, hget'⟩
      refine hpassed (j :: turns) (List.cons_lt_cons_iff.2 (Or.inl (by omega))) passed ?_
      exact siteAt?_cons_eq_some_iff.2 ⟨s, hsj, hturns⟩
    · intro earlier hlt passed hp
      exact hpassed (i :: earlier) (List.cons_lt_cons_iff.2 (Or.inr ⟨rfl, hlt⟩)) passed
        (siteAt?_cons_eq_some_iff.2 ⟨next, hnext, hp⟩)

/-- Where an expansion comes to a site, it fails with the first defect there. -/
theorem Reaches.generate_of_firstDefect {root : String} {address : List Nat} {site : Site} {e : SchemaError}
    (h : m.Reaches options root address site) (he : m.FirstDefect options site e) :
    (m.generate options root).result = .error e :=
  result_generate_eq_error_iff.2 (firstDefect_of_passed h.1 h.2 he)

/-- A class that can be opened has no defect of its own. -/
theorem not_defect_class {path : PropertyPath} {active : List String} {name : String} {fault : SchemaFault}
    (hname : m.classes.contains name = true) (hopen : name ∉ active) (hdepth : active.length ≤ options.maxDepth) :
    ¬m.Defect options ⟨path, active, .cls name⟩ fault := by
  intro hdefect
  cases hdefect with
  | unknownClass h =>
    rw [hname] at h
    nomatch h
  | cycle => exact hopen (List.mem_append_right _ List.mem_cons_self)
  | depthLimit _ _ h => exact absurd h (Nat.not_lt.2 hdepth)

/-- An expansion comes to the root's first property. -/
theorem reaches_firstProperty {root : String} {c : ClassDecl} {p : Property} {others : List Property}
    (hc : m.classes.get? root = some c) (hp : c.properties = p :: others) :
    m.Reaches options root [0] ⟨.property (.root root) p.name, [root], .property p⟩ := by
  have hbelow : (m.below (.root root))[0]? = some ⟨.property (.root root) p.name, [root], .property p⟩ := by
    simp only [below, Site.root, hc, hp, List.map_cons, List.getElem?_cons_zero, List.nil_append]
  refine ⟨siteAt?_cons_eq_some_iff.2 ⟨_, hbelow, rfl⟩, ?_⟩
  intro earlier hlt passed hpassed fault
  rcases earlier with _ | ⟨i, earlier⟩
  · cases hpassed
    exact not_defect_class (contains_iff_exists_get?.2 ⟨c, hc⟩) List.not_mem_nil (Nat.zero_le _)
  · rcases List.cons_lt_cons_iff.1 hlt with hi | ⟨-, hnil⟩
    · exact absurd hi (Nat.not_lt_zero i)
    · exact absurd hnil (List.not_lt_nil earlier)

end Model

end ClassSchema
