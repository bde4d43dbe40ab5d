import ClassSchema.Proofs.Tuples

/-!
# What an expansion reports

An expansion that succeeds reports the tree of its sites, each site before the sites below it, in order (`Model.Logged`): a class
reports that it is expanded, a property reports its type, a tuple warns of every element that is not of the first one's type, and
nothing else reports anything. So the log is fixed by the model (`Logged.unique`), and the classes in it are the objects of the
schema, each as deep as it stands there (`Schema.objects`).

The main statement is `Model.events_generate`.
-/

namespace ClassSchema

/-! ## The objects of a schema -/

namespace Schema

mutual

/-- The objects of a schema that stands inside so many others, each before the objects inside it: its class, and which one in
number it is of the objects that stand inside one another there. -/
def objects (around : Nat) : Schema → List (String × Nat)
  | object className properties => (className, around + 1) :: objectsOfFields (around + 1) properties
  | array items => objects around items
  | anyOf members => objectsOfAll around members
  | scalar _ | enumeration _ | tuple .. => []

/-- The objects of several schemas. -/
def objectsOfAll (around : Nat) : List Schema → List (String × Nat)
  | [] => []
  | s :: ss => objects around s ++ objectsOfAll around ss

/-- The objects of the schemas of several properties. -/
def objectsOfFields (around : Nat) : List (String × Schema) → List (String × Nat)
  | [] => []
  | (_, s) :: rest => objects around s ++ objectsOfFields around rest

end

variable {around : Nat}

theorem objectsOfAll_eq_flatMap (ss : List Schema) : objectsOfAll around ss = ss.flatMap (objects around) := by
  induction ss with
  | nil => rw [objectsOfAll, List.flatMap_nil]
  | cons s ss ih => rw [objectsOfAll, ih, List.flatMap_cons]

theorem objectsOfFields_eq_flatMap (fields : List (String × Schema)) :
    objectsOfFields around fields = fields.flatMap fun field => field.2.objects around := by
  induction fields with
  | nil => rw [objectsOfFields, List.flatMap_nil]
  | cons field fields ih => rw [objectsOfFields, ih, List.flatMap_cons]

end Schema

/-! ## The log of a site -/

/-- The class and the depth that an event reports. -/
def Event.expansion? : Event → Option (String × Nat)
  | .expandingClass name depth => some (name, depth)
  | _ => none

/-- The warning that an element of a tuple is not of the first one's type. -/
def TypeExpr.warning? (path : PropertyPath) (head t : TypeExpr) : Option Event :=
  match head.scalar?, t.scalar? with
  | some first, some other => if other = first then none else some (.mixedTuple path first other)
  | _, _ => none

/-- What a site reports by itself, unless it is a property without a type. -/
def Site.announced? (site : Site) : Option (List Event) :=
  match site.subject with
  | .cls name => some [.expandingClass name (site.active.length + 1)]
  | .property p => p.expr?.map fun t => [.property site.path t]
  | .type (.tuple (head :: rest)) => some (rest.filterMap (TypeExpr.warning? site.path head))
  | .type _ => some []
  | .element _ => some []

namespace Model

/-- What is reported by a site and then by the sites below it, one after the other. -/
inductive Logged (m : Model) : Site → List Event → Prop where
  | visit {site : Site} {own : List Event} {logs : List (Site × List Event)} :
      site.announced? = some own → m.below site = logs.map (·.1) → (∀ log ∈ logs, Logged m log.1 log.2) →
        Logged m site (own ++ logs.flatMap (·.2))

/-- Lists of pairs with the same first parts are the same if each first part decides the second. -/
theorem eq_of_map_fst_eq {α β : Type} {xs ys : List (α × β)} (h : xs.map (·.1) = ys.map (·.1))
    (hsnd : ∀ x ∈ xs, ∀ y ∈ ys, x.1 = y.1 → x.2 = y.2) : xs = ys := by
  induction xs generalizing ys with
  | nil => exact (List.map_eq_nil_iff.1 h.symm).symm
  | cons x xs ih =>
    cases ys with
    | nil => nomatch h
    | cons y ys =>
      rw [List.map_cons, List.map_cons] at h
      obtain ⟨hfst, hrest⟩ := List.cons.inj h
      have hxy : x = y := Prod.ext hfst (hsnd x List.mem_cons_self y List.mem_cons_self hfst)
      rw [hxy, ih hrest fun a ha b hb => hsnd a (List.mem_cons_of_mem _ ha) b (List.mem_cons_of_mem _ hb)]

variable {m : Model} {site : Site} {events events' own : List Event}

/-- A site has at most one log. -/
theorem Logged.unique (h : m.Logged site events) (h' : m.Logged site events') : events = events' := by
  induction h generalizing events' with
  | @visit site own logs hown hbelow _ ih =>
    cases h' with
    | @visit _ own' logs' hown' hbelow' hlogs' =>
      cases hown.symm.trans hown'
      have hlogs : logs = logs' := by
        refine eq_of_map_fst_eq (hbelow.symm.trans hbelow') ?_
        intro log hlog log' hlog' hsame
        exact ih log hlog (hsame ▸ hlogs' log' hlog')
      rw [hlogs]

/-- A site above others, of which each has a log. -/
theorem logged_of_below {α : Type} {xs : List α} (place : α → Site) (log : α → List Event) (hown : site.announced? = some own)
    (hbelow : m.below site = xs.map place) (h : ∀ x ∈ xs, m.Logged (place x) (log x)) :
    m.Logged site (own ++ xs.flatMap log) := by
  have hlogs : m.below site = (xs.map fun x => (place x, log x)).map (·.1) := by
    rw [hbelow, List.map_map]
    rfl
  have hvisit := Logged.visit hown hlogs (by simpa using h)
  rwa [List.flatMap_map] at hvisit

/-- A site with nothing below it. -/
theorem logged_leaf (hown : site.announced? = some own) (hbelow : m.below site = []) : m.Logged site own := by
  have hnone : m.below site = ([] : List Site).map id := hbelow
  have h := logged_of_below id (fun _ => []) hown hnone nofun
  rwa [List.flatMap_nil, List.append_nil] at h

/-- A site with one other below it. -/
theorem logged_above {next : Site} (hown : site.announced? = some own) (hbelow : m.below site = [next])
    (h : m.Logged next events) : m.Logged site (own ++ events) := by
  have hnext : m.below site = [next].map id := hbelow
  have hall := logged_of_below id (fun _ => events) hown hnext (by simpa using h)
  rwa [List.flatMap_singleton] at hall

end Model

/-! ## The events of steps that succeed -/

namespace Traced

variable {ε α β : Type}

/-- What is done with a value reports nothing. -/
theorem events_bind_pure (x : Traced ε α) (g : α → β) : (x >>= fun a => pure (g a)).events = x.events := by
  rcases x with ⟨events, e | a⟩
  · rfl
  · exact List.append_nil events

/-- A step for every entry reports what the steps report, one after the other. -/
theorem events_mapM {f : α → Traced ε β} {xs : List α} {ys : List β} (h : (xs.mapM f).result = .ok ys) :
    (xs.mapM f).events = xs.flatMap fun x => (f x).events := by
  induction xs generalizing ys with
  | nil => rfl
  | cons x xs ih =>
    rw [List.mapM_cons] at h ⊢
    obtain ⟨b, hb, h⟩ := result_bind_eq_ok.1 h
    obtain ⟨bs, hbs, -⟩ := result_bind_eq_ok.1 h
    rw [bind_of_ok hb, events_bind_pure, ih hbs, List.flatMap_cons]

/-- A step without a value of its own, made for every entry, reports what the steps report. -/
theorem events_forM {f : α → Traced ε Unit} {xs : List α} (h : (xs.forM f).result = .ok ()) :
    (xs.forM f).events = xs.flatMap fun x => (f x).events := by
  induction xs with
  | nil => rfl
  | cons x xs ih =>
    rw [cons_forM] at h ⊢
    obtain ⟨_, hx, hxs⟩ := result_bind_eq_ok.1 h
    rw [bind_of_ok hx, ih hxs, List.flatMap_cons]

/-- What is gathered from the entries is gathered from their values, if it is the same for each entry and its value. -/
theorem flatMap_eq_of_map_eq {γ : Type} {f : α → Except ε β} {xs : List α} {ys : List β} (h : xs.map f = ys.map .ok)
    {g : α → List γ} {k : β → List γ} (hgk : ∀ x ∈ xs, ∀ y, f x = .ok y → g x = k y) : xs.flatMap g = ys.flatMap k := by
  induction xs generalizing ys with
  | nil =>
    cases ys with
    | nil => rfl
    | cons y ys => nomatch h
  | cons x xs ih =>
    cases ys with
    | nil => nomatch h
    | cons y ys =>
      rw [List.map_cons, List.map_cons] at h
      obtain ⟨hx, hxs⟩ := List.cons.inj h
      rw [List.forall_mem_cons] at hgk
      rw [List.flatMap_cons, List.flatMap_cons, hgk.1 y hx, ih hxs hgk.2]

end Traced

/-! ## Step by step -/

namespace Model

variable {m : Model} {policy : TuplePolicy} {path : PropertyPath} {active : List String}
  {f : String → PropertyPath → Traced SchemaError Schema}

/-- If a step at a site gives a schema, its events are the log of the site, and the classes in it are the objects of the schema.
-/
def Tells (m : Model) (site : Site) (x : Traced SchemaError Schema) : Prop :=
  ∀ s, x.result = .ok s → m.Logged site x.events ∧ x.events.filterMap Event.expansion? = s.objects site.active.length

/-- A step that says nothing, at a site with nothing to say or below it, whose schema holds no objects. -/
theorem tells_quiet {site : Site} {s : Schema} (hown : site.announced? = some []) (hbelow : m.below site = [])
    (hobjects : s.objects site.active.length = []) : m.Tells site (pure s) := by
  intro s' hs'
  cases hs'
  exact ⟨logged_leaf hown hbelow, hobjects.symm⟩

/-- An element of a tuple after the first warns if it is not of the first one's type. -/
theorem events_laterElement {elements : List TypeExpr} {head t : TypeExpr} {first : Scalar} (hhead : head.scalar? = some first)
    (h : (m.laterElement policy path elements first t).result = .ok ()) :
    (m.laterElement policy path elements first t).events = (head.warning? path t).toList := by
  obtain ⟨other, hother, hpolicy⟩ := laterElement_eq_ok_iff.1 h
  unfold TypeExpr.warning?
  rw [hhead, hother]
  by_cases hsame : other = first
  · subst hsame
    rw [laterElement_of_same hother]
    simp only [if_pos]
    rfl
  · rw [laterElement_of_other hother hsame]
    simp only [if_neg hsame]
    cases policy with
    | firstElement => rfl
    | homogeneous => exact absurd (hpolicy rfl) hsame

/-- A tuple warns of its elements. -/
theorem tells_tupleSchema (elements : List TypeExpr) :
    m.Tells ⟨path, active, .type (.tuple elements)⟩ (m.tupleSchema policy path elements) := by
  cases elements with
  | nil => exact tells_quiet rfl rfl (by rw [Schema.objects])
  | cons head rest =>
    intro s hs
    obtain ⟨first, hhead, hlater, rfl⟩ := tupleSchema_cons_eq_ok_iff.1 hs
    have hpass : ∀ t ∈ rest, (m.laterElement policy path (head :: rest) first t).result = .ok () :=
      fun t ht => laterElement_eq_ok_iff.2 (hlater t ht)
    have hevents : (m.tupleSchema policy path (head :: rest)).events = rest.filterMap (head.warning? path) := by
      rw [tupleSchema, elementScalar_of_some hhead, pure_bind, Traced.events_bind_pure,
        Traced.events_forM (Traced.result_forM_eq_ok.2 hpass), List.filterMap_eq_flatMap_toList]
      exact List.flatMap_congr fun t ht => events_laterElement hhead (hpass t ht)
    rw [hevents, Schema.objects]
    constructor
    · have hbelow : m.below ⟨path, active, .type (.tuple (head :: rest))⟩ =
          (head :: rest).map fun t => ⟨path.items, active, .element t⟩ := rfl
      have hlogged := logged_of_below _ (fun _ => []) rfl hbelow fun t _ => logged_leaf rfl rfl
      have hnone : (head :: rest).flatMap (fun _ => ([] : List Event)) = [] := List.flatMap_eq_nil_iff.2 fun _ _ => rfl
      rwa [hnone, List.append_nil] at hlogged
    · rw [List.filterMap_filterMap, List.filterMap_eq_nil_iff]
      intro t _
      unfold TypeExpr.warning?
      split
      · split <;> rfl
      · rfl

/-- A name tells what the class tells for which it stands. -/
theorem tells_nameSchema (hclass : ∀ name path, m.Tells ⟨path, active, .cls name⟩ (f name path)) (name : String) :
    m.Tells ⟨path, active, .type (.ident name)⟩ (m.nameSchema f path name) := by
  unfold nameSchema
  cases hc : m.classes.contains name with
  | true =>
    intro s hs
    obtain ⟨hlogged, hobjects⟩ := hclass name path s hs
    have hown : Site.announced? ⟨path, active, .type (.ident name)⟩ = some [] := rfl
    exact ⟨logged_above hown (if_pos hc) hlogged, hobjects⟩
  | false =>
    have hbelow : m.below ⟨path, active, .type (.ident name)⟩ = [] := if_neg (by rw [hc]; exact Bool.false_ne_true)
    cases m.enums.get? name with
    | some e => exact tells_quiet rfl hbelow (by rw [Schema.objects])
    | none =>
      cases Scalar.ofName? name with
      | some t => exact tells_quiet rfl hbelow (by rw [Schema.objects])
      | none => nofun

/-- A type tells what is told inside it. -/
theorem tells_typeSchema (hclass : ∀ name path, m.Tells ⟨path, active, .cls name⟩ (f name path)) (t : TypeExpr) :
    m.Tells ⟨path, active, .type t⟩ (m.typeSchema policy f path t) := by
  induction t using TypeExpr.induct generalizing path with
  | ident name =>
    rw [typeSchema_ident]
    exact tells_nameSchema hclass name
  | generic base arg ih =>
    intro s hs
    obtain ⟨hb, items, hi, rfl⟩ := typeSchema_generic_eq_ok_iff.1 hs
    obtain ⟨hlogged, hobjects⟩ := ih items hi
    have hevents : (m.typeSchema policy f path (.generic base arg)).events = (m.typeSchema policy f path.items arg).events := by
      rw [typeSchema, if_pos hb]
      exact Traced.events_bind_pure _ _
    have hown : Site.announced? ⟨path, active, .type (.generic base arg)⟩ = some [] := rfl
    rw [hevents, hobjects, Schema.objects]
    exact ⟨logged_above hown (if_pos hb) hlogged, rfl⟩
  | union members ih =>
    intro s hs
    obtain ⟨ss, hss, rfl⟩ := typeSchema_union_eq_ok_iff.1 hs
    have hmembers : (members.mapM (m.typeSchema policy f path)).result = .ok ss := Traced.result_mapM_eq_ok.2 hss
    have hevents : (m.typeSchema policy f path (.union members)).events =
        members.flatMap fun t => (m.typeSchema policy f path t).events := by
      rw [typeSchema, memberSchemas_eq_mapM, Traced.events_bind_pure, Traced.events_mapM hmembers]
    rw [hevents]
    constructor
    · have hown : Site.announced? ⟨path, active, .type (.union members)⟩ = some [] := rfl
      refine logged_of_below (fun t => ⟨path, active, .type t⟩) _ hown rfl ?_
      intro t ht
      obtain ⟨s, -, hs⟩ := Traced.exists_value_of_map_eq hss ht
      exact (ih t ht s hs).1
    · rw [Schema.objects, Schema.objectsOfAll_eq_flatMap, List.filterMap_flatMap]
      exact Traced.flatMap_eq_of_map_eq hss fun t ht s hs => (ih t ht s hs).2
  | tuple elements =>
    rw [typeSchema_tuple]
    exact tells_tupleSchema elements

/-- A property reports its type and tells what is told inside it. -/
theorem logged_propertySchema (hclass : ∀ name path, m.Tells ⟨path, active, .cls name⟩ (f name path)) {p : Property}
    {field : String × Schema} (h : (m.propertySchema policy f path p).result = .ok field) :
    m.Logged ⟨path.property p.name, active, .property p⟩ (m.propertySchema policy f path p).events ∧
      (m.propertySchema policy f path p).events.filterMap Event.expansion? = field.2.objects active.length := by
  obtain ⟨-, t, ht, hs⟩ := propertySchema_eq_ok_iff.1 h
  obtain ⟨hlogged, hobjects⟩ := tells_typeSchema hclass t field.2 hs
  have hevents : (m.propertySchema policy f path p).events =
      [.property (path.property p.name) t] ++ (m.typeSchema policy f (path.property p.name) t).events := by
    rw [propertySchema_of_expr? ht, Traced.bind_of_ok (Traced.result_report _), Traced.events_bind_pure]
    rfl
  rw [hevents]
  refine ⟨logged_above ?_ ?_ hlogged, hobjects⟩
  · simp only [Site.announced?, ht, Option.map_some]
  · simp only [below, ht, Option.toList_some, List.map_cons, List.map_nil]

/-- A class that is expanded tells its log and its objects. -/
theorem tells_expand (options : ExpansionOptions) (active : List String) (name : String) (path : PropertyPath) :
    m.Tells ⟨path, active, .cls name⟩ (m.expand options active name path) := by
  -- The classes that are not open become fewer with every class inside.
  induction hn : (m.unopened active).length using Nat.strong_induction_on generalizing active name path with
  | h n ih =>
    subst hn
    intro s hs
    obtain ⟨c, hc, hopen, hdepth, fields, hfields, rfl⟩ := expand_eq_ok_iff.1 hs
    have hinner (d : String) (q : PropertyPath) : m.Tells ⟨q, active ++ [name], .cls d⟩ (m.inner options active name d q) :=
      ih _ (length_unopened_lt (mem_names_of_get? hc) hopen) _ d q rfl
    have hevents : (m.expand options active name path).events = [.expandingClass name (active.length + 1)] ++
        c.properties.flatMap fun p => (m.propertySchema options.tuplePolicy (m.inner options active name) path p).events := by
      rw [expand_eq, hc]
      simp only [if_neg hopen, if_neg (Nat.not_lt.2 hdepth)]
      rw [Traced.bind_of_ok (Traced.result_report _), Traced.events_bind_pure,
        Traced.events_mapM (Traced.result_mapM_eq_ok.2 hfields)]
      rfl
    rw [hevents]
    constructor
    · refine logged_of_below (fun p => ⟨path.property p.name, active ++ [name], .property p⟩) _ rfl ?_ ?_
      · simp only [below, hc]
      · intro p hp
        obtain ⟨field, -, hfield⟩ := Traced.exists_value_of_map_eq hfields hp
        exact (logged_propertySchema hinner hfield).1
    · rw [List.filterMap_append, List.filterMap_flatMap, Schema.objects, Schema.objectsOfFields_eq_flatMap]
      refine congrArg ((name, active.length + 1) :: ·) (Traced.flatMap_eq_of_map_eq hfields fun p _ field hfield => ?_)
      rw [(logged_propertySchema hinner hfield).2, List.length_append, List.length_singleton]

/-- A relation that only asks that the second of two steps is quiet. -/
theorem sideBySide_quiet : SideBySide fun _ _ y => y.Quiet where
  same _ h := h
  bind := by
    intro α β x y f g hy hg
    cases hr : y.result with
    | error e =>
      rw [Traced.bind_of_error hr]
      exact hy
    | ok a =>
      rw [Traced.bind_of_ok hr]
      exact List.forall_mem_append.2 ⟨hy, hg a⟩

/-- Strict tuples raise no warning. -/
theorem quiet_homogeneous {options : ExpansionOptions} (h : options.tuplePolicy = .homogeneous) (root : String) :
    (m.generate options root).Quiet := by
  refine sideBySide_quiet.expand ?_ (Nat.le_refl options.maxDepth) ?_
  · intro path elements
    rw [h]
    rcases tupleSchema_cases m path elements with ⟨first, other, hmixed⟩ | ⟨x, hquiet, hx⟩
    · rw [tupleSchema_homogeneous_of_mixed hmixed]
      exact quiet_failAt _ _
    · rw [hx]
      exact hquiet
  · intro path n y hn
    rw [if_pos hn]
    exact quiet_failAt _ _

/-- The log of an expansion that succeeds is a trace of its schema. It is the log of the root: every class reports that it is
expanded and then logs its properties in order, every property reports its only type and then logs it, and every tuple warns once
of each element that is not of the first one's type. The expansions in it are the objects of the schema, each before those inside
it and with its depth. Strict tuples raise no warning. -/
theorem events_generate {m : Model} {options : ExpansionOptions} {root : String} {s : Schema}
    (h : (m.generate options root).result = .ok s) :
    (∀ events, m.Logged (.root root) events ↔ events = (m.generate options root).events) ∧
      (m.generate options root).events.filterMap Event.expansion? = s.objects 0 ∧
      (options.tuplePolicy = .homogeneous → ∀ e ∈ (m.generate options root).events, e.isMixedTuple = false) := by
  obtain ⟨hlogged, hobjects⟩ := tells_expand options [] root (.root root) s h
  refine ⟨fun events => ⟨fun hevents => hevents.unique hlogged, ?_⟩, hobjects, fun hpolicy => quiet_homogeneous hpolicy root⟩
  rintro rfl
  exact hlogged

/-- A model with a class that stands in two others, at different depths, and with a mixed tuple. -/
def drawing : Model :=
  ⟨⟨[⟨"Point", [⟨"x", ["float"]⟩, ⟨"y", ["float"]⟩]⟩,
    ⟨"Line", [⟨"ends", ["array<Point>"]⟩, ⟨"label", ["array{string,int,string,bool}|null"]⟩]⟩,
    ⟨"Drawing", [⟨"origin", ["?Point"]⟩, ⟨"lines", ["array<Line>"]⟩]⟩], by decide, by decide⟩, ⟨[], List.nodup_nil⟩⟩

theorem events_generate_drawing :
    ∃ s, (drawing.generate ⟨64, .firstElement⟩ "Drawing").result = .ok s ∧
      s.objects 0 = [("Drawing", 1), ("Point", 2), ("Line", 2), ("Point", 3)] ∧
      drawing.Logged (.root "Drawing") (drawing.generate ⟨64, .firstElement⟩ "Drawing").events ∧
      (drawing.generate ⟨64, .firstElement⟩ "Drawing").events.filter Event.isMixedTuple =
        [.mixedTuple (.property (.items (.property (.root "Drawing") "lines")) "label") .string .int,
          .mixedTuple (.property (.items (.property (.root "Drawing") "lines")) "label") .string .bool] := by
  have hresult : (drawing.generate ⟨64, .firstElement⟩ "Drawing").result =
      .ok (.object "Drawing" [("origin", .anyOf [.object "Point" [("x", .scalar .float), ("y", .scalar .float)], .scalar .null]),
        ("lines", .array (.object "Line" [("ends", .array (.object "Point" [("x", .scalar .float), ("y", .scalar .float)])),
          ("label", .anyOf [.tuple .string 4, .scalar .null])]))]) := by
    decide +kernel
  have hexpansions : (drawing.generate ⟨64, .firstElement⟩ "Drawing").events.filterMap Event.expansion? =
      [("Drawing", 1), ("Point", 2), ("Line", 2), ("Point", 3)] := by
    decide +kernel
  obtain ⟨hlogged, hobjects, -⟩ := events_generate hresult
  exact ⟨_, hresult, hobjects.symm.trans hexpansions, (hlogged _).2 rfl, by decide +kernel⟩

end Model

end ClassSchema
