import ClassSchema.Proofs.Expandable
import ClassSchema.Proofs.PassedSites

/-!
# Cycles are reported exactly

A cycle that is reported is one (`Model.ReferenceCycle`): the site that fails is a class that is open already, and the open
classes from it on are those of a trail (`Trail.referenceCycle`). In the other direction, where every class that a registered
root reaches is in order by itself, a failure can only be a cycle or the limit (`Placed.defect_eq`), and the limit is out of
reach as soon as it admits all classes but one, for the open classes are distinct. What is left to know is that an expansion
that succeeds has seen no cycle, which is `Trail.expands` along a trail that goes once around (`exists_trail_back`).
-/

namespace ClassSchema

namespace Model

open Relation (ReflTransGen TransGen)

variable {m : Model} {options : ExpansionOptions} {root : String}

/-- A chain of references from a class that is reachable from the root back to itself, on which no other class is met twice. -/
structure ReferenceCycle (m : Model) (root : String) (chain : List String) : Prop where
  two_le_length : 2 ≤ chain.length
  /-- The first class is the last. -/
  closed : chain.head? = chain.getLast?
  nodup : chain.dropLast.Nodup
  registered : ∀ name ∈ chain, m.classes.contains name = true
  /-- Every class refers to the next. -/
  refers : chain.IsChain m.Refers
  reachable : ∀ name ∈ chain.head?, ReflTransGen m.Refers root name

/-- A trail that comes back to a class it has left has gone around a cycle. -/
theorem Trail.referenceCycle {before after : List String} {name : String}
    (h : m.Trail root (before ++ name :: after) name) (hnodup : (before ++ name :: after).Nodup) :
    m.ReferenceCycle root (name :: after ++ [name]) := by
  -- The trail is a chain of references as a whole, so it is one from the first place of the class on.
  have hmem : name ∈ before ++ name :: after := List.mem_append_right before List.mem_cons_self
  have hchain := h.isChain.1
  rw [List.append_assoc] at hchain
  refine ⟨by simp, ?_, ?_, ?_, hchain.right_of_append, ?_⟩
  · rw [List.getLast?_concat]
    rfl
  · rw [List.dropLast_concat]
    exact hnodup.of_append_right
  · intro a ha
    rcases List.mem_append.1 ha with ha | ha
    · exact h.registered a (List.mem_append_right before ha)
    · rw [List.mem_singleton.1 ha]
      exact h.registered name hmem
  · intro a ha
    cases ha
    exact h.reachable.1

/-- From a chain that is reported as a cycle, a class that is reachable and refers to itself, class by class. -/
theorem ReferenceCycle.exists_cycle {chain : List String} (h : m.ReferenceCycle root chain) :
    ∃ d, ReflTransGen m.Refers root d ∧ TransGen m.Refers d d := by
  rcases chain with _ | ⟨a, _ | ⟨b, rest⟩⟩
  · exact absurd h.two_le_length (by simp)
  · exact absurd h.two_le_length (by simp)
  · obtain ⟨hab, hrest⟩ := List.isChain_cons_cons.1 h.refers
    have hlast : (b :: rest).getLast (List.cons_ne_nil b rest) = a := by
      have hclosed := h.closed
      rw [List.getLast?_cons_cons, List.getLast?_eq_some_getLast (List.cons_ne_nil b rest)] at hclosed
      exact (Option.some.inj hclosed).symm
    exact ⟨a, h.reachable a rfl, .head' hab (List.relationReflTransGen_of_exists_isChain_cons rest hrest hlast)⟩

/-- A class on a cycle is come to by a trail that has left it before. -/
theorem exists_trail_back {d : String} (hd : ReflTransGen m.Refers root d) (hcycle : TransGen m.Refers d d) :
    ∃ active, m.Trail root active d ∧ d ∈ active := by
  obtain ⟨active, ht⟩ := reachable_iff_exists_trail.1 hd
  obtain ⟨e, hde, hed⟩ := Relation.TransGen.head'_iff.1 hcycle
  obtain ⟨more, ht⟩ := (ht.step hde).extend hed
  exact ⟨active ++ [d] ++ more, ht, by simp⟩

/-- No cycle is reachable from a root that can be expanded. -/
theorem Expands.acyclic {d : String} (h : m.Expands options [] root) (hd : ReflTransGen m.Refers root d) :
    ¬TransGen m.Refers d d := by
  intro hcycle
  obtain ⟨active, ht, ha⟩ := exists_trail_back hd hcycle
  obtain ⟨-, -, hopen, -⟩ := expands_iff.1 (ht.expands h)
  exact hopen ha

/-! ## What can be wrong where all classes are in order -/

section WellDeclared

variable (hroot : m.classes.contains root = true)
  (hwell : ∀ d c, ReflTransGen m.Refers root d → m.classes.get? d = some c → m.WellDeclared options.tuplePolicy c)

include hwell

/-- A type in a class that is reachable is in order by itself. -/
theorem TypeInside.admits {active : List String} {t : TypeExpr} (h : m.TypeInside root active t) :
    m.Admits options.tuplePolicy t := by
  obtain ⟨c, hinside, p, hp, s, hs, houter⟩ := h
  obtain ⟨d, hd, hc⟩ := hinside.reachable
  obtain ⟨s', hs', hadmits⟩ := hwell d c hd hc p hp
  rw [hs] at hs'
  cases hs'
  exact hadmits.outer houter

/-- A property of a class that is reachable has one annotation, which writes a type. -/
theorem Inside.exists_annotation {active : List String} {c : ClassDecl} {p : Property} (h : m.Inside root active c)
    (hp : p ∈ c.properties) : ∃ text t, p.annotations = [text] ∧ TypeExpr.parse text = .ok t := by
  obtain ⟨d, hd, hc⟩ := h.reachable
  obtain ⟨t, ht, -⟩ := hwell d c hd hc p hp
  obtain ⟨text, ha, hparse⟩ := Property.expr?_eq_some_iff.1 ht
  exact ⟨text, t, ha, hparse⟩

/-- An element of a tuple in a class that is reachable is a scalar. -/
theorem Placed.exists_scalar {path : PropertyPath} {active : List String} {t : TypeExpr}
    (h : m.Placed root ⟨path, active, .element t⟩) : ∃ s, t.scalar? = some s := by
  obtain ⟨elements, htuple, ht⟩ := h
  cases htuple.admits hwell with
  | tuple hscalar _ => exact hscalar t ht

include hroot

/-- Where what is reachable is in order by itself, a class that is open already or is too deep is all that can be wrong. -/
theorem Placed.defect_eq {site : Site} {fault : SchemaFault} (h : m.Placed root site)
    (hdefect : m.Defect options site fault) :
    ∃ name, m.Trail root site.active name ∧ m.classes.contains name = true ∧
      ((∃ chain, fault = .cycle chain) ∨
        name ∉ site.active ∧ options.maxDepth < site.active.length ∧ fault = .depthLimit options.maxDepth) := by
  cases hdefect with
  | unknownClass hc =>
    have hc' := Trail.contains h hroot
    rw [hc] at hc'
    nomatch hc'
  | cycle hc _ => exact ⟨_, h, hc, Or.inl ⟨_, rfl⟩⟩
  | depthLimit hc ha hd => exact ⟨_, h, hc, Or.inr ⟨ha, hd, rfl⟩⟩
  | annotationCount hn =>
    obtain ⟨c, hinside, hp⟩ := h
    obtain ⟨text, t, ha, -⟩ := hinside.exists_annotation hwell hp
    exact absurd (by rw [ha]; rfl) hn
  | malformed ha herror _ | arity ha herror _ =>
    obtain ⟨c, hinside, hp⟩ := h
    obtain ⟨text, t, ha', hparse⟩ := hinside.exists_annotation hwell hp
    rw [ha] at ha'
    cases ha'
    rw [herror] at hparse
    nomatch hparse
  | genericBase hb =>
    cases TypeInside.admits hwell h with
    | generic hb' _ =>
      rw [hb] at hb'
      nomatch hb'
  | unknownName hn hs =>
    cases TypeInside.admits hwell h with
    | ident hname =>
      obtain ⟨hc, he⟩ := hn
      simp [hc, he, hs] at hname
  | mixedTuple hp hhead _ hfound hne =>
    cases TypeInside.admits hwell h with
    | tuple _ hsame =>
      have heq := hsame hp _ List.mem_cons_self _ (List.mem_cons_of_mem _ (List.mem_append_right _ List.mem_cons_self))
      rw [hhead, hfound] at heq
      exact absurd (Option.some.inj heq).symm hne
  | compoundElement hs _ =>
    obtain ⟨s, hs'⟩ := h.exists_scalar hwell
    rw [hs] at hs'
    nomatch hs'
  | unknownElement hs _ =>
    obtain ⟨s, hs'⟩ := h.exists_scalar hwell
    rw [TypeExpr.scalar?, hs] at hs'
    nomatch hs'

/-- Where what is reachable is in order by itself and the limit admits all classes but one, every failure is a cycle. -/
theorem exists_cycle_of_error (hdepth : m.classes.classes.length - 1 ≤ options.maxDepth) {e : SchemaError}
    (h : (m.generate options root).result = .error e) : ∃ chain, e.fault = .cycle chain := by
  obtain ⟨site, hplaced, hnodup, hdefect⟩ := exists_site_of_error h
  obtain ⟨name, htrail, hc, hcycle | ⟨hopen, hlimit, -⟩⟩ := hplaced.defect_eq hroot hwell hdefect
  · exact hcycle
  · have hlt := htrail.length_lt hnodup hc hopen
    omega

end WellDeclared

/-! ## Roots -/

/-- Cycles are reported exactly and honestly. A chain that is reported is a cycle of references reachable from the root; and
where the root is registered, every class it reaches is in order by itself and the limit admits all classes but one, a cycle
is reported exactly if one is reachable, there is a schema exactly if none is, and the limit is never reported. -/
theorem generate_reports_cycles (m : Model) (options : ExpansionOptions) (root : String) :
    (∀ path chain, (m.generate options root).result = .error ⟨path, .cycle chain⟩ → m.ReferenceCycle root chain) ∧
    (m.classes.contains root = true →
      (∀ d c, ReflTransGen m.Refers root d → m.classes.get? d = some c → m.WellDeclared options.tuplePolicy c) →
      m.classes.classes.length - 1 ≤ options.maxDepth →
        ((∃ path chain, (m.generate options root).result = .error ⟨path, .cycle chain⟩) ↔
          ∃ d, ReflTransGen m.Refers root d ∧ TransGen m.Refers d d) ∧
        ((∃ s, (m.generate options root).result = .ok s) ↔
          ¬∃ d, ReflTransGen m.Refers root d ∧ TransGen m.Refers d d) ∧
        ∀ path limit, (m.generate options root).result ≠ .error ⟨path, .depthLimit limit⟩) := by
  have hsound : ∀ path chain, (m.generate options root).result = .error ⟨path, .cycle chain⟩ →
      m.ReferenceCycle root chain := by
    intro path chain h
    obtain ⟨site, hplaced, hnodup, hdefect⟩ := exists_site_of_error h
    cases hdefect with
    | cycle _ _ => exact Trail.referenceCycle hplaced hnodup
  refine ⟨hsound, ?_⟩
  intro hroot hwell hdepth
  cases hr : (m.generate options root).result with
  | ok s =>
    have hnone : ¬∃ d, ReflTransGen m.Refers root d ∧ TransGen m.Refers d d := by
      rintro ⟨d, hd, hcycle⟩
      exact (expands_of_expand hr).acyclic hd hcycle
    refine ⟨⟨?_, fun h => absurd h hnone⟩, ⟨fun _ => hnone, fun _ => ⟨s, rfl⟩⟩, nofun⟩
    rintro ⟨path, chain, h⟩
    nomatch h
  | error e =>
    obtain ⟨path, fault⟩ := e
    obtain ⟨chain, hfault⟩ := exists_cycle_of_error hroot hwell hdepth hr
    cases hfault
    have hcyclic := (hsound path chain hr).exists_cycle
    refine ⟨⟨fun _ => hcyclic, fun _ => ⟨path, chain, rfl⟩⟩, ⟨?_, fun h => absurd hcyclic h⟩, ?_⟩
    · rintro ⟨s, h⟩
      nomatch h
    · intro path limit h
      nomatch h

/-- A model in which a class is inside itself, through an array and a union, but not inside its owner. -/
def nestedNodes : Model :=
  ⟨⟨[⟨"Tree", [⟨"root", ["Node"]⟩]⟩, ⟨"Node", [⟨"label", ["string"]⟩, ⟨"children", ["array<Node>|null"]⟩]⟩], by decide,
    by decide⟩, ⟨[], List.nodup_nil⟩⟩

theorem wellDeclared_of_mem_nestedNodes {policy : TuplePolicy} :
    ∀ c ∈ nestedNodes.classes.classes, nestedNodes.WellDeclared policy c := by
  have hstring : nestedNodes.Admits policy (.ident "string") := .ident (Or.inr (Or.inr ⟨.string, by decide⟩))
  have hnull : nestedNodes.Admits policy (.ident "null") := .ident (Or.inr (Or.inr ⟨.null, by decide⟩))
  have hnode : nestedNodes.Admits policy (.ident "Node") := .ident (Or.inl (by decide))
  have hchildren : nestedNodes.Admits policy (.union [.generic "array" (.ident "Node"), .ident "null"]) :=
    .union (List.forall_mem_cons.2 ⟨.generic (by decide) hnode, List.forall_mem_singleton.2 hnull⟩)
  refine List.forall_mem_cons.2 ⟨?_, List.forall_mem_singleton.2 ?_⟩
  · exact List.forall_mem_singleton.2 ⟨_, by decide +kernel, hnode⟩
  · exact List.forall_mem_cons.2 ⟨⟨_, by decide +kernel, hstring⟩, List.forall_mem_singleton.2 ⟨_, by decide +kernel, hchildren⟩⟩

theorem generate_reports_cycles_nestedNodes :
    nestedNodes.ReferenceCycle "Tree" ["Node", "Node"] ∧
      (∃ d, ReflTransGen nestedNodes.Refers "Tree" d ∧ TransGen nestedNodes.Refers d d) ∧
      (¬∃ s, (nestedNodes.generate { maxDepth := 1 } "Tree").result = .ok s) ∧
      ∀ path limit, (nestedNodes.generate { maxDepth := 1 } "Tree").result ≠ .error ⟨path, .depthLimit limit⟩ := by
  have hresult : (nestedNodes.generate { maxDepth := 1 } "Tree").result =
      .error ⟨.items (.property (.property (.root "Tree") "root") "children"), .cycle ["Node", "Node"]⟩ := by
    decide +kernel
  have hwell : ∀ d c, ReflTransGen nestedNodes.Refers "Tree" d → nestedNodes.classes.get? d = some c →
      nestedNodes.WellDeclared .firstElement c :=
    fun d c _ hc => wellDeclared_of_mem_nestedNodes c (List.mem_of_find?_eq_some hc)
  obtain ⟨hsound, hcomplete⟩ := generate_reports_cycles nestedNodes { maxDepth := 1 } "Tree"
  obtain ⟨hcycle, hok, hlimit⟩ := hcomplete (by decide) hwell (by decide)
  have hcyclic := hcycle.1 ⟨_, _, hresult⟩
  exact ⟨hsound _ _ hresult, hcyclic, fun h => hok.1 h hcyclic, hlimit⟩

end Model

end ClassSchema
