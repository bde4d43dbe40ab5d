import ClassSchema.Proofs.StepValues

/-!
# Which classes have a schema

The classes that can be expanded, said without an expansion. One step: a class can be expanded while others are open around
it when it is registered, not open and not too deep, is in order by itself, and every class it refers to can be expanded with
it open (`expands_iff`). From the step, by induction along trails in one direction and on the classes that are not open in
the other, the main statement `generate_ok_iff`: a root has a schema exactly when every class reachable from it is in order by
itself, none of them lies on a cycle, and no chain of references from the root is longer than the limit.
-/

namespace ClassSchema

namespace Model

open Relation (ReflTransGen TransGen)

variable {m : Model} {options : ExpansionOptions}

/-! ## Types -/

/-- A tuple has a schema when it is in order by itself. -/
theorem exists_tupleSchema_iff {policy : TuplePolicy} {path : PropertyPath} {elements : List TypeExpr} :
    (∃ s, (m.tupleSchema policy path elements).result = .ok s) ↔ m.Admits policy (.tuple elements) := by
  cases elements with
  | nil =>
    refine ⟨fun _ => .tuple (by simp) (by simp), fun _ => ⟨_, tupleSchema_nil⟩⟩
  | cons head rest =>
    constructor
    · rintro ⟨s, h⟩
      obtain ⟨first, hfirst, hrest, rfl⟩ := tupleSchema_cons_eq_ok_iff.1 h
      refine .tuple ?_ ?_
      · intro t ht
        rcases List.mem_cons.1 ht with rfl | ht
        · exact ⟨first, hfirst⟩
        · obtain ⟨other, hother, -⟩ := hrest t ht
          exact ⟨other, hother⟩
      · intro hp
        have hall : ∀ t ∈ head :: rest, t.scalar? = some first := by
          intro t ht
          rcases List.mem_cons.1 ht with rfl | ht
          · exact hfirst
          · obtain ⟨other, hother, heq⟩ := hrest t ht
            rw [hother, heq hp]
        intro t ht u hu
        rw [hall t ht, hall u hu]
    · rintro (_ | _ | _ | ⟨hscalar, hsame⟩)
      obtain ⟨first, hfirst⟩ := hscalar head List.mem_cons_self
      refine ⟨_, tupleSchema_cons_eq_ok_iff.2 ⟨first, hfirst, ?_, rfl⟩⟩
      intro e he
      obtain ⟨other, hother⟩ := hscalar e (List.mem_cons_of_mem _ he)
      refine ⟨other, hother, ?_⟩
      intro hp
      have heq := hsame hp e (List.mem_cons_of_mem _ he) head List.mem_cons_self
      rw [hother, hfirst] at heq
      exact Option.some.inj heq

/-- A type has a schema when it is in order by itself and every class it mentions has one, where the path of a class does
not matter. -/
theorem exists_typeSchema_iff {policy : TuplePolicy} {f : String → PropertyPath → Traced SchemaError Schema}
    (hf : ∀ d p q s, (f d p).result = .ok s → (f d q).result = .ok s) {path : PropertyPath} {t : TypeExpr} :
    (∃ s, (m.typeSchema policy f path t).result = .ok s) ↔
      m.Admits policy t ∧ ∀ d, m.classes.contains d = true → t.Mentions d → ∃ s, ∀ q, (f d q).result = .ok s := by
  induction t using TypeExpr.induct generalizing path with
  | ident name =>
    rw [typeSchema_ident]
    constructor
    · rintro ⟨s, h⟩
      rcases nameSchema_eq_ok_iff.1 h with ⟨hc, hs⟩ | ⟨hc, e, he, -⟩ | ⟨hc, -, u, hu, -⟩
      · refine ⟨.ident (Or.inl hc), ?_⟩
        intro d _ hd
        rw [TypeExpr.mentions_ident_iff.1 hd]
        exact ⟨s, fun q => hf _ _ _ _ hs⟩
      · refine ⟨.ident (Or.inr (Or.inl (by rw [EnumRegistry.contains, he]; rfl))), ?_⟩
        intro d hd hn
        rw [TypeExpr.mentions_ident_iff.1 hn, hc] at hd
        nomatch hd
      · refine ⟨.ident (Or.inr (Or.inr ⟨u, hu⟩)), ?_⟩
        intro d hd hn
        rw [TypeExpr.mentions_ident_iff.1 hn, hc] at hd
        nomatch hd
    · rintro ⟨hadmits, hclasses⟩
      cases hc : m.classes.contains name with
      | true =>
        obtain ⟨s, hs⟩ := hclasses name hc (.ident name)
        exact ⟨s, nameSchema_eq_ok_iff.2 (Or.inl ⟨hc, hs path⟩)⟩
      | false =>
        cases he : m.enums.get? name with
        | some e => exact ⟨_, nameSchema_eq_ok_iff.2 (Or.inr (Or.inl ⟨hc, e, he, rfl⟩))⟩
        | none =>
          cases hadmits with
          | ident h =>
            rcases h with h | h | ⟨u, hu⟩
            · rw [hc] at h
              nomatch h
            · rw [EnumRegistry.contains, he] at h
              nomatch h
            · exact ⟨_, nameSchema_eq_ok_iff.2 (Or.inr (Or.inr ⟨hc, he, u, hu, rfl⟩))⟩
  | generic base arg ih =>
    constructor
    · rintro ⟨s, h⟩
      obtain ⟨hb, items, hi, -⟩ := typeSchema_generic_eq_ok_iff.1 h
      obtain ⟨hadmits, hclasses⟩ := ih.1 ⟨items, hi⟩
      exact ⟨.generic hb hadmits, fun d hd hn => hclasses d hd (TypeExpr.mentions_generic_iff.1 hn)⟩
    · rintro ⟨_ | ⟨hb, hadmits⟩ | _ | _, hclasses⟩
      obtain ⟨items, hi⟩ := ih.2 ⟨hadmits, fun d hd hn => hclasses d hd (.generic base hn)⟩
      exact ⟨_, typeSchema_generic_eq_ok_iff.2 ⟨hb, items, hi, rfl⟩⟩
  | union members ih =>
    have hall : (∃ s, (m.typeSchema policy f path (.union members)).result = .ok s) ↔
        ∀ t ∈ members, ∃ s, (m.typeSchema policy f path t).result = .ok s := by
      rw [← Traced.exists_result_mapM_eq_ok]
      constructor
      · rintro ⟨s, h⟩
        obtain ⟨ss, hss, -⟩ := typeSchema_union_eq_ok_iff.1 h
        exact ⟨ss, Traced.result_mapM_eq_ok.2 hss⟩
      · rintro ⟨ss, hss⟩
        exact ⟨_, typeSchema_union_eq_ok_iff.2 ⟨ss, Traced.result_mapM_eq_ok.1 hss, rfl⟩⟩
    rw [hall]
    constructor
    · intro h
      refine ⟨.union fun t ht => ((ih t ht).1 (h t ht)).1, ?_⟩
      intro d hd hn
      obtain ⟨t, ht, hn⟩ := TypeExpr.mentions_union_iff.1 hn
      exact ((ih t ht).1 (h t ht)).2 d hd hn
    · rintro ⟨_ | _ | hadmits | _, hclasses⟩ t ht
      exact (ih t ht).2 ⟨hadmits t ht, fun d hd hn => hclasses d hd (.union ht hn)⟩
  | tuple elements =>
    rw [typeSchema_tuple, exists_tupleSchema_iff]
    exact ⟨fun h => ⟨h, fun d _ hn => absurd hn TypeExpr.not_mentions_tuple⟩, fun h => h.1⟩

/-! ## Classes -/

/-- A class can be expanded while others are open around it; the path does not matter. -/
def Expands (m : Model) (options : ExpansionOptions) (active : List String) (name : String) : Prop :=
  ∃ s, ∀ path, (m.expand options active name path).result = .ok s

/-- A class that is expanded at one path is expanded at every path. -/
theorem expands_of_expand {active : List String} {name : String} {path : PropertyPath} {s : Schema}
    (h : (m.expand options active name path).result = .ok s) : m.Expands options active name :=
  ⟨s, fun _ => expand_ok_mono (List.Subset.refl _) (Nat.le_refl _) h⟩

/-- One step of an expansion: what a class needs by itself, and that the classes it refers to can be expanded inside it. -/
theorem expands_iff {active : List String} {name : String} :
    m.Expands options active name ↔
      ∃ c, m.classes.get? name = some c ∧ name ∉ active ∧ active.length ≤ options.maxDepth ∧
        m.WellDeclared options.tuplePolicy c ∧ ∀ d, m.Refers name d → m.Expands options (active ++ [name]) d := by
  have hf : ∀ d p q s, (m.inner options active name d p).result = .ok s → (m.inner options active name d q).result = .ok s :=
    fun d p q s h => expand_ok_mono (List.Subset.refl _) (Nat.le_refl _) h
  constructor
  · rintro ⟨s, h⟩
    obtain ⟨c, hc, ha, hd, fields, hfields, -⟩ := expand_eq_ok_iff.1 (h .empty)
    have hproperty : ∀ p ∈ c.properties, ∃ t, p.expr? = some t ∧ m.Admits options.tuplePolicy t ∧
        ∀ d, m.classes.contains d = true → t.Mentions d → m.Expands options (active ++ [name]) d := by
      intro p hp
      obtain ⟨field, hfield⟩ := Traced.exists_result_mapM_eq_ok.1 ⟨fields, Traced.result_mapM_eq_ok.2 hfields⟩ p hp
      obtain ⟨-, t, ht, hs⟩ := propertySchema_eq_ok_iff.1 hfield
      exact ⟨t, ht, (exists_typeSchema_iff hf).1 ⟨_, hs⟩⟩
    refine ⟨c, hc, ha, hd, ?_, ?_⟩
    · intro p hp
      obtain ⟨t, ht, hadmits, -⟩ := hproperty p hp
      exact ⟨t, ht, hadmits⟩
    · rintro d ⟨hd, c', hc', p, hp, t, ht, hn⟩
      rw [hc] at hc'
      cases hc'
      obtain ⟨t', ht', -, hclasses⟩ := hproperty p hp
      rw [ht] at ht'
      cases ht'
      exact hclasses d hd hn
  · rintro ⟨c, hc, ha, hd, hwell, hrefers⟩
    have hproperty : ∀ p ∈ c.properties, ∃ field,
        (m.propertySchema options.tuplePolicy (m.inner options active name) .empty p).result = .ok field := by
      intro p hp
      obtain ⟨t, ht, hadmits⟩ := hwell p hp
      have htype : ∃ s, (m.typeSchema options.tuplePolicy (m.inner options active name)
          (.property .empty p.name) t).result = .ok s :=
        (exists_typeSchema_iff hf).2 ⟨hadmits, fun d hd hn => hrefers d ⟨hd, c, hc, p, hp, t, ht, hn⟩⟩
      obtain ⟨s, hs⟩ := htype
      exact ⟨(p.name, s), propertySchema_eq_ok_iff.2 ⟨rfl, t, ht, hs⟩⟩
    obtain ⟨fields, hfields⟩ := Traced.exists_result_mapM_eq_ok.2 hproperty
    exact expands_of_expand (expand_eq_ok_iff.2 ⟨c, hc, ha, hd, fields, Traced.result_mapM_eq_ok.1 hfields, rfl⟩)

/-! ## Roots -/

/-- Along every trail from a root that has a schema, the classes can be expanded with those before them open. -/
theorem Trail.expands {root d : String} {active : List String} (h : m.Trail root active d)
    (hroot : m.Expands options [] root) : m.Expands options active d := by
  induction h with
  | start => exact hroot
  | step _ hr ih =>
    obtain ⟨-, -, -, -, -, hrefers⟩ := expands_iff.1 ih
    exact hrefers _ hr

/-- At the end of a trail a class can be expanded, if what is reachable from the root is registered, in order by itself and
on no cycle, and no trail from the root is too long. -/
theorem Trail.expands_of_wellDeclared {root d : String} {active : List String} (h : m.Trail root active d)
    (hwell : ∀ e, ReflTransGen m.Refers root e →
      ∃ c, m.classes.get? e = some c ∧ m.WellDeclared options.tuplePolicy c)
    (hacyclic : ∀ e, ReflTransGen m.Refers root e → ¬TransGen m.Refers e e)
    (hshort : ∀ more e, m.Trail root more e → more.length ≤ options.maxDepth) : m.Expands options active d := by
  -- A trail never comes back to a class it has left, so the classes that are not on it become fewer.
  induction hn : (m.unopened active).length using Nat.strong_induction_on generalizing active d with
  | h n ih =>
    subst hn
    obtain ⟨hreach, hback⟩ := h.reachable
    obtain ⟨c, hc, hdeclared⟩ := hwell d hreach
    have ha : d ∉ active := fun hd => hacyclic d hreach (hback d hd)
    refine expands_iff.2 ⟨c, hc, ha, hshort _ _ h, hdeclared, ?_⟩
    intro e he
    exact ih _ (length_unopened_lt (mem_names_of_get? hc) ha) (h.step he) rfl

/-- Exactly which roots have a schema: the registered classes from which only classes are reachable that are in order by
themselves and lie on no cycle of references, and from which no chain of references has more links than the limit. -/
theorem generate_ok_iff (m : Model) (options : ExpansionOptions) (root : String) :
    (∃ s, (m.generate options root).result = .ok s) ↔
      m.classes.contains root = true ∧
      (∀ d c, ReflTransGen m.Refers root d → m.classes.get? d = some c → m.WellDeclared options.tuplePolicy c) ∧
      (∀ d, ReflTransGen m.Refers root d → ¬TransGen m.Refers d d) ∧
      ∀ ds : List String, (root :: ds).IsChain m.Refers → ds.length ≤ options.maxDepth := by
  constructor
  · rintro ⟨s, h⟩
    have hroot : m.Expands options [] root := expands_of_expand h
    have htrail : ∀ {active d}, m.Trail root active d → m.Expands options active d := fun ht => ht.expands hroot
    refine ⟨?_, ?_, ?_, ?_⟩
    · obtain ⟨c, hc, -⟩ := expands_iff.1 hroot
      exact contains_iff_exists_get?.2 ⟨c, hc⟩
    · intro d c hd hc
      obtain ⟨active, ht⟩ := reachable_iff_exists_trail.1 hd
      obtain ⟨c', hc', -, -, hwell, -⟩ := expands_iff.1 (htrail ht)
      rw [hc] at hc'
      cases hc'
      exact hwell
    · -- A trail once around the cycle would open a class that is open.
      intro d hd hcycle
      obtain ⟨active, ht⟩ := reachable_iff_exists_trail.1 hd
      obtain ⟨e, hde, hed⟩ := Relation.TransGen.head'_iff.1 hcycle
      obtain ⟨more, ht'⟩ := (ht.step hde).extend hed
      obtain ⟨-, -, ha, -⟩ := expands_iff.1 (htrail ht')
      exact ha (by simp)
    · intro ds hds
      obtain ⟨active, d, ht, hlen⟩ := exists_trail_iff_isChain.2 ⟨ds, hds, rfl⟩
      obtain ⟨-, -, -, hd, -⟩ := expands_iff.1 (htrail ht)
      exact hlen ▸ hd
  · rintro ⟨hc, hwell, hacyclic, hshort⟩
    have hregistered : ∀ e, ReflTransGen m.Refers root e → ∃ c, m.classes.get? e = some c := by
      intro e he
      rcases Relation.ReflTransGen.cases_tail he with rfl | ⟨d, -, hd⟩
      · exact contains_iff_exists_get?.1 hc
      · exact contains_iff_exists_get?.1 hd.1
    have hdeclared : ∀ e, ReflTransGen m.Refers root e →
        ∃ c, m.classes.get? e = some c ∧ m.WellDeclared options.tuplePolicy c := by
      intro e he
      obtain ⟨c, hc⟩ := hregistered e he
      exact ⟨c, hc, hwell e c he hc⟩
    have htrails : ∀ more e, m.Trail root more e → more.length ≤ options.maxDepth := by
      intro more e ht
      obtain ⟨ds, hds, hlen⟩ := exists_trail_iff_isChain.1 ⟨more, e, ht, rfl⟩
      exact hlen ▸ hshort ds hds
    have hroot : m.Expands options [] root := Trail.start.expands_of_wellDeclared hdeclared hacyclic htrails
    obtain ⟨s, hs⟩ := hroot
    exact ⟨s, hs _⟩

end Model

end ClassSchema
