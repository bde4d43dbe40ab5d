import ClassSchema.Proofs.Language
import ClassSchema.Proofs.Reference

/-!
# Unions inside unions

The canonical text of a union has no marks around its members, so a union in a union is written like one union, and a union of
one member like the member. What such texts have in common is the expression in which all unions are merged
(`TypeExpr.flat`). An expression whose unions are flat is its own merged form (`flat_of_flatUnions`), and in a merged form no
union is a member of a union (`everywhere_noInnerUnion_flat`).
-/

namespace ClassSchema

namespace TypeExpr

open Grammar (ofMembers)

/-! ## Unions -/

/-- No union in an expression is without members. -/
def NoEmptyUnion : TypeExpr → Prop := Everywhere (· ≠ union [])

/-- An expression that is a union. -/
def IsUnion (t : TypeExpr) : Prop := ∃ members, t = union members

/-- Every union in an expression has two members or more, and none of them is a union. -/
def FlatUnions : TypeExpr → Prop :=
  Everywhere fun s => ∀ members, s = union members → 2 ≤ members.length ∧ ∀ t ∈ members, ¬t.IsUnion

/-- No member of a union is a union. -/
def NoInnerUnion (s : TypeExpr) : Prop := ∀ members, s = union members → ∀ t ∈ members, ¬t.IsUnion

/-! ## Merging unions -/

mutual

/-- The alternatives of an expression when every union in a union is merged into it; what is no union is its only
alternative. -/
def alternatives : TypeExpr → List TypeExpr
  | ident name => [ident name]
  | generic base arg => [generic base (ofMembers (alternatives arg))]
  | union members => alternativesAll members
  | tuple elements => [tuple (flatAll elements)]

/-- The alternatives of several expressions, one after the other. -/
def alternativesAll : List TypeExpr → List TypeExpr
  | [] => []
  | t :: ts => alternatives t ++ alternativesAll ts

/-- Several expressions with their unions merged. -/
def flatAll : List TypeExpr → List TypeExpr
  | [] => []
  | t :: ts => ofMembers (alternatives t) :: flatAll ts

end

/-- An expression with every union that is a member of a union merged into it, and every union of one member replaced by the
member. -/
def flat (t : TypeExpr) : TypeExpr := ofMembers t.alternatives

theorem flatAll_eq_map (ts : List TypeExpr) : flatAll ts = ts.map flat := by
  induction ts with
  | nil => rfl
  | cons t ts ih => rw [flatAll, ih, List.map_cons, flat]

theorem alternativesAll_eq_flatMap (ts : List TypeExpr) : alternativesAll ts = ts.flatMap alternatives := by
  induction ts with
  | nil => rfl
  | cons t ts ih => rw [alternativesAll, ih, List.flatMap_cons]

/-! ## Expressions with flat unions -/

/-- An expression with flat unions has no empty union. -/
theorem FlatUnions.noEmptyUnion {t : TypeExpr} (h : t.FlatUnions) : t.NoEmptyUnion := by
  intro s hs hempty
  have := (h s hs [] hempty).1
  simp at this

/-- The alternatives of an expression with flat unions are the members of the union that it is, or the expression itself. -/
theorem alternatives_of_flatUnions {t : TypeExpr} (h : t.FlatUnions) :
    t = ofMembers t.alternatives ∧ (¬t.IsUnion → t.alternatives = [t]) := by
  induction t using TypeExpr.induct with
  | ident name => exact ⟨rfl, fun _ => rfl⟩
  | generic base arg ih =>
    obtain ⟨harg, -⟩ := ih (everywhere_generic_iff.1 h).2
    rw [alternatives, ← harg]
    exact ⟨rfl, fun _ => rfl⟩
  | union members ih =>
    obtain ⟨hnode, hmembers⟩ := everywhere_union_iff.1 h
    obtain ⟨hlen, hnot⟩ := hnode members rfl
    have halternatives : members.flatMap alternatives = members.flatMap ([·]) :=
      List.flatMap_congr fun t ht => (ih t ht (hmembers t ht)).2 (hnot t ht)
    rw [alternatives, alternativesAll_eq_flatMap, halternatives, List.flatMap_singleton']
    refine ⟨?_, fun hu => absurd ⟨members, rfl⟩ hu⟩
    rcases members with _ | ⟨t, _ | ⟨u, us⟩⟩
    · simp at hlen
    · simp at hlen
    · rfl
  | tuple elements ih =>
    have helements := (everywhere_tuple_iff.1 h).2
    have hflat : elements.map flat = elements := by
      refine (List.map_congr_left fun t ht => ?_).trans (List.map_id elements)
      exact (ih t ht (helements t ht)).1.symm
    rw [alternatives, flatAll_eq_map, hflat]
    exact ⟨rfl, fun _ => rfl⟩

/-- An expression with flat unions is its own merged form. -/
theorem flat_of_flatUnions {t : TypeExpr} (h : t.FlatUnions) : t.flat = t := (alternatives_of_flatUnions h).1.symm

/-! ## Merged expressions -/

theorem everywhere_noInnerUnion_ofMembers {ts : List TypeExpr}
    (h : ∀ t ∈ ts, ¬t.IsUnion ∧ t.Everywhere NoInnerUnion) : (ofMembers ts).Everywhere NoInnerUnion := by
  have hunion : (union ts).Everywhere NoInnerUnion := by
    refine everywhere_union_iff.2 ⟨?_, fun t ht => (h t ht).2⟩
    intro members hmembers
    cases hmembers
    exact fun t ht => (h t ht).1
  rcases ts with _ | ⟨t, _ | ⟨u, us⟩⟩
  · exact hunion
  · exact (h t List.mem_cons_self).2
  · exact hunion

/-- No alternative of an expression is a union, and in none of them a union is a member of a union. -/
theorem noInnerUnion_of_mem_alternatives (t : TypeExpr) :
    ∀ s ∈ t.alternatives, ¬s.IsUnion ∧ s.Everywhere NoInnerUnion := by
  induction t using TypeExpr.induct with
  | ident name =>
    rw [alternatives, List.forall_mem_singleton]
    exact ⟨by rintro ⟨_, ⟨⟩⟩, everywhere_ident_iff.2 (by rintro _ ⟨⟩)⟩
  | generic base arg ih =>
    rw [alternatives, List.forall_mem_singleton]
    refine ⟨by rintro ⟨_, ⟨⟩⟩, everywhere_generic_iff.2 ⟨by rintro _ ⟨⟩, everywhere_noInnerUnion_ofMembers ih⟩⟩
  | union members ih =>
    rw [alternatives, alternativesAll_eq_flatMap]
    intro s hs
    obtain ⟨t, ht, hs⟩ := List.mem_flatMap.1 hs
    exact ih t ht s hs
  | tuple elements ih =>
    rw [alternatives, List.forall_mem_singleton, flatAll_eq_map]
    refine ⟨by rintro ⟨_, ⟨⟩⟩, everywhere_tuple_iff.2 ⟨by rintro _ ⟨⟩, ?_⟩⟩
    intro s hs
    obtain ⟨t, ht, rfl⟩ := List.mem_map.1 hs
    exact everywhere_noInnerUnion_ofMembers (ih t ht)

/-- In a merged expression no union is a member of a union. -/
theorem everywhere_noInnerUnion_flat (t : TypeExpr) : t.flat.Everywhere NoInnerUnion :=
  everywhere_noInnerUnion_ofMembers t.noInnerUnion_of_mem_alternatives

end TypeExpr

end ClassSchema
