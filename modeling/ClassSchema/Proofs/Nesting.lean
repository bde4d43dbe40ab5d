import ClassSchema.Proofs.Language
import ClassSchema.Proofs.Reference

/-!
# How far down an expression goes

How many generics and tuples are inside one another in an expression that is read, counted along the ways from its root to a
leaf (`TypeExpr.Branch`, `TypeExpr.levelsOn`). They are as many as the annotation has levels that the text writes
(`Alternation.levels_of_parse`).

The limit is on the cost of an annotation, and the cost does not bound the levels: the suffixes after a bracket are counted
from where the bracket stands, and what is inside the bracket is counted from there as well, but the levels of both add up. So
more levels than the limit can be read (`exists_parse_more_levels`). When they are within the limit is said by
`TypeExpr.levelsOn_of_parse`. They are always within a triangle whose side is the limit, and as many can be read
(`TypeExpr.exists_parse_triangle`).
-/

namespace ClassSchema

namespace TypeExpr

/-! ## Ways to a leaf -/

/-- A way from the root of an expression to a leaf: the expressions on it, the outermost first. -/
inductive Branch : TypeExpr → List TypeExpr → Prop where
  | ident (name : String) : Branch (.ident name) [.ident name]
  | generic {arg : TypeExpr} {path : List TypeExpr} (base : String) :
      Branch arg path → Branch (.generic base arg) (.generic base arg :: path)
  | union {members : List TypeExpr} {t : TypeExpr} {path : List TypeExpr} :
      t ∈ members → Branch t path → Branch (.union members) (.union members :: path)
  | emptyUnion : Branch (.union []) [.union []]
  | tuple {elements : List TypeExpr} {t : TypeExpr} {path : List TypeExpr} :
      t ∈ elements → Branch t path → Branch (.tuple elements) (.tuple elements :: path)
  | emptyTuple : Branch (.tuple []) [.tuple []]

/-- A generic or a tuple. -/
def isLevel : TypeExpr → Bool
  | generic .. | tuple _ => true
  | ident _ | union _ => false

/-- The number of generics and tuples on a way. -/
def levelsOn (path : List TypeExpr) : Nat := path.countP isLevel

mutual

/-- The levels of an expression: a generic and a tuple are one more than what is in them. -/
def levels : TypeExpr → Nat
  | ident _ => 0
  | generic _ arg => levels arg + 1
  | union members => levelsAll members
  | tuple elements => levelsAll elements + 1

/-- The levels of several expressions are those of the deepest. -/
def levelsAll : List TypeExpr → Nat
  | [] => 0
  | t :: ts => max (levels t) (levelsAll ts)

end

theorem levels_le_levelsAll {t : TypeExpr} {ts : List TypeExpr} (h : t ∈ ts) : t.levels ≤ levelsAll ts := by
  induction ts with
  | nil => nomatch h
  | cons u us ih =>
    rcases List.mem_cons.1 h with rfl | h
    · exact Nat.le_max_left _ _
    · exact (ih h).trans (Nat.le_max_right _ _)

/-- One of several expressions is the deepest. -/
theorem exists_levels_eq_levelsAll {ts : List TypeExpr} (hne : ts ≠ []) : ∃ t ∈ ts, t.levels = levelsAll ts := by
  induction ts with
  | nil => exact absurd rfl hne
  | cons t ts ih =>
    by_cases hle : levelsAll ts ≤ t.levels
    · exact ⟨t, List.mem_cons_self, (Nat.max_eq_left hle).symm⟩
    · have hne : ts ≠ [] := by
        rintro rfl
        exact hle (Nat.zero_le _)
      obtain ⟨u, hu, hlevels⟩ := ih hne
      exact ⟨u, List.mem_cons_of_mem t hu, hlevels.trans (Nat.max_eq_right (Nat.le_of_not_le hle)).symm⟩

/-- No way has more levels than the expression. -/
theorem Branch.levelsOn_le {t : TypeExpr} {path : List TypeExpr} (h : t.Branch path) : levelsOn path ≤ t.levels := by
  induction h with
  | ident name => exact Nat.le_refl 0
  | generic base _ ih =>
    rw [levels, levelsOn, List.countP_cons_of_pos rfl]
    exact Nat.succ_le_succ ih
  | union ht _ ih =>
    rw [levels, levelsOn, List.countP_cons_of_neg (by simp [isLevel])]
    exact ih.trans (levels_le_levelsAll ht)
  | emptyUnion => exact Nat.le_refl 0
  | tuple ht _ ih =>
    rw [levels, levelsOn, List.countP_cons_of_pos rfl]
    exact Nat.succ_le_succ (ih.trans (levels_le_levelsAll ht))
  | emptyTuple => exact Nat.le_refl 1

/-- Some way has all the levels of the expression. -/
theorem exists_branch_levels (t : TypeExpr) : ∃ path, t.Branch path ∧ levelsOn path = t.levels := by
  induction t using TypeExpr.induct with
  | ident name => exact ⟨_, .ident name, rfl⟩
  | generic base arg ih =>
    obtain ⟨path, hpath, hlevels⟩ := ih
    refine ⟨_, .generic base hpath, ?_⟩
    rw [levels, levelsOn, List.countP_cons_of_pos rfl, ← levelsOn, hlevels]
  | union members ih =>
    by_cases hne : members = []
    · subst hne
      exact ⟨_, .emptyUnion, rfl⟩
    · obtain ⟨t, ht, hdeepest⟩ := exists_levels_eq_levelsAll hne
      obtain ⟨path, hpath, hlevels⟩ := ih t ht
      refine ⟨_, .union ht hpath, ?_⟩
      rw [levels, levelsOn, List.countP_cons_of_neg (by simp [isLevel]), ← levelsOn, hlevels, hdeepest]
  | tuple elements ih =>
    by_cases hne : elements = []
    · subst hne
      exact ⟨_, .emptyTuple, rfl⟩
    · obtain ⟨t, ht, hdeepest⟩ := exists_levels_eq_levelsAll hne
      obtain ⟨path, hpath, hlevels⟩ := ih t ht
      refine ⟨_, .tuple ht hpath, ?_⟩
      rw [levels, levelsOn, List.countP_cons_of_pos rfl, ← levelsOn, hlevels, hdeepest]

/-- A bound on the levels of all ways is one on the levels of the expression. -/
theorem forall_levelsOn_le_iff {t : TypeExpr} {n : Nat} : (∀ path, t.Branch path → levelsOn path ≤ n) ↔ t.levels ≤ n := by
  constructor
  · intro h
    obtain ⟨path, hpath, hlevels⟩ := t.exists_branch_levels
    exact hlevels ▸ h path hpath
  · exact fun h path hpath => hpath.levelsOn_le.trans h

/-- Every list around an expression is one level more. -/
theorem levels_iterate_arrayOf (t : TypeExpr) (wraps : Nat) : (arrayOf^[wraps] t).levels = wraps + t.levels := by
  induction wraps with
  | zero => exact (Nat.zero_add _).symm
  | succ wraps ih => rw [Function.iterate_succ_apply', arrayOf, levels, ih, Nat.succ_add]

end TypeExpr

namespace Grammar

open TypeExpr (levelsAll)

/-! ## The levels of a tree -/

mutual

/-- The levels of an annotation are those of its deepest member. -/
def Alternation.levels : Alternation → Nat
  | .single m => m.levels
  | .alternative m rest => max m.levels rest.levels

/-- The levels of a member: a `?` is none, and each suffix is one around the levels of the primary. -/
def Member.levels : Member → Nat
  | .nullable inner => inner.levels
  | .plain p wraps => wraps + p.levels

/-- The levels of a primary: a bracket is one more than its deepest entry. -/
def Primary.levels : Primary → Nat
  | .name _ => 0
  | .empty _ _ => 1
  | .bracketed _ _ _ entries => entries.levels + 1

/-- The levels of entries are those of the deepest. -/
def Entries.levels : Entries → Nat
  | .single a => a.levels
  | .more a rest => max a.levels rest.levels

end

theorem levels_ofMembers (ts : List TypeExpr) : (ofMembers ts).levels = levelsAll ts := by
  rcases ts with _ | ⟨t, _ | ⟨u, us⟩⟩
  · rfl
  · exact (Nat.max_zero _).symm
  · rfl

theorem levels_ofEntries {base : String} {bracket : Bracket} {ts : List TypeExpr} {t : TypeExpr}
    (ht : ofEntries base bracket ts = some t) : t.levels = levelsAll ts + 1 := by
  cases bracket with
  | brace =>
    cases ht
    rfl
  | angle =>
    rcases ts with _ | ⟨arg, _ | ⟨_, _⟩⟩
    · nomatch ht
    · cases ht
      exact congrArg (· + 1) (Nat.max_zero _).symm
    · nomatch ht

mutual

/-- What an annotation stands for has the levels of the annotation. -/
theorem Alternation.levels_eq : (a : Alternation) → {ts : List TypeExpr} → a.members? = some ts → levelsAll ts = a.levels
  | .single m, ts, h => by
    obtain ⟨t, ht, rfl⟩ := Option.map_eq_some_iff.1 h
    exact (Nat.max_zero _).trans (m.levels_eq ht)
  | .alternative m rest, ts, h => by
    obtain ⟨t, ht, h⟩ := Option.bind_eq_some_iff.1 h
    obtain ⟨us, hus, rfl⟩ := Option.map_eq_some_iff.1 h
    exact congrArg₂ max (m.levels_eq ht) (rest.levels_eq hus)

/-- What a member stands for has the levels of the member. -/
theorem Member.levels_eq : (m : Member) → {t : TypeExpr} → m.expr? = some t → t.levels = m.levels
  | .nullable inner, t, h => by
    rw [Member.expr?_nullable] at h
    obtain ⟨s, hs, rfl⟩ := Option.map_eq_some_iff.1 h
    exact (Nat.max_zero _).trans (inner.levels_eq hs)
  | .plain p wraps, t, h => by
    rw [Member.expr?_plain] at h
    obtain ⟨s, hs, rfl⟩ := Option.map_eq_some_iff.1 h
    rw [TypeExpr.levels_iterate_arrayOf, p.levels_eq hs, Member.levels]

/-- What a primary stands for has the levels of the primary. -/
theorem Primary.levels_eq : (p : Primary) → {t : TypeExpr} → p.expr? = some t → t.levels = p.levels
  | .name n, t, h => by
    cases h
    rfl
  | .empty _ _, t, h => by
    cases h
    rfl
  | .bracketed _ _ _ entries, t, h => by
    obtain ⟨ts, hts, ht⟩ := Option.bind_eq_some_iff.1 h
    rw [levels_ofEntries ht, entries.levels_eq hts, Primary.levels]

/-- What entries stand for has the levels of the entries. -/
theorem Entries.levels_eq : (es : Entries) → {ts : List TypeExpr} → es.exprs? = some ts → levelsAll ts = es.levels
  | .single a, ts, h => by
    obtain ⟨us, hus, rfl⟩ := Option.map_eq_some_iff.1 h
    exact (Nat.max_zero _).trans ((levels_ofMembers us).trans (a.levels_eq hus))
  | .more a rest, ts, h => by
    obtain ⟨us, hus, h⟩ := Option.bind_eq_some_iff.1 h
    obtain ⟨vs, hvs, rfl⟩ := Option.map_eq_some_iff.1 h
    exact congrArg₂ max ((levels_ofMembers us).trans (a.levels_eq hus)) (rest.levels_eq hvs)

end

/-! ## Levels and cost -/

/-- The levels of a triangle: one at its tip, and at every level below as many as that level is from the tip. -/
def triangle (side : Nat) : Nat := side * (side + 1) / 2

theorem triangle_succ (side : Nat) : triangle (side + 1) = triangle side + (side + 1) := by
  unfold triangle
  have : (side + 1) * (side + 1 + 1) = side * (side + 1) + (side + 1) * 2 := by
    rw [Nat.mul_comm side, ← Nat.mul_add]
  rw [this, Nat.add_mul_div_right _ _ (by decide)]

theorem triangle_mono {m n : Nat} (h : m ≤ n) : triangle m ≤ triangle n :=
  Nat.div_le_div_right (Nat.mul_le_mul h (Nat.add_le_add_right h 1))

theorem le_triangle (side : Nat) : side ≤ triangle side := by
  induction side with
  | zero => exact Nat.le_refl 0
  | succ side ih =>
    rw [triangle_succ]
    omega

mutual

/-- The levels of an annotation are within the triangle of its cost. -/
theorem Alternation.levels_le : (a : Alternation) → a.levels ≤ triangle a.cost
  | .single m => m.levels_le
  | .alternative m rest =>
    Nat.max_le.2 ⟨m.levels_le.trans (triangle_mono (Nat.le_max_left _ _)),
      rest.levels_le.trans (triangle_mono (Nat.le_max_right _ _))⟩

/-- The levels of a member are within the triangle of its cost. -/
theorem Member.levels_le : (m : Member) → m.levels ≤ triangle m.cost
  | .nullable inner => inner.levels_le.trans (triangle_mono (Nat.le_add_left _ _))
  | .plain p wraps => by
    have hcost : 1 + wraps ≤ (Member.plain p wraps).cost := Nat.le_max_left _ _
    cases p with
    | name n =>
      have := le_triangle (Member.plain (.name n) wraps).cost
      rw [Member.levels, Primary.levels]
      omega
    | empty base opens =>
      have := le_triangle (Member.plain (.empty base opens) wraps).cost
      rw [Member.levels, Primary.levels]
      omega
    | bracketed base bracket opens entries =>
      -- The suffixes and the bracket are the lowest row of the triangle, and the entries are above it.
      have hentries : 1 + entries.cost ≤ (Member.plain (.bracketed base bracket opens entries) wraps).cost :=
        Nat.le_max_right _ _
      obtain ⟨side, hside⟩ : ∃ side, (Member.plain (.bracketed base bracket opens entries) wraps).cost = side + 1 :=
        ⟨_, (Nat.succ_pred_eq_of_pos (by omega)).symm⟩
      have hinside : entries.levels ≤ triangle side := entries.levels_le.trans (triangle_mono (by omega))
      rw [hside, triangle_succ, Member.levels, Primary.levels]
      omega

/-- The levels of entries are within the triangle of their cost. -/
theorem Entries.levels_le : (es : Entries) → es.levels ≤ triangle es.cost
  | .single a => a.levels_le
  | .more a rest =>
    Nat.max_le.2 ⟨a.levels_le.trans (triangle_mono (Nat.le_max_left _ _)),
      rest.levels_le.trans (triangle_mono (Nat.le_max_right _ _))⟩

end

mutual

/-- No suffix in an annotation follows entries in brackets. -/
def Alternation.Unsuffixed : Alternation → Prop
  | .single m => m.Unsuffixed
  | .alternative m rest => m.Unsuffixed ∧ rest.Unsuffixed

/-- No suffix in a member follows entries in brackets. -/
def Member.Unsuffixed : Member → Prop
  | .nullable inner => inner.Unsuffixed
  | .plain (.name _) _ => True
  | .plain (.empty _ _) _ => True
  | .plain (.bracketed _ _ _ entries) wraps => wraps = 0 ∧ entries.Unsuffixed

/-- No suffix in entries follows entries in brackets. -/
def Entries.Unsuffixed : Entries → Prop
  | .single a => a.Unsuffixed
  | .more a rest => a.Unsuffixed ∧ rest.Unsuffixed

end

mutual

/-- Where no suffix follows entries in brackets, an annotation costs at least its levels. -/
theorem Alternation.levels_le_cost : (a : Alternation) → a.Unsuffixed → a.levels ≤ a.cost
  | .single m, h => m.levels_le_cost h
  | .alternative m rest, h =>
    Nat.max_le.2 ⟨(m.levels_le_cost h.1).trans (Nat.le_max_left _ _),
      (rest.levels_le_cost h.2).trans (Nat.le_max_right _ _)⟩

/-- Where no suffix follows entries in brackets, a member costs at least its levels. -/
theorem Member.levels_le_cost : (m : Member) → m.Unsuffixed → m.levels ≤ m.cost
  | .nullable inner, h => (inner.levels_le_cost h).trans (Nat.le_add_left _ _)
  | .plain (.name _) wraps, _ => by
    rw [Member.levels, Member.cost, Primary.levels]
    omega
  | .plain (.empty _ _) wraps, _ => by
    rw [Member.levels, Member.cost, Primary.levels]
    omega
  | .plain (.bracketed _ _ _ entries) wraps, h => by
    obtain ⟨rfl, h⟩ := h
    have := entries.levels_le_cost h
    rw [Member.levels, Member.cost, Primary.levels, Primary.cost]
    omega

/-- Where no suffix follows entries in brackets, entries cost at least their levels. -/
theorem Entries.levels_le_cost : (es : Entries) → es.Unsuffixed → es.levels ≤ es.cost
  | .single a, h => a.levels_le_cost h
  | .more a rest, h =>
    Nat.max_le.2 ⟨(a.levels_le_cost h.1).trans (Nat.le_max_left _ _),
      (rest.levels_le_cost h.2).trans (Nat.le_max_right _ _)⟩

end

/-- What is read from a text has the levels of the annotation that the text writes, and that annotation is within the
limit. -/
theorem Alternation.levels_of_parse {a : Alternation} {text : String} (hwrites : a.Writes text) {t : TypeExpr}
    (h : TypeExpr.parse text = .ok t) : t.levels = a.levels ∧ a.cost ≤ maxNesting := by
  have hvalue : (a.value maxNesting 0).map ofMembers = .ok t := by
    rw [a.parse_eq hwrites] at h
    cases hv : (a.value maxNesting 0).map ofMembers with
    | error fault =>
      rw [hv] at h
      nomatch h
    | ok s =>
      rw [hv] at h
      exact congrArg Except.ok (Except.ok.inj h)
  obtain ⟨hexpr, hcost⟩ := Alternation.map_value_eq_ok_iff.1 hvalue
  obtain ⟨ts, hts, rfl⟩ := Option.map_eq_some_iff.1 hexpr
  exact ⟨(levels_ofMembers ts).trans (a.levels_eq hts), hcost⟩

/-! ## An annotation with all the levels of its triangle -/

/-- The name `array`. -/
def arrayWord : Name := ⟨'a', ['r', 'r', 'a', 'y'], by decide, by decide, by decide⟩

theorem arrayWord_opens (bracket : Bracket) : arrayWord.Opens bracket := fun _ => by decide

/-- The name `int`. -/
def intWord : Name := ⟨'i', ['n', 't'], by decide, by decide, by decide⟩

/-- A list of what a member stands for. -/
def listOf (m : Member) : Primary := .bracketed arrayWord .angle (arrayWord_opens .angle) (.single (.single m))

/-- A list of lists of integers. -/
def intLists : Primary := listOf (.plain (listOf (.plain (.name intWord) 0)) 0)

/-- A list of a list of a list, and so on, to an empty shape: at every place as many suffixes as the cost has room for. -/
def fullMember : Nat → Member
  | 0 => .plain (.empty arrayWord (arrayWord_opens .brace)) 0
  | side + 1 => .plain (listOf (fullMember side)) (side + 1)

theorem fullMember_cost (side : Nat) : (fullMember side).cost = side + 1 := by
  induction side with
  | zero => rfl
  | succ side ih =>
    rw [fullMember, Member.cost, listOf, Primary.cost, Entries.cost, Alternation.cost, ih]
    omega

/-- The lists have all the levels of the triangle. -/
theorem fullMember_levels (side : Nat) : (fullMember side).levels = triangle (side + 1) := by
  induction side with
  | zero => rfl
  | succ side ih =>
    rw [fullMember, Member.levels, listOf, Primary.levels, Entries.levels, Alternation.levels, ih, triangle_succ (side + 1)]
    omega

/-- The lists stand for an expression. -/
theorem exists_expr_fullMember (side : Nat) : ∃ t, (fullMember side).expr? = some t := by
  induction side with
  | zero => exact ⟨_, rfl⟩
  | succ side ih =>
    obtain ⟨t, ht⟩ := ih
    refine ⟨TypeExpr.arrayOf^[side + 1] (.generic arrayWord.text t), ?_⟩
    rw [fullMember, Member.expr?_plain, listOf, Primary.expr?, Entries.exprs?, Alternation.members?, ht]
    rfl

/-- Every tree has a text. -/
theorem exists_writes (a : Alternation) : ∃ text : String, a.Writes text := by
  suffices h : ∀ ts : List Token, Spells (ts.flatMap tokenText) ts by
    refine ⟨.ofList (a.tokens.flatMap tokenText), ?_⟩
    rw [Alternation.Writes, String.toList_ofList]
    exact h a.tokens
  intro ts
  induction ts with
  | nil => exact .nil (by simp)
  | cons t ts ih => exact ih.token_cons

end Grammar

open Grammar

/-- How many levels can be read. What is read from a text has no way with more levels than the limit exactly when the
annotation that the text writes has no more, as one has in which no suffix follows entries in brackets. In any case no way has
more levels than the triangle of the limit. -/
theorem TypeExpr.levelsOn_of_parse {a : Alternation} {text : String} {t : TypeExpr} (hwrites : a.Writes text)
    (h : TypeExpr.parse text = .ok t) :
    ((∀ path, t.Branch path → levelsOn path ≤ maxNesting) ↔ a.levels ≤ maxNesting) ∧
    (a.Unsuffixed → a.levels ≤ maxNesting) ∧
    ∀ path, t.Branch path → levelsOn path ≤ triangle maxNesting := by
  obtain ⟨hlevels, hcost⟩ := a.levels_of_parse hwrites h
  refine ⟨?_, ?_, ?_⟩
  · rw [forall_levelsOn_le_iff, hlevels]
  · exact fun hunsuffixed => (a.levels_le_cost hunsuffixed).trans hcost
  · rw [forall_levelsOn_le_iff, hlevels]
    exact a.levels_le.trans (triangle_mono hcost)

/-- The suffix of a list of lists is one level more, and all three are within the limit. -/
theorem TypeExpr.levelsOn_of_parse_intLists :
    (Alternation.single (.plain intLists 1)).Writes "array<array<int>>[]" ∧
      ∃ t, TypeExpr.parse "array<array<int>>[]" = .ok t ∧
        ∀ path, t.Branch path → TypeExpr.levelsOn path ≤ maxNesting := by
  have hwrites : (Alternation.single (.plain intLists 1)).Writes "array<array<int>>[]" :=
    (Alternation.writes_iff_scan _ _ 0).2 (by decide +kernel)
  have hparse := Alternation.parse_eq_ok hwrites rfl (by decide)
  exact ⟨hwrites, _, hparse, (TypeExpr.levelsOn_of_parse hwrites hparse).1.2 (by decide)⟩

/-- All the levels of the triangle can be read. -/
theorem TypeExpr.exists_parse_triangle :
    ∃ text t path, TypeExpr.parse text = .ok t ∧ t.Branch path ∧ levelsOn path = triangle maxNesting := by
  obtain ⟨t, ht⟩ := exists_expr_fullMember 63
  obtain ⟨text, hwrites⟩ := exists_writes (.single (fullMember 63))
  obtain ⟨path, hpath, hlevels⟩ := t.exists_branch_levels
  refine ⟨text, t, path, Alternation.parse_eq_ok hwrites ?_ ?_, hpath, ?_⟩
  · rw [Alternation.expr?, Alternation.members?, ht]
    rfl
  · rw [Alternation.cost, fullMember_cost]
    exact Nat.le_refl _
  · rw [hlevels, (fullMember 63).levels_eq ht, fullMember_levels]
    rfl

example : triangle maxNesting = 2080 := by decide

/-- Suffixes write themselves. -/
theorem spells_suffixes (wraps : Nat) : Spells (List.replicate wraps ['[', ']']).flatten (suffixTokens wraps) := by
  induction wraps with
  | zero => exact .nil (by simp)
  | succ wraps ih => exact (ih.token_cons (t := .mark ']')).token_cons (t := .mark '[')

/-- A list of a list with suffixes up to the limit. -/
def suffixedLists : String := .ofList ("array<array<int>>".toList ++ (List.replicate 63 ['[', ']']).flatten)

/-- More levels can be read than the limit. -/
theorem exists_parse_more_levels :
    ∃ t path, TypeExpr.parse suffixedLists = .ok t ∧ t.Branch path ∧ maxNesting < TypeExpr.levelsOn path := by
  have hlists : (Alternation.single (.plain intLists 0)).Writes "array<array<int>>" :=
    (Alternation.writes_iff_scan _ _ 0).2 (by decide +kernel)
  have htext : suffixedLists.toList = "array<array<int>>".toList ++ (List.replicate 63 ['[', ']']).flatten :=
    String.toList_ofList
  have hwrites : (Alternation.single (.plain intLists 63)).Writes suffixedLists := by
    have hspells := Spells.append hlists (spells_suffixes 63)
    rw [← htext, Alternation.tokens, Member.tokens, suffixTokens, List.append_nil] at hspells
    exact hspells
  have hparse := Alternation.parse_eq_ok hwrites rfl (by decide)
  obtain ⟨path, hpath, hlevels⟩ := TypeExpr.exists_branch_levels _
  refine ⟨_, path, hparse, hpath, ?_⟩
  rw [hlevels, (Alternation.levels_of_parse hwrites hparse).1]
  decide

end ClassSchema
