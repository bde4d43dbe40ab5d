import ClassSchema.Proofs.Grammar

/-!
# The value of a tree at a depth

What a tree of the grammar yields when it is read from left to right inside a number of open members: its expression, or the
first fault (`Alternation.value`). A member that begins too deep is a fault, a suffix too many is one, and so is a generic
with several arguments, when its bracket closes.

A tree has an expression as its value exactly when it stands for that expression and its cost, on top of the depth, is
within the limit (`Alternation.value_eq_ok_iff`). A tree that stands for an expression has no fault but the depth
(`Alternation.value_error`).
-/

namespace ClassSchema

namespace Grammar

variable {α β : Type}

/-! ## Results one after the other -/

/-- One result after another is a value only if both are. -/
theorem bind_eq_ok_iff {x : Except Fault α} {f : α → Except Fault β} {b : β} :
    x >>= f = .ok b ↔ ∃ a, x = .ok a ∧ f a = .ok b := by
  cases x <;> simp [bind, Except.bind]

/-- One result after another is a fault if the first is, or if the first is a value and the second a fault. -/
theorem bind_eq_error_iff {x : Except Fault α} {f : α → Except Fault β} {fault : Fault} :
    x >>= f = .error fault ↔ x = .error fault ∨ ∃ a, x = .ok a ∧ f a = .error fault := by
  cases x <;> simp [bind, Except.bind]

/-! ## Values -/

/-- A member may begin at a depth below the limit. -/
def begin (limit depth : Nat) : Except Fault Unit := if limit ≤ depth then .error (.tooDeep limit) else .ok ()

/-- Suffixes may follow as long as they and the depth stay below the limit. -/
def suffixed (limit depth wraps : Nat) (t : TypeExpr) : Except Fault TypeExpr :=
  if wraps = 0 ∨ depth + wraps < limit then .ok (TypeExpr.arrayOf^[wraps] t) else .error (.tooDeep limit)

mutual

/-- The values of the members of an annotation. -/
def Alternation.value (limit depth : Nat) : Alternation → Except Fault (List TypeExpr)
  | .single m => m.value limit depth >>= fun t => pure [t]
  | .alternative m rest => m.value limit depth >>= fun t => rest.value limit depth >>= fun ts => pure (t :: ts)

/-- The value of a member. -/
def Member.value (limit depth : Nat) : Member → Except Fault TypeExpr
  | .nullable inner => begin limit depth >>= fun _ => inner.value limit (depth + 1) >>= fun t => pure t.nullable
  | .plain p wraps => p.value limit depth >>= suffixed limit depth wraps

/-- The value of a primary. -/
def Primary.value (limit depth : Nat) : Primary → Except Fault TypeExpr
  | .name n => begin limit depth >>= fun _ => pure (.ident n.text)
  | .empty _ _ => begin limit depth >>= fun _ => pure (.tuple [])
  | .bracketed base bracket _ entries =>
    begin limit depth >>= fun _ => entries.value limit (depth + 1) >>= closeEntries base.text bracket

/-- The values of entries. -/
def Entries.value (limit depth : Nat) : Entries → Except Fault (List TypeExpr)
  | .single a => a.value limit depth >>= fun ts => pure [ofMembers ts]
  | .more a rest => a.value limit depth >>= fun ts => rest.value limit depth >>= fun es => pure (ofMembers ts :: es)

end

/-! ## A tree that is not too deep -/

theorem begin_eq_ok_iff {limit depth : Nat} {u : Unit} : begin limit depth = .ok u ↔ depth < limit := by
  unfold begin
  split <;> simp <;> omega

/-- What begins with nothing inside it has its value exactly when it may begin. -/
theorem begin_pure_eq_ok_iff {limit depth : Nat} {s t : TypeExpr} :
    (begin limit depth >>= fun _ => pure s) = .ok t ↔ s = t ∧ depth < limit := by
  unfold begin
  by_cases h : limit ≤ depth
  · rw [if_pos h]
    simp [bind, Except.bind, h]
  · rw [if_neg h]
    simp [bind, Except.bind, pure, Except.pure, Nat.lt_of_not_le h]

theorem begin_eq_error {limit depth : Nat} {fault : Fault} (h : begin limit depth = .error fault) :
    fault = .tooDeep limit := by
  unfold begin at h
  split at h
  · exact (Except.error.inj h).symm
  · nomatch h

/-- Suffixes may follow exactly when there are none or they and the depth stay below the limit. -/
theorem suffixed_eq_ok_iff {limit depth wraps : Nat} {s t : TypeExpr} :
    suffixed limit depth wraps s = .ok t ↔
      (wraps = 0 ∨ depth + wraps < limit) ∧ TypeExpr.arrayOf^[wraps] s = t := by
  unfold suffixed
  split
  · rename_i h
    simp [h]
  · rename_i h
    simp [h]

/-- The bracket closes when it has an expression. -/
theorem closeEntries_eq_ok_iff {base : String} {bracket : Bracket} {es : List TypeExpr} {t : TypeExpr} :
    closeEntries base bracket es = .ok t ↔ ofEntries base bracket es = some t := by
  rcases bracket with _ | _ <;> rcases es with _ | ⟨e, _ | ⟨e', es⟩⟩ <;> simp [closeEntries, ofEntries]

/-- The members of a union make the same expression for the machine and for a tree. -/
theorem unionOf_eq_ofMembers (before : List TypeExpr) (last : TypeExpr) :
    unionOf before last = ofMembers (before ++ [last]) := by
  rcases before with _ | ⟨first, _ | ⟨second, before⟩⟩ <;> rfl

/-- Nothing costs less than a name. -/
theorem Primary.one_le_cost (p : Primary) : 1 ≤ p.cost := by
  cases p <;> simp [Primary.cost]

mutual

/-- Every member of an annotation costs at least as much as a name. -/
theorem Alternation.one_le_cost : (a : Alternation) → 1 ≤ a.cost
  | .single m => m.one_le_cost
  | .alternative m _ => Nat.le_trans m.one_le_cost (Nat.le_max_left _ _)

/-- A member costs at least as much as a name. -/
theorem Member.one_le_cost : (m : Member) → 1 ≤ m.cost
  | .nullable inner => by
    have := inner.one_le_cost
    rw [Member.cost]
    omega
  | .plain p _ => Nat.le_trans p.one_le_cost (Nat.le_max_right _ _)

end

/-- Entries cost at least as much as a name. -/
theorem Entries.one_le_cost (es : Entries) : 1 ≤ es.cost := by
  cases es with
  | single a => exact a.one_le_cost
  | more a rest => exact Nat.le_trans a.one_le_cost (Nat.le_max_left _ _)

variable {limit depth : Nat}

/-- The costlier of two parts is within the limit exactly when both are. -/
theorem add_max_le_iff {a b : Nat} : depth + max a b ≤ limit ↔ depth + a ≤ limit ∧ depth + b ≤ limit := by
  omega

/-- What is inside a member is within the limit exactly when the member is. -/
theorem inside_le_iff (limit depth : Nat) {cost : Nat} (h : 1 ≤ cost) :
    depth + (1 + cost) ≤ limit ↔ depth < limit ∧ depth + 1 + cost ≤ limit := by
  omega

mutual

/-- The members of an annotation have values exactly when they stand for them and none is too deep. -/
theorem Alternation.value_eq_ok_iff : (a : Alternation) → {depth : Nat} → {ts : List TypeExpr} →
    (a.value limit depth = .ok ts ↔ a.members? = some ts ∧ depth + a.cost ≤ limit)
  | .single m, depth, ts => by
    constructor
    · intro h
      obtain ⟨t, ht, hts⟩ := bind_eq_ok_iff.1 h
      obtain ⟨hm, hcost⟩ := m.value_eq_ok_iff.1 ht
      exact ⟨Option.map_eq_some_iff.2 ⟨t, hm, Except.ok.inj hts⟩, hcost⟩
    · rintro ⟨hmembers, hcost⟩
      obtain ⟨t, hm, rfl⟩ := Option.map_eq_some_iff.1 hmembers
      exact bind_eq_ok_iff.2 ⟨t, m.value_eq_ok_iff.2 ⟨hm, hcost⟩, rfl⟩
  | .alternative m rest, depth, ts => by
    constructor
    · intro h
      obtain ⟨t, ht, h⟩ := bind_eq_ok_iff.1 h
      obtain ⟨us, hus, hts⟩ := bind_eq_ok_iff.1 h
      obtain ⟨hm, hcost⟩ := m.value_eq_ok_iff.1 ht
      obtain ⟨hrest, hcosts⟩ := rest.value_eq_ok_iff.1 hus
      refine ⟨Option.bind_eq_some_iff.2 ⟨t, hm, ?_⟩, add_max_le_iff.2 ⟨hcost, hcosts⟩⟩
      exact Option.map_eq_some_iff.2 ⟨us, hrest, Except.ok.inj hts⟩
    · rintro ⟨hmembers, hcost⟩
      obtain ⟨t, hm, hmembers⟩ := Option.bind_eq_some_iff.1 hmembers
      obtain ⟨us, hrest, rfl⟩ := Option.map_eq_some_iff.1 hmembers
      refine bind_eq_ok_iff.2 ⟨t, m.value_eq_ok_iff.2 ⟨hm, (add_max_le_iff.1 hcost).1⟩, ?_⟩
      exact bind_eq_ok_iff.2 ⟨us, rest.value_eq_ok_iff.2 ⟨hrest, (add_max_le_iff.1 hcost).2⟩, rfl⟩

/-- A member has a value exactly when it stands for it and is not too deep. -/
theorem Member.value_eq_ok_iff : (m : Member) → {depth : Nat} → {t : TypeExpr} →
    (m.value limit depth = .ok t ↔ m.expr? = some t ∧ depth + m.cost ≤ limit)
  | .nullable inner, depth, t => by
    rw [Member.expr?_nullable]
    have hsucc := inside_le_iff limit depth inner.one_le_cost
    constructor
    · intro h
      obtain ⟨_, hbegin, h⟩ := bind_eq_ok_iff.1 h
      obtain ⟨s, hs, ht⟩ := bind_eq_ok_iff.1 h
      obtain ⟨hinner, hcost⟩ := inner.value_eq_ok_iff.1 hs
      exact ⟨Option.map_eq_some_iff.2 ⟨s, hinner, Except.ok.inj ht⟩, hsucc.2 ⟨begin_eq_ok_iff.1 hbegin, hcost⟩⟩
    · rintro ⟨hexpr, hcost⟩
      obtain ⟨s, hinner, rfl⟩ := Option.map_eq_some_iff.1 hexpr
      refine bind_eq_ok_iff.2 ⟨(), begin_eq_ok_iff.2 (hsucc.1 hcost).1, ?_⟩
      exact bind_eq_ok_iff.2 ⟨s, inner.value_eq_ok_iff.2 ⟨hinner, (hsucc.1 hcost).2⟩, rfl⟩
  | .plain p wraps, depth, t => by
    rw [Member.expr?_plain]
    have hone := p.one_le_cost
    have hmax : depth + max (1 + wraps) p.cost ≤ limit ↔
        depth + p.cost ≤ limit ∧ (wraps = 0 ∨ depth + wraps < limit) := by omega
    constructor
    · intro h
      obtain ⟨s, hs, ht⟩ := bind_eq_ok_iff.1 h
      obtain ⟨hp, hcost⟩ := p.value_eq_ok_iff.1 hs
      obtain ⟨hwraps, ht⟩ := suffixed_eq_ok_iff.1 ht
      exact ⟨Option.map_eq_some_iff.2 ⟨s, hp, ht⟩, hmax.2 ⟨hcost, hwraps⟩⟩
    · rintro ⟨hexpr, hcost⟩
      obtain ⟨s, hp, ht⟩ := Option.map_eq_some_iff.1 hexpr
      refine bind_eq_ok_iff.2 ⟨s, p.value_eq_ok_iff.2 ⟨hp, (hmax.1 hcost).1⟩, ?_⟩
      exact suffixed_eq_ok_iff.2 ⟨(hmax.1 hcost).2, ht⟩

/-- A primary has a value exactly when it stands for it and is not too deep. -/
theorem Primary.value_eq_ok_iff : (p : Primary) → {depth : Nat} → {t : TypeExpr} →
    (p.value limit depth = .ok t ↔ p.expr? = some t ∧ depth + p.cost ≤ limit)
  | .name n, depth, t => by
    rw [Primary.value, begin_pure_eq_ok_iff, Primary.expr?, Option.some.injEq]
    rfl
  | .empty base opens, depth, t => by
    rw [Primary.value, begin_pure_eq_ok_iff, Primary.expr?, Option.some.injEq]
    rfl
  | .bracketed base bracket opens entries, depth, t => by
    have hsucc := inside_le_iff limit depth entries.one_le_cost
    constructor
    · intro h
      obtain ⟨_, hbegin, h⟩ := bind_eq_ok_iff.1 h
      obtain ⟨es, hes, ht⟩ := bind_eq_ok_iff.1 h
      obtain ⟨hentries, hcost⟩ := entries.value_eq_ok_iff.1 hes
      refine ⟨Option.bind_eq_some_iff.2 ⟨es, hentries, closeEntries_eq_ok_iff.1 ht⟩, ?_⟩
      exact hsucc.2 ⟨begin_eq_ok_iff.1 hbegin, hcost⟩
    · rintro ⟨hexpr, hcost⟩
      obtain ⟨es, hentries, ht⟩ := Option.bind_eq_some_iff.1 hexpr
      refine bind_eq_ok_iff.2 ⟨(), begin_eq_ok_iff.2 (hsucc.1 hcost).1, ?_⟩
      refine bind_eq_ok_iff.2 ⟨es, entries.value_eq_ok_iff.2 ⟨hentries, (hsucc.1 hcost).2⟩, ?_⟩
      exact closeEntries_eq_ok_iff.2 ht

/-- Entries have values exactly when they stand for them and none is too deep. -/
theorem Entries.value_eq_ok_iff : (es : Entries) → {depth : Nat} → {ts : List TypeExpr} →
    (es.value limit depth = .ok ts ↔ es.exprs? = some ts ∧ depth + es.cost ≤ limit)
  | .single a, depth, ts => by
    constructor
    · intro h
      obtain ⟨us, hus, hts⟩ := bind_eq_ok_iff.1 h
      obtain ⟨ha, hcost⟩ := a.value_eq_ok_iff.1 hus
      exact ⟨Option.map_eq_some_iff.2 ⟨us, ha, Except.ok.inj hts⟩, hcost⟩
    · rintro ⟨hexprs, hcost⟩
      obtain ⟨us, ha, rfl⟩ := Option.map_eq_some_iff.1 hexprs
      exact bind_eq_ok_iff.2 ⟨us, a.value_eq_ok_iff.2 ⟨ha, hcost⟩, rfl⟩
  | .more a rest, depth, ts => by
    constructor
    · intro h
      obtain ⟨us, hus, h⟩ := bind_eq_ok_iff.1 h
      obtain ⟨es, hes, hts⟩ := bind_eq_ok_iff.1 h
      obtain ⟨ha, hcost⟩ := a.value_eq_ok_iff.1 hus
      obtain ⟨hrest, hcosts⟩ := rest.value_eq_ok_iff.1 hes
      refine ⟨Option.bind_eq_some_iff.2 ⟨us, ha, ?_⟩, add_max_le_iff.2 ⟨hcost, hcosts⟩⟩
      exact Option.map_eq_some_iff.2 ⟨es, hrest, Except.ok.inj hts⟩
    · rintro ⟨hexprs, hcost⟩
      obtain ⟨us, ha, hexprs⟩ := Option.bind_eq_some_iff.1 hexprs
      obtain ⟨es, hrest, rfl⟩ := Option.map_eq_some_iff.1 hexprs
      refine bind_eq_ok_iff.2 ⟨us, a.value_eq_ok_iff.2 ⟨ha, (add_max_le_iff.1 hcost).1⟩, ?_⟩
      exact bind_eq_ok_iff.2 ⟨es, rest.value_eq_ok_iff.2 ⟨hrest, (add_max_le_iff.1 hcost).2⟩, rfl⟩

end

/-! ## A tree that is too deep -/

/-- What is done with a value is no fault. -/
theorem bind_pure_eq_error {x : Except Fault α} {f : α → β} {fault : Fault}
    (h : (x >>= fun a => pure (f a)) = .error fault) : x = .error fault := by
  rcases bind_eq_error_iff.1 h with h | ⟨a, -, h⟩
  · exact h
  · nomatch h

/-- Suffixes have no fault but the depth. -/
theorem suffixed_eq_error {wraps : Nat} {t : TypeExpr} {fault : Fault}
    (h : suffixed limit depth wraps t = .error fault) : fault = .tooDeep limit := by
  unfold suffixed at h
  split at h
  · nomatch h
  · exact (Except.error.inj h).symm

mutual

/-- Members that stand for expressions have no fault but the depth. -/
theorem Alternation.value_error : (a : Alternation) → {depth : Nat} → {ts : List TypeExpr} → {fault : Fault} →
    a.members? = some ts → a.value limit depth = .error fault → fault = .tooDeep limit
  | .single m, depth, ts, fault, hm, h => by
    obtain ⟨t, ht, -⟩ := Option.map_eq_some_iff.1 hm
    exact m.value_error ht (bind_pure_eq_error h)
  | .alternative m rest, depth, ts, fault, hm, h => by
    obtain ⟨t, ht, hm⟩ := Option.bind_eq_some_iff.1 hm
    obtain ⟨us, hus, -⟩ := Option.map_eq_some_iff.1 hm
    rcases bind_eq_error_iff.1 h with h | ⟨_, -, h⟩
    · exact m.value_error ht h
    · exact rest.value_error hus (bind_pure_eq_error h)

/-- A member that stands for an expression has no fault but the depth. -/
theorem Member.value_error : (m : Member) → {depth : Nat} → {t : TypeExpr} → {fault : Fault} →
    m.expr? = some t → m.value limit depth = .error fault → fault = .tooDeep limit
  | .nullable inner, depth, t, fault, hm, h => by
    obtain ⟨s, hs, -⟩ := Option.map_eq_some_iff.1 hm
    rcases bind_eq_error_iff.1 h with h | ⟨_, -, h⟩
    · exact begin_eq_error h
    · exact inner.value_error hs (bind_pure_eq_error h)
  | .plain p wraps, depth, t, fault, hm, h => by
    obtain ⟨s, hs, -⟩ := Option.map_eq_some_iff.1 hm
    rcases bind_eq_error_iff.1 h with h | ⟨_, -, h⟩
    · exact p.value_error hs h
    · exact suffixed_eq_error h

/-- A primary that stands for an expression has no fault but the depth. -/
theorem Primary.value_error : (p : Primary) → {depth : Nat} → {t : TypeExpr} → {fault : Fault} →
    p.expr? = some t → p.value limit depth = .error fault → fault = .tooDeep limit
  | .name _, depth, t, fault, _, h => begin_eq_error (bind_pure_eq_error h)
  | .empty _ _, depth, t, fault, _, h => begin_eq_error (bind_pure_eq_error h)
  | .bracketed base bracket opens entries, depth, t, fault, hp, h => by
    obtain ⟨es, hes, ht⟩ := Option.bind_eq_some_iff.1 hp
    rcases bind_eq_error_iff.1 h with h | ⟨_, -, h⟩
    · exact begin_eq_error h
    · rcases bind_eq_error_iff.1 h with h | ⟨es', hes', h⟩
      · exact entries.value_error hes h
      · -- The entries that were read are those the tree stands for, and with them the bracket closes.
        obtain rfl : es = es' := Option.some.inj (hes.symm.trans (entries.value_eq_ok_iff.1 hes').1)
        rw [closeEntries_eq_ok_iff.2 ht] at h
        nomatch h

/-- Entries that stand for expressions have no fault but the depth. -/
theorem Entries.value_error : (es : Entries) → {depth : Nat} → {ts : List TypeExpr} → {fault : Fault} →
    es.exprs? = some ts → es.value limit depth = .error fault → fault = .tooDeep limit
  | .single a, depth, ts, fault, hes, h => by
    obtain ⟨us, hus, -⟩ := Option.map_eq_some_iff.1 hes
    exact a.value_error hus (bind_pure_eq_error h)
  | .more a rest, depth, ts, fault, hes, h => by
    obtain ⟨us, hus, hes⟩ := Option.bind_eq_some_iff.1 hes
    obtain ⟨vs, hvs, -⟩ := Option.map_eq_some_iff.1 hes
    rcases bind_eq_error_iff.1 h with h | ⟨_, -, h⟩
    · exact a.value_error hus h
    · exact rest.value_error hvs (bind_pure_eq_error h)

end

end Grammar

end ClassSchema
