import ClassSchema.Json.Decoder
import Mathlib.Data.List.Induction
import Mathlib.Data.List.Nodup

/-!
# Pairs gathered under their names

Where the members of an object are gathered under their names, a name that is repeated keeps its first place and gets its
last value (`Decoder.gathered`). So the names of what is gathered are distinct (`nodup_gathered`), a pair is gathered exactly
if no later one has its name (`mem_gathered_iff`), and pairs with distinct names are all kept (`gathered_eq_self`).
-/

namespace ClassSchema

namespace Decoder

variable {α : Type} {name : String} {a : α} {p q : String × α} {pairs : List (String × α)}

/-! ## Putting a value -/

/-- A new name comes last. -/
theorem put_of_notMem (h : name ∉ pairs.map (·.1)) : put name a pairs = pairs ++ [(name, a)] := by
  induction pairs with
  | nil => rfl
  | cons p pairs ih =>
    rw [List.map_cons, List.mem_cons, not_or] at h
    rw [put, if_neg (Ne.symm h.1), ih h.2, List.cons_append]

/-- A name that has a value keeps its place. -/
theorem map_put_of_mem (h : name ∈ pairs.map (·.1)) : (put name a pairs).map (·.1) = pairs.map (·.1) := by
  induction pairs with
  | nil => nomatch h
  | cons p pairs ih =>
    rw [put]
    split
    · rfl
    · next hne =>
      rw [List.map_cons, List.mem_cons] at h
      rw [List.map_cons, List.map_cons, ih (h.resolve_left (Ne.symm hne))]

/-- Putting keeps names distinct. -/
theorem nodup_put (h : (pairs.map (·.1)).Nodup) : ((put name a pairs).map (·.1)).Nodup := by
  by_cases hmem : name ∈ pairs.map (·.1)
  · rw [map_put_of_mem hmem]
    exact h
  · rw [put_of_notMem hmem, List.map_append, List.map_singleton]
    rw [← List.concat_eq_append, List.nodup_concat]
    exact ⟨hmem, h⟩

/-- Where names are distinct, a name has the value that was put, and other names have theirs. -/
theorem mem_put_iff (h : (pairs.map (·.1)).Nodup) :
    p ∈ put name a pairs ↔ p = (name, a) ∨ p.1 ≠ name ∧ p ∈ pairs := by
  induction pairs with
  | nil => simp [put]
  | cons q pairs ih =>
    rw [List.map_cons, List.nodup_cons] at h
    rw [put]
    split
    · next heq =>
      subst heq
      -- The name stands here, so it stands nowhere behind.
      have hother : ∀ p ∈ pairs, p.1 ≠ q.1 := fun p hp heq => h.1 (heq ▸ List.mem_map_of_mem hp)
      constructor
      · intro hp
        rcases List.mem_cons.1 hp with rfl | hp
        · exact Or.inl rfl
        · exact Or.inr ⟨hother p hp, List.mem_cons_of_mem q hp⟩
      · rintro (rfl | ⟨hne, hp⟩)
        · exact List.mem_cons_self
        · rcases List.mem_cons.1 hp with rfl | hp
          · exact absurd rfl hne
          · exact List.mem_cons_of_mem _ hp
    · next hne =>
      rw [List.mem_cons, List.mem_cons, ih h.2]
      constructor
      · rintro (rfl | rfl | ⟨hother, hp⟩)
        · exact Or.inr ⟨hne, Or.inl rfl⟩
        · exact Or.inl rfl
        · exact Or.inr ⟨hother, Or.inr hp⟩
      · rintro (rfl | ⟨hother, rfl | hp⟩)
        · exact Or.inr (Or.inl rfl)
        · exact Or.inl rfl
        · exact Or.inr (Or.inr ⟨hother, hp⟩)

/-! ## Gathering pairs -/

/-- What is gathered of pairs: a name that is repeated keeps its first place and gets its last value. -/
def gathered (pairs : List (String × α)) : List (String × α) := pairs.foldl (fun s p => put p.1 p.2 s) []

/-- The last pair is put to what is gathered of those before it. -/
theorem gathered_concat (pairs : List (String × α)) (p : String × α) :
    gathered (pairs ++ [p]) = put p.1 p.2 (gathered pairs) := by
  rw [gathered, List.foldl_concat, gathered]

theorem nodup_gathered (pairs : List (String × α)) : ((gathered pairs).map (·.1)).Nodup := by
  induction pairs using List.reverseRecOn with
  | nil => exact List.nodup_nil
  | append_singleton pairs p ih =>
    rw [gathered_concat]
    exact nodup_put ih

/-- No name is lost. -/
theorem mem_map_gathered_iff : name ∈ (gathered pairs).map (·.1) ↔ name ∈ pairs.map (·.1) := by
  induction pairs using List.reverseRecOn with
  | nil => rfl
  | append_singleton pairs p ih =>
    rw [gathered_concat, List.map_append, List.mem_append, ← ih, List.map_singleton, List.mem_singleton]
    by_cases hmem : p.1 ∈ (gathered pairs).map (·.1)
    · rw [map_put_of_mem hmem]
      exact ⟨Or.inl, fun h => h.elim id fun heq => heq ▸ hmem⟩
    · rw [put_of_notMem hmem, List.map_append, List.mem_append, List.map_singleton, List.mem_singleton]

/-- A pair is the last one of its name. -/
def IsLast (p : String × α) (pairs : List (String × α)) : Prop :=
  ∃ before after, pairs = before ++ p :: after ∧ p.1 ∉ after.map (·.1)

/-- Another pair after the others is the last one of its name, and of no other. -/
theorem isLast_concat_iff : IsLast p (pairs ++ [q]) ↔ p = q ∨ p.1 ≠ q.1 ∧ IsLast p pairs := by
  constructor
  · rintro ⟨before, after, heq, hafter⟩
    rcases List.eq_nil_or_concat after with rfl | ⟨after, r, rfl⟩
    · exact Or.inl (List.append_singleton_inj.1 heq).2.symm
    · rw [List.concat_eq_append, List.map_append, List.mem_append, not_or] at hafter
      rw [List.concat_eq_append, ← List.cons_append, ← List.append_assoc] at heq
      obtain ⟨rfl, rfl⟩ := List.append_singleton_inj.1 heq
      exact Or.inr ⟨List.ne_of_not_mem_cons hafter.2, before, after, rfl, hafter.1⟩
  · rintro (rfl | ⟨hne, before, after, rfl, hafter⟩)
    · exact ⟨pairs, [], rfl, List.not_mem_nil⟩
    · refine ⟨before, after ++ [q], by rw [List.append_assoc, List.cons_append], ?_⟩
      rw [List.map_append, List.mem_append, not_or]
      exact ⟨hafter, List.not_mem_cons_of_ne_of_not_mem hne List.not_mem_nil⟩

/-- A pair is gathered if it is the last one of its name. -/
theorem mem_gathered_iff : p ∈ gathered pairs ↔ IsLast p pairs := by
  induction pairs using List.reverseRecOn with
  | nil => exact iff_of_false nofun (by rintro ⟨before, after, h, -⟩; simp at h)
  | append_singleton pairs q ih =>
    rw [gathered_concat, mem_put_iff (nodup_gathered pairs), ih, isLast_concat_iff]

/-- Pairs with distinct names are gathered as they are. -/
theorem gathered_eq_self (h : (pairs.map (·.1)).Nodup) : gathered pairs = pairs := by
  induction pairs using List.reverseRecOn with
  | nil => rfl
  | append_singleton pairs p ih =>
    rw [List.map_append, List.map_singleton, ← List.concat_eq_append, List.nodup_concat] at h
    rw [gathered_concat, ih h.2, put_of_notMem h.1]

end Decoder

end ClassSchema
