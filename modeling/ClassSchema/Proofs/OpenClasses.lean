import ClassSchema.Proofs.Reference
import Mathlib.Data.List.Nodup
import Mathlib.Data.List.Perm.Subperm

/-!
# The classes that are open

What the classes that are open at some moment of an expansion have to do with each other (`Model.OpenStack`): they are distinct
registered classes, the root first, each referred to by the one before it, and there are no more of them than the limit and the
registry allow. A class that is come to along a trail of distinct classes may be opened as long as it is registered, is not
open and is not too deep (`Trail.openStack_push`).
-/

namespace ClassSchema

namespace Model

variable {m : Model} {options : ExpansionOptions}

/-- The classes that an expansion of a root may have open at one moment, outermost first. -/
structure OpenStack (m : Model) (options : ExpansionOptions) (root : String) (stack : List String) : Prop where
  nodup : stack.Nodup
  registered : ∀ name ∈ stack, m.classes.contains name = true
  /-- The first class is the root. -/
  head_eq : ∀ name ∈ stack.head?, name = root
  /-- Every class refers to the next. -/
  refers : stack.IsChain m.Refers
  length_le : stack.length ≤ min (options.maxDepth + 1) m.classes.classes.length

/-- Nothing is open before the root is. -/
theorem openStack_nil {root : String} : m.OpenStack options root [] :=
  ⟨.nil, by simp, by simp, .nil, by simp⟩

/-- The classes that a trail has left are registered. -/
theorem Trail.registered {root d : String} {active : List String} (h : m.Trail root active d) :
    ∀ name ∈ active, m.classes.contains name = true := by
  induction h with
  | start => simp
  | step _ hr ih =>
    intro name hname
    rcases List.mem_append.1 hname with hname | hname
    · exact ih name hname
    · obtain ⟨-, c, hc, -⟩ := hr
      rw [List.mem_singleton.1 hname]
      exact contains_iff_exists_get?.2 ⟨c, hc⟩

/-- A trail from a registered root leads to registered classes. -/
theorem Trail.contains {root d : String} {active : List String} (h : m.Trail root active d)
    (hroot : m.classes.contains root = true) : m.classes.contains d = true := by
  cases h with
  | start => exact hroot
  | step _ hr => exact hr.1

/-- Distinct registered classes are no more than all classes. -/
theorem length_le_of_registered {stack : List String} (hnodup : stack.Nodup)
    (hregistered : ∀ name ∈ stack, m.classes.contains name = true) : stack.length ≤ m.classes.classes.length := by
  have hsub : stack ⊆ m.classes.names := by
    intro name hname
    obtain ⟨c, hc⟩ := contains_iff_exists_get?.1 (hregistered name hname)
    exact mem_names_of_get? hc
  have hle := (hnodup.subperm hsub).length_le
  rwa [ClassRegistry.names, List.length_map] at hle

/-- A trail of distinct classes to a registered one that is not among them has left fewer than all classes. -/
theorem Trail.length_lt {root name : String} {active : List String} (h : m.Trail root active name)
    (hnodup : active.Nodup) (hc : m.classes.contains name = true) (hopen : name ∉ active) :
    active.length < m.classes.classes.length :=
  length_le_of_registered (List.nodup_cons.2 ⟨hopen, hnodup⟩) (List.forall_mem_cons.2 ⟨hc, h.registered⟩)

/-- A trail of distinct classes to one that is not among them and is registered: that one may be opened, if no more classes
are open than the limit allows. -/
theorem Trail.openStack_push {root name : String} {active : List String} (h : m.Trail root active name)
    (hnodup : active.Nodup) (hc : m.classes.contains name = true) (hopen : name ∉ active)
    (hdepth : active.length ≤ options.maxDepth) : m.OpenStack options root (active ++ [name]) := by
  refine ⟨?_, ?_, ?_, h.isChain.1, ?_⟩
  · rw [← List.concat_eq_append]
    exact hnodup.concat hopen
  · intro d hd
    rcases List.mem_append.1 hd with hd | hd
    · exact h.registered d hd
    · rw [List.mem_singleton.1 hd]
      exact hc
  · rw [h.isChain.2]
    intro d hd
    exact (Option.some.inj hd).symm
  · rw [List.length_append, List.length_singleton]
    exact Nat.le_min.2 ⟨Nat.succ_le_succ hdepth, h.length_lt hnodup hc hopen⟩

end Model

end ClassSchema
