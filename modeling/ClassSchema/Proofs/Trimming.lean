import ClassSchema.DocComment
import Mathlib.Data.List.TakeWhile
import Mathlib.Data.Nat.Init

/-!
# Trimming the body of a tag

From the body of a tag are taken the blanks at its end, then all comment ends `*/` that it ends with, and then the blanks at both
ends of what is left. Each step is described by the text alone: what is taken, and that no more of it can be taken (`EndTrimmed`,
`Unclosed`, `Stripped`). These descriptions leave one text for every body, and it is the one that is scanned for a type
(`trimmed_iff`).
-/

namespace ClassSchema

namespace DocComment

variable {cs kept core rest r : List Char}

/-! ## Blanks -/

/-- A text without the blanks at its end. -/
structure EndTrimmed (cs kept : List Char) : Prop where
  text : ∃ blanks, cs = kept ++ blanks ∧ ∀ c ∈ blanks, isBlank c = true
  last : ∀ c ∈ kept.getLast?, isBlank c = false

/-- A text without the blanks at both ends. -/
structure Stripped (cs kept : List Char) : Prop where
  text : ∃ left right, cs = left ++ kept ++ right ∧ (∀ c ∈ left, isBlank c = true) ∧ ∀ c ∈ right, isBlank c = true
  head : ∀ c ∈ kept.head?, isBlank c = false
  last : ∀ c ∈ kept.getLast?, isBlank c = false

/-- No blanks are dropped where there are none. -/
theorem dropWhile_isBlank_eq_self (hhead : ∀ c ∈ cs.head?, isBlank c = false) : cs.dropWhile isBlank = cs := by
  cases cs with
  | nil => rfl
  | cons c cs => exact List.dropWhile_cons_of_neg (by simp [hhead c rfl])

/-- Only the end of a text is trimmed at its end. -/
theorem trimEnd_isPrefix (cs : List Char) : trimEnd cs <+: cs := by
  have := (List.dropWhile_suffix (l := cs.reverse) isBlank).reverse
  rwa [List.reverse_reverse] at this

/-- Blanks are dropped at the end of a text up to a character that is none. -/
theorem trimEnd_append (hlast : ∀ c ∈ core.getLast?, isBlank c = false) (cs : List Char) :
    trimEnd (core ++ cs) = core ++ trimEnd cs := by
  have hhead : core.reverse.dropWhile isBlank = core.reverse :=
    dropWhile_isBlank_eq_self (by rwa [List.head?_reverse])
  unfold trimEnd
  rw [List.reverse_append, List.dropWhile_append]
  split
  · rename_i hempty
    rw [hhead, List.isEmpty_iff.1 hempty, List.reverse_reverse, List.reverse_nil, List.append_nil]
  · rw [List.reverse_append, List.reverse_reverse]

theorem trimEnd_blanks (h : ∀ c ∈ cs, isBlank c = true) : trimEnd cs = [] := by
  unfold trimEnd
  rw [List.dropWhile_eq_nil_iff.2 fun c hc => h c (List.mem_reverse.1 hc), List.reverse_nil]

theorem endTrimmed_trimEnd (cs : List Char) : EndTrimmed cs (trimEnd cs) where
  text := by
    refine ⟨(cs.reverse.takeWhile isBlank).reverse, ?_, fun c hc => List.mem_takeWhile_imp (List.mem_reverse.1 hc)⟩
    rw [trimEnd, ← List.reverse_append, List.takeWhile_append_dropWhile, List.reverse_reverse]
  last := by
    intro c hc
    rw [trimEnd, List.getLast?_reverse] at hc
    exact eq_false_of_mem_head?_dropWhile hc

theorem EndTrimmed.eq_trimEnd (h : EndTrimmed cs kept) : kept = trimEnd cs := by
  obtain ⟨⟨blanks, rfl, hblanks⟩, hlast⟩ := h
  rw [trimEnd_append hlast, trimEnd_blanks hblanks, List.append_nil]

theorem stripped_trim (cs : List Char) : Stripped cs (trim cs) := by
  obtain ⟨⟨right, htext, hright⟩, hlast⟩ := endTrimmed_trimEnd (cs.dropWhile isBlank)
  refine ⟨⟨cs.takeWhile isBlank, right, ?_, fun c hc => List.mem_takeWhile_imp hc, hright⟩, ?_, hlast⟩
  · rw [trim, List.append_assoc, ← htext, List.takeWhile_append_dropWhile]
  · intro c hc
    have hfirst : c ∈ (cs.dropWhile isBlank).head? := by
      rw [htext, List.head?_append, ← trim, Option.mem_def.1 hc]
      rfl
    exact eq_false_of_mem_head?_dropWhile hfirst

theorem Stripped.eq_trim (h : Stripped cs kept) : kept = trim cs := by
  obtain ⟨⟨left, right, rfl, hleft, hright⟩, hhead, hlast⟩ := h
  rw [trim, List.append_assoc, List.dropWhile_append_of_pos hleft]
  cases kept with
  | nil => rw [List.nil_append, List.dropWhile_eq_nil_iff.2 hright, trimEnd_blanks (by simp)]
  | cons c kept =>
    have hstart : ∀ d ∈ (c :: kept ++ right).head?, isBlank d = false := hhead
    rw [dropWhile_isBlank_eq_self hstart, trimEnd_append hlast, trimEnd_blanks hright, List.append_nil]

/-! ## Comment ends -/

/-- A number of comment ends. -/
def closers (n : Nat) : List Char := (List.replicate n ['*', '/']).flatten

/-- A text without the comment ends that it ends with. -/
structure Unclosed (cs kept : List Char) : Prop where
  text : ∃ n, cs = kept ++ closers n
  last : ¬['*', '/'] <:+ kept

theorem closers_succ (n : Nat) : closers (n + 1) = closers n ++ ['*', '/'] := by
  rw [closers, List.replicate_succ', List.flatten_concat, closers]

/-- A text without the ends of the comment that it ends with. -/
def dropEnds (cs : List Char) : List Char := (dropClosers cs.reverse).reverse

theorem dropClosers_suffix (cs : List Char) : dropClosers cs <:+ cs := by
  induction cs using dropClosers.induct with
  | case1 cs ih =>
    rw [dropClosers]
    exact ih.trans ((List.suffix_cons _ _).trans (List.suffix_cons _ _))
  | case2 cs h =>
    have heq : dropClosers cs = cs := by
      rw [dropClosers]
      exact h
    exact ⟨[], heq⟩

/-- Only the end of a text is dropped with the ends of the comment. -/
theorem dropEnds_isPrefix (cs : List Char) : dropEnds cs <+: cs := by
  have := (dropClosers_suffix cs.reverse).reverse
  rwa [List.reverse_reverse] at this

/-- Ends of the comment are dropped up to a character that is in none. -/
theorem dropClosers_append {c : Char} (hslash : c ≠ '/') (hstar : c ≠ '*') (cs ds : List Char) :
    dropClosers (cs ++ c :: ds) = dropClosers cs ++ c :: ds := by
  induction cs using dropClosers.induct with
  | case1 cs ih => rw [List.cons_append, List.cons_append, dropClosers, dropClosers, ih]
  | case2 cs h =>
    rw [dropClosers, dropClosers]
    · exact h
    · rintro es heq
      rcases cs with _ | ⟨d, _ | ⟨e, cs⟩⟩
      · exact hslash (List.cons.inj heq).1
      · exact hstar (List.cons.inj (List.cons.inj heq).2).1
      · obtain ⟨hd, htail⟩ := List.cons.inj heq
        obtain ⟨he, -⟩ := List.cons.inj htail
        exact h cs (by rw [hd, he])

/-- A comment end at the end of a text is dropped. -/
theorem dropEnds_concat (cs : List Char) : dropEnds (cs ++ ['*', '/']) = dropEnds cs := by
  have hreverse : (cs ++ ['*', '/']).reverse = '/' :: '*' :: cs.reverse := List.reverse_append
  rw [dropEnds, hreverse, dropClosers, dropEnds]

/-- Nothing is dropped from a text that does not end with a comment end. -/
theorem dropEnds_eq_self (h : ¬['*', '/'] <:+ cs) : dropEnds cs = cs := by
  have hkept : dropClosers cs.reverse = cs.reverse := by
    rw [dropClosers]
    intro ds hds
    refine h ⟨ds.reverse, ?_⟩
    rw [← List.reverse_reverse cs, hds, List.reverse_cons, List.reverse_cons, List.append_assoc]
    rfl
  rw [dropEnds, hkept, List.reverse_reverse]

theorem unclosed_dropEnds (cs : List Char) : Unclosed cs (dropEnds cs) := by
  induction hn : cs.length using Nat.strong_induction_on generalizing cs with
  | h n ih =>
    subst hn
    by_cases hend : ['*', '/'] <:+ cs
    · obtain ⟨before, rfl⟩ := hend
      obtain ⟨⟨n, htext⟩, hlast⟩ := ih before.length (by simp) before rfl
      rw [dropEnds_concat]
      refine ⟨⟨n + 1, ?_⟩, hlast⟩
      rw [closers_succ, ← List.append_assoc, ← htext]
    · rw [dropEnds_eq_self hend]
      exact ⟨⟨0, (List.append_nil cs).symm⟩, hend⟩

theorem Unclosed.eq_dropEnds (h : Unclosed cs kept) : kept = dropEnds cs := by
  obtain ⟨⟨n, rfl⟩, hlast⟩ := h
  induction n with
  | zero => exact (dropEnds_eq_self hlast).symm.trans (congrArg dropEnds (List.append_nil kept).symm)
  | succ n ih => rw [closers_succ, ← List.append_assoc, dropEnds_concat, ← ih]

/-! ## The body of a tag -/

/-- What is left of the body of a tag: without the blanks at its end, then without the comment ends that it ends with, and then
without the blanks at both ends. -/
def Trimmed (rest r : List Char) : Prop := ∃ body inner, EndTrimmed rest body ∧ Unclosed body inner ∧ Stripped inner r

theorem trimBody_eq (cs : List Char) : trimBody cs = trim (dropEnds (trimEnd cs)) := rfl

/-- One text is left of every body. -/
theorem trimmed_iff : Trimmed rest r ↔ r = trimBody rest := by
  constructor
  · rintro ⟨body, inner, hbody, hinner, hr⟩
    rw [trimBody_eq, ← hbody.eq_trimEnd, ← hinner.eq_dropEnds, ← hr.eq_trim]
  · rintro rfl
    exact ⟨_, _, endTrimmed_trimEnd rest, unclosed_dropEnds _, stripped_trim _⟩

theorem Trimmed.unique {r' : List Char} (h' : Trimmed rest r') (h : Trimmed rest r) : r' = r :=
  (trimmed_iff.1 h').trans (trimmed_iff.1 h).symm

/-- What is left does not end in a blank. -/
theorem Trimmed.last (h : Trimmed rest r) : ∀ c ∈ r.getLast?, isBlank c = false := by
  obtain ⟨body, inner, -, -, hr⟩ := h
  exact hr.last

/-- Trimming only leaves characters out. -/
theorem Trimmed.sublist (h : Trimmed rest r) : r.Sublist rest := by
  obtain ⟨body, inner, ⟨⟨blanks, rfl, -⟩, -⟩, ⟨⟨n, rfl⟩, -⟩, ⟨⟨left, right, rfl, -, -⟩, -, -⟩⟩ := h
  have hinner : r.Sublist (left ++ r ++ right) := (List.sublist_append_right left r).trans (List.sublist_append_left _ right)
  exact (hinner.trans (List.sublist_append_left _ _)).trans (List.sublist_append_left _ _)

end DocComment

end ClassSchema
