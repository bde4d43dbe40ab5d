import ClassSchema.Proofs.ReadTo

/-!
# Beginnings of annotations

At every place that the machine reaches, what has been read is the beginning of an annotation: what is open can be closed, one
frame after the other from the inside (`Opened.exists_alternation`), and so the tokens can be continued (`ReadTo.begun`). A text
that spells such tokens can be continued to one that writes an annotation (`Begun.viable`); where a member may begin, this holds
of the beginning of a word too, also of one that ends in a dash (`ReadTo.viable_word`).
-/

namespace ClassSchema

namespace Grammar

variable {limit depth : Nat} {frames : List Frame} {members : List TypeExpr} {es : List TypeExpr} {ts : List Token}
  {cs : List Char} {p : Place}

/-! ## Tokens -/

/-- Tokens with which an annotation begins. -/
def Begun (ts : List Token) : Prop := ∃ (us : List Token) (a : Alternation), a.tokens = ts ++ us

/-- A beginning of a beginning is one. -/
theorem Begun.of_append (us : List Token) (h : Begun (ts ++ us)) : Begun ts := by
  obtain ⟨vs, a, ha⟩ := h
  rw [List.append_assoc] at ha
  exact ⟨us ++ vs, a, ha⟩

/-- What may be put before tokens part by part may be put before them at once. -/
theorem Pending.append_tokens {α : Type} {mark : Char} {part : α → List Token → Prop} {as : List α} {us : List Token}
    (whole : List Token → Prop) (hcons : ∀ {a us vs}, part a us → whole vs → whole (us ++ .mark mark :: vs))
    (h : Pending mark part as ts) (hus : whole us) : whole (ts ++ us) :=
  @Pending.append α ts us mark part (fun _ => whole) (fun ha hvs => hcons ha hvs) as [] h hus

/-- Complete members and one more are an annotation, which is within the limit if the last member is. -/
theorem Pending.exists_alternation (h : Pending '|' (WritesMember limit depth) es ts) (m : Member) :
    ∃ a : Alternation, a.tokens = ts ++ m.tokens ∧ (depth + m.cost ≤ limit → depth + a.cost ≤ limit) := by
  refine h.append_tokens
    (fun us => ∃ a : Alternation, a.tokens = us ∧ (depth + m.cost ≤ limit → depth + a.cost ≤ limit)) ?_ ⟨.single m, rfl, id⟩
  rintro _ _ _ ⟨first, rfl, hfirst⟩ ⟨a, rfl, ha⟩
  exact ⟨.alternative first a, rfl, fun hm => add_max_le_iff.2 ⟨(first.value_eq_ok_iff.1 hfirst).2, ha hm⟩⟩

/-- Complete entries and one more are the entries of a bracket, which are within the limit if the last is. -/
theorem Pending.exists_entries (h : Pending ',' (WritesEntry limit depth) es ts) (a : Alternation) :
    ∃ entries : Entries, entries.tokens = ts ++ a.tokens ∧ (depth + a.cost ≤ limit → depth + entries.cost ≤ limit) := by
  refine h.append_tokens
    (fun us => ∃ entries : Entries, entries.tokens = us ∧ (depth + a.cost ≤ limit → depth + entries.cost ≤ limit)) ?_
    ⟨.single a, rfl, id⟩
  rintro _ _ _ ⟨_, -, first, rfl, hfirst⟩ ⟨entries, rfl, hentries⟩
  exact ⟨.more first entries, rfl, fun ha => add_max_le_iff.2 ⟨(first.value_eq_ok_iff.1 hfirst).2, hentries ha⟩⟩

/-- Where a member may begin, a whole member goes on with an annotation, which is within the limit if the member is. A `?` takes
the member for itself, and a bracket takes it as the last member of its last entry and closes, so the frames are left one by
one. -/
theorem Opened.exists_alternation (h : Opened limit frames members ts) (m : Member) :
    ∃ (us : List Token) (a : Alternation), a.tokens = ts ++ m.tokens ++ us ∧ (frames.length + m.cost ≤ limit → a.cost ≤ limit) := by
  induction h generalizing m with
  | outside hmembers =>
    obtain ⟨a, ha, hcost⟩ := hmembers.exists_alternation m
    refine ⟨[], a, by rw [ha, List.append_nil], fun hm => ?_⟩
    have := hcost hm
    rwa [Nat.zero_add] at this
  | nullable hd h ih =>
    obtain ⟨us, a, ha, hcost⟩ := ih (.nullable m)
    rw [Member.tokens, List.append_cons] at ha
    refine ⟨us, a, ha, fun hm => hcost ((inside_le_iff limit _ m.one_le_cost).2 ⟨hd, hm⟩)⟩
  | @entries frames base bracket done outer members ts us vs hd hopens h hdone hmembers ih =>
    obtain ⟨last, hlast, hlastCost⟩ := hmembers.exists_alternation m
    obtain ⟨entries, hentries, hentriesCost⟩ := hdone.exists_entries last
    obtain ⟨ws, a, ha, hcost⟩ := ih (.plain (.bracketed base bracket hopens entries) 0)
    rw [Member.tokens, Primary.tokens, hentries, hlast, suffixTokens, List.append_nil] at ha
    have htokens : a.tokens = ts ++ base.token :: .mark (opening bracket) :: (us ++ vs) ++ m.tokens ++ .mark bracket.close :: ws := by
      simpa only [List.append_assoc, List.cons_append, List.nil_append] using ha
    refine ⟨.mark bracket.close :: ws, a, htokens, fun hm => ?_⟩
    have hinside := (inside_le_iff limit frames.length entries.one_le_cost).2 ⟨hd, hentriesCost (hlastCost hm)⟩
    exact hcost (add_max_le_iff.2 ⟨Nat.succ_le_of_lt hd, hinside⟩)

/-- Where a member may begin, a whole member goes on with an annotation. -/
theorem Opened.begun (h : Opened limit frames members ts) (m : Member) : Begun (ts ++ m.tokens) := by
  obtain ⟨us, a, ha, -⟩ := h.exists_alternation m
  exact ⟨us, a, ha⟩

/-- A name, for what is still to be written. -/
def letterName : Name := ⟨'x', [], by decide, by decide, by decide⟩

/-- What has been read at a place is the beginning of an annotation. -/
theorem ReadTo.begun (h : ReadTo limit p ts) : Begun ts := by
  cases h with
  | start h => exact (h.begun (.plain (.name letterName) 0)).of_append _
  | @opened frames members ts base bracket h hd hopens =>
    have := h.begun (.plain (.bracketed base bracket hopens (.single (.single (.plain (.name letterName) 0)))) 0)
    refine Begun.of_append [letterName.token, .mark bracket.close] ?_
    rw [List.append_assoc]
    exact this
  | @named frames members ts n h hd => exact h.begun (.plain (.name n) 0)
  | @suffixed frames members ts q wraps e h he => exact h.begun (.plain q wraps)
  | @square frames members ts q wraps e h he =>
    have := h.begun (.plain q (wraps + 1))
    refine Begun.of_append [.mark ']'] ?_
    simpa only [Member.tokens, suffixTokens_succ, List.append_assoc, List.cons_append, List.nil_append] using this

/-- A place where a member may begin. -/
def Beginning (p : Place) : Prop := p.phase = .start ∨ ∃ base bracket, p.phase = .opened base bracket

/-- Where a member may begin, a whole member goes on with an annotation. -/
theorem ReadTo.begun_member (h : ReadTo limit p ts) (hp : Beginning p) (m : Member) : Begun (ts ++ m.tokens) := by
  rcases hp with hp | ⟨base, bracket, hp⟩
  · cases h with
    | start h => exact h.begun m
    | _ => nomatch hp
  · cases h with
    | opened h hd hopens =>
      have := (Opened.entries hd hopens h .nil .nil).begun m
      rwa [List.append_nil] at this
    | _ => nomatch hp

/-! ## Texts -/

/-- A text that can be continued to one that writes an annotation. -/
def Viable (cs : List Char) : Prop := ∃ (rest : List Char) (a : Alternation), a.Writes (.ofList (cs ++ rest))

/-- A beginning of a text that can be continued can be continued. -/
theorem Viable.of_append (ds : List Char) (h : Viable (cs ++ ds)) : Viable cs := by
  obtain ⟨rest, a, ha⟩ := h
  rw [List.append_assoc] at ha
  exact ⟨ds ++ rest, a, ha⟩

/-- Tokens with a blank before each. -/
theorem spells_flatMap (ts : List Token) : Spells (ts.flatMap fun t => ' ' :: tokenText t) ts := by
  induction ts with
  | nil => exact spells_nil
  | cons t ts ih =>
    rw [List.flatMap_cons]
    exact ih.token_cons.blank_cons (by decide)

/-- A text that spells the beginning of an annotation can be continued. -/
theorem Begun.viable (h : Begun ts) (hcs : Spells cs ts) : Viable cs := by
  obtain ⟨us, a, ha⟩ := h
  refine ⟨us.flatMap fun t => ' ' :: tokenText t, a, ?_⟩
  rw [Alternation.Writes, String.toList_ofList, ha]
  exact hcs.append (spells_flatMap us)

/-- Where a member may begin, so may a word. -/
theorem ReadTo.viable_word (h : ReadTo limit p ts) (hp : Beginning p) (hcs : Spells cs ts) {c : Char} {word : List Char}
    (hc : isWordStart c = true) (hword : ∀ d ∈ word, isWordChar d = true) : Viable (cs ++ c :: word) := by
  -- The word may end in a dash, so a letter is put after it.
  have htail : ∀ d ∈ word ++ ['a'], isWordChar d = true := by
    intro d hd
    rcases List.mem_append.1 hd with hd | hd
    · exact hword d hd
    · rw [List.mem_singleton.1 hd]
      decide
  have hlast : (word ++ ['a']).getLast? ≠ some '-' := by simp
  have hbegun := h.begun_member hp (.plain (.name ⟨c, word ++ ['a'], hc, htail, hlast⟩) 0)
  have hviable := hbegun.viable (hcs.append (spells_token (.word c (word ++ ['a']))))
  refine Viable.of_append ['a'] ?_
  simpa only [tokenText, List.append_assoc, List.cons_append] using hviable

end Grammar

end ClassSchema
