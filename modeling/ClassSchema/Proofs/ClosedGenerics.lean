import ClassSchema.Proofs.Reading

/-!
# Generics in the order in which they close

The generics of a tree, wherever they stand in it, in the order of their closing marks (`Alternation.generics`). A generic is
known by the tokens before its closing mark, so it closes at one place of a text (`Generic.ClosesAt`), and of two generics the one
that comes first in the list closes first (`length_lt_of_closesAt`).

A tree that is not too deep is read up to the closing mark of the first generic with several arguments, and there the machine
stops; if there is none, the tree is read as a whole (`Alternation.meets`). What stands behind the mark does not matter.
-/

namespace ClassSchema

namespace Grammar

/-! ## The generics of a tree -/

/-- A generic at its closing mark: the tokens before the mark, its name and the number of its arguments. -/
structure Generic where
  before : List Token
  base : Name
  count : Nat

/-- Whether a generic has several arguments. -/
def Generic.hasSeveral (g : Generic) : Bool := decide (2 ≤ g.count)

theorem Generic.hasSeveral_iff {g : Generic} : g.hasSeveral = true ↔ 2 ≤ g.count := decide_eq_true_iff

/-- A generic with more tokens before it. -/
def Generic.after (ts : List Token) (g : Generic) : Generic := { g with before := ts ++ g.before }

/-- The number of entries. -/
def Entries.count : Entries → Nat
  | .single _ => 1
  | .more _ rest => rest.count + 1

mutual

/-- The generics of an annotation, in the order of their closing marks. -/
def Alternation.generics : Alternation → List Generic
  | .single m => m.generics
  | .alternative m rest => m.generics ++ rest.generics.map (Generic.after (m.tokens ++ [.mark '|']))

/-- The generics of a member. -/
def Member.generics : Member → List Generic
  | .nullable inner => inner.generics.map (Generic.after [.mark '?'])
  | .plain p _ => p.generics

/-- The generics of a primary: those in a bracket close before it does. -/
def Primary.generics : Primary → List Generic
  | .name _ => []
  | .empty _ _ => []
  | .bracketed base .brace _ entries => entries.generics.map (Generic.after [base.token, .mark '{'])
  | .bracketed base .angle _ entries =>
    entries.generics.map (Generic.after [base.token, .mark '<']) ++
      [⟨base.token :: .mark '<' :: entries.tokens, base, entries.count⟩]

/-- The generics of entries. -/
def Entries.generics : Entries → List Generic
  | .single a => a.generics
  | .more a rest => a.generics ++ rest.generics.map (Generic.after (a.tokens ++ [.mark ',']))

end

/-! ## Their order -/

variable {limit : Nat} {p q : Place} {ts us : List Token} {g : Generic} {gs hs : List Generic}

/-- A generic closes among tokens: they begin with those before its closing mark, and with the mark. -/
def Generic.ClosesIn (g : Generic) (ts : List Token) : Prop := g.before ++ [.mark '>'] <+: ts

theorem Generic.ClosesIn.append (h : g.ClosesIn ts) (us : List Token) : g.ClosesIn (ts ++ us) :=
  h.trans (List.prefix_append ts us)

theorem Generic.ClosesIn.after (h : g.ClosesIn us) (ts : List Token) : (g.after ts).ClosesIn (ts ++ us) := by
  unfold Generic.ClosesIn Generic.after
  rw [List.append_assoc]
  exact (List.prefix_append_right_inj ts).2 h

/-- Generics that close among tokens close among more with these before. -/
theorem forall_closesIn_after (hgs : ∀ g ∈ gs, g.ClosesIn us) (ts : List Token) :
    ∀ g ∈ gs.map (Generic.after ts), g.ClosesIn (ts ++ us) :=
  List.forall_mem_map.2 fun g hg => (hgs g hg).after ts

mutual

/-- The generics of an annotation close among its tokens. -/
theorem Alternation.closesIn : (a : Alternation) → ∀ g ∈ a.generics, g.ClosesIn a.tokens
  | .single m => m.closesIn
  | .alternative m rest => by
    refine List.forall_mem_append.2 ⟨fun g hg => (m.closesIn g hg).append _, ?_⟩
    have := forall_closesIn_after rest.closesIn (m.tokens ++ [.mark '|'])
    rwa [List.append_assoc] at this

/-- The generics of a member close among its tokens. -/
theorem Member.closesIn : (m : Member) → ∀ g ∈ m.generics, g.ClosesIn m.tokens
  | .nullable inner => forall_closesIn_after inner.closesIn [.mark '?']
  | .plain p _ => fun g hg => (p.closesIn g hg).append _

/-- The generics of a primary close among its tokens. -/
theorem Primary.closesIn : (p : Primary) → ∀ g ∈ p.generics, g.ClosesIn p.tokens
  | .name _ => fun _ hg => (List.not_mem_nil hg).elim
  | .empty _ _ => fun _ hg => (List.not_mem_nil hg).elim
  | .bracketed base .brace _ entries =>
    forall_closesIn_after (fun g hg => (entries.closesIn g hg).append _) [base.token, .mark '{']
  | .bracketed base .angle _ entries =>
    List.forall_mem_append.2
      ⟨forall_closesIn_after (fun g hg => (entries.closesIn g hg).append _) [base.token, .mark '<'],
        List.forall_mem_singleton.2 List.prefix_rfl⟩

/-- The generics of entries close among their tokens. -/
theorem Entries.closesIn : (es : Entries) → ∀ g ∈ es.generics, g.ClosesIn es.tokens
  | .single a => a.closesIn
  | .more a rest => by
    refine List.forall_mem_append.2 ⟨fun g hg => (a.closesIn g hg).append _, ?_⟩
    have := forall_closesIn_after rest.closesIn (a.tokens ++ [.mark ','])
    rwa [List.append_assoc] at this

end

/-- Generics of which each closes before the closing marks of those after it. -/
def InOrder (gs : List Generic) : Prop := gs.Pairwise fun g h => g.ClosesIn h.before

theorem InOrder.map_after (h : InOrder gs) (ts : List Token) : InOrder (gs.map (Generic.after ts)) :=
  List.pairwise_map.2 (h.imp fun hgh => hgh.after ts)

/-- Generics that close among tokens come before those behind the tokens. -/
theorem InOrder.append_after (hgs : InOrder gs) (hts : ∀ g ∈ gs, g.ClosesIn ts) (hhs : InOrder hs) :
    InOrder (gs ++ hs.map (Generic.after ts)) := by
  refine List.pairwise_append.2 ⟨hgs, hhs.map_after ts, fun g hg => ?_⟩
  exact List.forall_mem_map.2 fun h _ => (hts g hg).append h.before

mutual

/-- The generics of an annotation are in the order of their closing marks. -/
theorem Alternation.inOrder : (a : Alternation) → InOrder a.generics
  | .single m => m.inOrder
  | .alternative m rest => m.inOrder.append_after (fun g hg => (m.closesIn g hg).append _) rest.inOrder

/-- The generics of a member are in the order of their closing marks. -/
theorem Member.inOrder : (m : Member) → InOrder m.generics
  | .nullable inner => inner.inOrder.map_after _
  | .plain p _ => p.inOrder

/-- The generics of a primary are in the order of their closing marks. -/
theorem Primary.inOrder : (p : Primary) → InOrder p.generics
  | .name _ => .nil
  | .empty _ _ => .nil
  | .bracketed _ .brace _ entries => entries.inOrder.map_after _
  | .bracketed base .angle _ entries => by
    refine List.pairwise_append.2 ⟨entries.inOrder.map_after _, List.pairwise_singleton _ _, fun g hg => ?_⟩
    exact List.forall_mem_singleton.2 (forall_closesIn_after entries.closesIn [base.token, .mark '<'] g hg)

/-- The generics of entries are in the order of their closing marks. -/
theorem Entries.inOrder : (es : Entries) → InOrder es.generics
  | .single a => a.inOrder
  | .more a rest => a.inOrder.append_after (fun g hg => (a.closesIn g hg).append _) rest.inOrder

end

/-! ## The machine at a closing mark -/

/-- From a place, the machine comes to the closing mark of a generic and refuses it for its arguments. -/
def StopsAt (limit : Nat) (p : Place) (g : Generic) : Prop :=
  ∃ q, Runs limit p g.before (.ok q) ∧
    ∀ lt : Located, lt.token = .mark '>' → q.step limit lt = .error (.tooManyArguments g.base.text g.count)

/-- From a place, tokens lead to the closing mark of the first of their generics that has several arguments, where the machine
stops; if there is none, they lead to a place after them. -/
def Meets (limit : Nat) (p : Place) (ts : List Token) (gs : List Generic) (next : Place → Prop) : Prop :=
  match gs.find? Generic.hasSeveral with
  | some g => StopsAt limit p g
  | none => ∃ q, next q ∧ Runs limit p ts (.ok q)

variable {mid next : Place → Prop}

/-- A generic is met after the tokens before it. -/
theorem StopsAt.after (h : StopsAt limit q g) (hts : Runs limit p ts (.ok q)) : StopsAt limit p (g.after ts) := by
  obtain ⟨q', hrun, hstop⟩ := h
  exact ⟨q', hts.append hrun, hstop⟩

/-- How many arguments a generic has does not depend on what is before it. -/
theorem find?_map_after (gs : List Generic) (ts : List Token) :
    (gs.map (Generic.after ts)).find? Generic.hasSeveral = (gs.find? Generic.hasSeveral).map (Generic.after ts) :=
  List.find?_map ..

theorem map_after_map_after (gs : List Generic) (ts us : List Token) :
    (gs.map (Generic.after us)).map (Generic.after ts) = gs.map (Generic.after (ts ++ us)) := by
  rw [List.map_map]
  refine List.map_congr_left fun g _ => ?_
  simp only [Function.comp, Generic.after, List.append_assoc]

/-- Tokens without generics are only read. -/
theorem Meets.of_runs (h : ∃ q, next q ∧ Runs limit p ts (.ok q)) : Meets limit p ts [] next := h

/-- What is said of the place after the tokens may be weakened. -/
theorem Meets.mono (h : Meets limit p ts gs mid) (hle : ∀ q, mid q → next q) : Meets limit p ts gs next := by
  unfold Meets at h ⊢
  cases hg : gs.find? Generic.hasSeveral with
  | some g =>
    rw [hg] at h
    exact h
  | none =>
    rw [hg] at h
    obtain ⟨q, hq, hrun⟩ := h
    exact ⟨q, hle q hq, hrun⟩

/-- Some tokens after others: their generics are met after those of the others. -/
theorem Meets.append (h : Meets limit p ts gs mid) (hnext : ∀ q, mid q → Meets limit q us hs next) :
    Meets limit p (ts ++ us) (gs ++ hs.map (Generic.after ts)) next := by
  unfold Meets at h ⊢
  rw [List.find?_append, find?_map_after]
  cases hg : gs.find? Generic.hasSeveral with
  | some g =>
    rw [hg] at h
    exact h
  | none =>
    rw [hg] at h
    obtain ⟨q, hq, hts⟩ := h
    have hus := hnext q hq
    unfold Meets at hus
    cases hh : hs.find? Generic.hasSeveral with
    | some h' =>
      rw [hh] at hus
      exact hus.after hts
    | none =>
      rw [hh] at hus
      obtain ⟨q', hq', hrun⟩ := hus
      exact ⟨q', hq', hts.append hrun⟩

/-- A run, and tokens that are met from the place after it. -/
theorem Meets.after (h : Meets limit q us gs next) (hts : Runs limit p ts (.ok q)) :
    Meets limit p (ts ++ us) (gs.map (Generic.after ts)) next := by
  have hmid : Meets limit p ts [] (· = q) := .of_runs ⟨q, rfl, hts⟩
  exact hmid.append fun _ hq => hq ▸ h

/-- A step, and tokens that are met from the place after it. -/
theorem Meets.cons {t : Token} (hstep : ∀ lt : Located, lt.token = t → p.step limit lt = .ok q) (h : Meets limit q us gs next) :
    Meets limit p (t :: us) (gs.map (Generic.after [t])) next :=
  h.after (Runs.cons hstep .nil)

/-! ## What the machine meets in a tree -/

variable {frames : List Frame} {members outer : List TypeExpr} {base : String} {bracket : Bracket}

/-- A token that begins no member is refused for other reasons than the arguments of a generic. -/
theorem beginMember_ne_tooManyArguments (frames : List Frame) (members : List TypeExpr) (t : Located) (base : String) (count : Nat) :
    beginMember limit frames members t ≠ .error (.tooManyArguments base count) := by
  unfold beginMember
  split
  · simp
  · cases t.token with
    | word c cs => dsimp only; split <;> simp
    | mark c => dsimp only; split <;> simp [Located.unexpected]

/-- After an opening mark, what is met in the first entry is met. -/
theorem Begins.meets_opened (hts : Begins ts) (hgs : ∀ g ∈ gs, g.ClosesIn ts)
    (h : Meets limit ⟨.entries base bracket [] members :: frames, [], .start⟩ ts gs next) :
    Meets limit ⟨frames, members, .opened base bracket⟩ ts gs next := by
  unfold Meets at h ⊢
  cases hg : gs.find? Generic.hasSeveral with
  | none =>
    rw [hg] at h
    obtain ⟨q, hq, hrun⟩ := h
    exact ⟨q, hq, hts.runs_opened hrun⟩
  | some g =>
    rw [hg] at h
    obtain ⟨q, hrun, hstop⟩ := h
    have hcloses : g.ClosesIn ts := hgs g (List.mem_of_find?_eq_some hg)
    refine ⟨q, Begins.runs_opened ?_ hrun, hstop⟩
    -- The generic begins with the first token of the entry.
    obtain ⟨t, us, rfl, hne⟩ := hts
    cases hbefore : g.before with
    | nil =>
      rw [hbefore] at hrun
      cases hrun [] rfl
      have hclose : beginMember limit (.entries base bracket [] members :: frames) [] ⟨0, .mark '>'⟩ =
          .error (.tooManyArguments g.base.text g.count) := hstop ⟨0, .mark '>'⟩ rfl
      exact absurd hclose (beginMember_ne_tooManyArguments _ _ _ _ _)
    | cons t' us' =>
      unfold Generic.ClosesIn at hcloses
      rw [hbefore, List.cons_append] at hcloses
      obtain ⟨rfl, -⟩ := List.cons_prefix_cons.1 hcloses
      exact ⟨t', us', rfl, hne⟩

/-- A name and an opening mark, and then the entries of the bracket. -/
theorem Begins.meets_bracket {name : Name} (hopens : name.Opens bracket) (hd : frames.length < limit) (hts : Begins ts)
    (hgs : ∀ g ∈ gs, g.ClosesIn ts)
    (h : Meets limit ⟨.entries name.text bracket [] members :: frames, [], .start⟩ ts gs next) :
    Meets limit ⟨frames, members, .start⟩ (name.token :: .mark (opening bracket) :: ts)
      (gs.map (Generic.after [name.token, .mark (opening bracket)])) next := by
  have hrun : Runs limit ⟨frames, members, .start⟩ [name.token, .mark (opening bracket)]
      (.ok ⟨frames, members, .opened name.text bracket⟩) :=
    .cons (fun lt hlt => beginMember_name members hd name hlt) (.cons (fun lt hlt => step_opening members hopens hlt) .nil)
  exact (hts.meets_opened hgs h).after hrun

/-- A step that ends a run in a fault. -/
theorem Runs.step_of_error {t : Token} {fault : Fault} (h : Runs limit p [t] (.error fault)) {lt : Located} (ht : lt.token = t) :
    p.step limit lt = .error fault := by
  have hrun := h [lt] (by rw [List.map_singleton, ht])
  rw [List.foldlM_cons] at hrun
  rcases bind_eq_error_iff.1 hrun with hstep | ⟨q, -, hnil⟩
  · exact hstep
  · nomatch hnil

/-- The closing mark of a generic is refused exactly if it has several arguments. -/
theorem AfterEntries.meets_close {name : Name} {es : List TypeExpr} {count : Nat}
    (h : AfterEntries limit frames name.text .angle outer es p) (hcount : es.length = count) :
    Meets limit p [.mark '>'] [⟨[], name, count⟩] fun q => ∃ e, Whole limit frames outer 0 e q := by
  have hreads := h.reads_close
  obtain ⟨done, ts, rfl, -⟩ := h
  subst hcount
  rcases done with _ | ⟨first, done⟩
  · obtain ⟨q, hq, hrun⟩ := hreads
    exact ⟨q, ⟨_, hq⟩, hrun⟩
  · have hclose : closeEntries name.text .angle (first :: done ++ [ofMembers ts]) =
        .error (.tooManyArguments name.text (first :: done ++ [ofMembers ts]).length) := by
      cases done <;> rfl
    rw [hclose] at hreads
    have hseveral : List.find? Generic.hasSeveral [⟨[], name, (first :: done ++ [ofMembers ts]).length⟩] =
        some ⟨[], name, (first :: done ++ [ofMembers ts]).length⟩ := List.find?_cons_of_pos (by simp [Generic.hasSeveral_iff])
    unfold Meets
    rw [hseveral]
    exact ⟨p, .nil, fun lt hlt => hreads.step_of_error hlt⟩

mutual

/-- The machine meets the generics of an annotation, outside or directly inside a bracket. -/
theorem Alternation.meets : (a : Alternation) → (frames : List Frame) → (members : List TypeExpr) →
    frames.head? ≠ some .nullable → frames.length + a.cost ≤ limit →
    Meets limit ⟨frames, members, .start⟩ a.tokens a.generics fun q => ∃ ts, AfterUnion limit frames ts q
  | .single m, frames, members, _, hcost =>
    (m.meets frames members hcost).mono fun _ ⟨e, hq⟩ => ⟨members ++ [e], members, e, rfl, hq⟩
  | .alternative m rest, frames, members, hframes, hcost => by
    obtain ⟨hm, hrest⟩ := add_max_le_iff.1 hcost
    have := (m.meets frames members hm).append fun q ⟨e, hq⟩ =>
      Meets.cons (fun lt hlt => hq.step_bar hframes hlt) (rest.meets frames (members ++ [e]) hframes hrest)
    rwa [map_after_map_after] at this

/-- The machine meets the generics of a member. -/
theorem Member.meets : (m : Member) → (frames : List Frame) → (members : List TypeExpr) → frames.length + m.cost ≤ limit →
    Meets limit ⟨frames, members, .start⟩ m.tokens m.generics fun q => ∃ e, Ready limit frames members e q
  | .nullable inner, frames, members, hcost => by
    obtain ⟨hd, hinner⟩ := (inside_le_iff limit frames.length inner.one_le_cost).1 hcost
    refine Meets.cons (fun lt hlt => beginMember_nullable members hd hlt) ?_
    exact (inner.meets (.nullable :: frames) members hinner).mono fun _ ⟨e, hq⟩ => ⟨e.nullable, hq.nullable⟩
  | .plain p wraps, frames, members, hcost => by
    obtain ⟨hwraps, hp⟩ := add_max_le_iff.1 hcost
    have hsuffixes : ∀ q, (∃ e, Whole limit frames members 0 e q) →
        Meets limit q (suffixTokens wraps) [] fun q' => ∃ e, Ready limit frames members e q' := by
      intro q ⟨e, hq⟩
      have hreads := hq.reads_suffixTokens wraps (.inl rfl)
      rw [Nat.zero_add, if_pos (by omega)] at hreads
      obtain ⟨q', hq', hrun⟩ := hreads
      exact .of_runs ⟨q', ⟨_, hq'.toReady⟩, hrun⟩
    have := (p.meets frames members hp).append hsuffixes
    rwa [List.map_nil, List.append_nil] at this

/-- The machine meets the generics of a primary. -/
theorem Primary.meets : (p : Primary) → (frames : List Frame) → (members : List TypeExpr) → frames.length + p.cost ≤ limit →
    Meets limit ⟨frames, members, .start⟩ p.tokens p.generics fun q => ∃ e, Whole limit frames members 0 e q
  | .name n, frames, members, hcost =>
    .of_runs ⟨_, ⟨_, whole_named limit frames members n.text⟩,
      .cons (fun lt hlt => beginMember_name members hcost n hlt) .nil⟩
  | .empty base opens, frames, members, hcost =>
    .of_runs ⟨_, ⟨_, whole_suffixed limit frames members 0 (.tuple [])⟩,
      .cons (fun lt hlt => beginMember_name members hcost base hlt)
        (.cons (fun lt hlt => step_opening members opens hlt) (.cons (fun lt hlt => by simp [Place.step, hlt]) .nil))⟩
  | .bracketed base .brace opens entries, frames, members, hcost => by
    obtain ⟨hd, hentries⟩ := (inside_le_iff limit frames.length entries.one_le_cost).1 hcost
    have hinside := entries.begins.meets_bracket opens hd entries.closesIn
      (entries.meets frames base.text .brace [] members hentries)
    have := hinside.append fun q ⟨es, _, hq⟩ => Meets.of_runs (by
      obtain ⟨q', hq', hrun⟩ := hq.reads_close
      exact ⟨q', (⟨_, hq'⟩ : ∃ e, Whole limit frames members 0 e q'), hrun⟩)
    rwa [List.map_nil, List.append_nil] at this
  | .bracketed base .angle opens entries, frames, members, hcost => by
    obtain ⟨hd, hentries⟩ := (inside_le_iff limit frames.length entries.one_le_cost).1 hcost
    have hinside := entries.begins.meets_bracket opens hd entries.closesIn
      (entries.meets frames base.text .angle [] members hentries)
    have := hinside.append fun q ⟨es, hcount, hq⟩ => hq.meets_close (hcount.trans (Nat.zero_add _))
    rwa [List.map_singleton, Generic.after, List.append_nil] at this

/-- The machine meets the generics of the entries of a bracket. -/
theorem Entries.meets : (es : Entries) → (frames : List Frame) → (base : String) → (bracket : Bracket) →
    (done outer : List TypeExpr) → frames.length + 1 + es.cost ≤ limit →
    Meets limit ⟨.entries base bracket done outer :: frames, [], .start⟩ es.tokens es.generics fun q =>
      ∃ ts, ts.length = done.length + es.count ∧ AfterEntries limit frames base bracket outer ts q
  | .single a, frames, base, bracket, done, outer, hcost =>
    (a.meets (.entries base bracket done outer :: frames) [] (by simp) hcost).mono fun _ ⟨ts, hq⟩ =>
      ⟨done ++ [ofMembers ts], by simp [Entries.count], done, ts, rfl, hq⟩
  | .more a rest, frames, base, bracket, done, outer, hcost => by
    obtain ⟨ha, hrest⟩ := add_max_le_iff.1 hcost
    have hnext : ∀ q, (∃ ts, AfterUnion limit (.entries base bracket done outer :: frames) ts q) →
        Meets limit q (.mark ',' :: rest.tokens) (rest.generics.map (Generic.after [.mark ',']))
          fun q' => ∃ es, es.length = done.length + (rest.count + 1) ∧ AfterEntries limit frames base bracket outer es q' := by
      intro q ⟨ts, hq⟩
      refine Meets.cons (fun lt hlt => hq.step_comma hlt) ?_
      refine (rest.meets frames base bracket (done ++ [ofMembers ts]) outer hrest).mono ?_
      intro q' ⟨es, hcount, hq'⟩
      refine ⟨es, ?_, hq'⟩
      rw [hcount, List.length_append, List.length_singleton, Nat.add_assoc, Nat.add_comm 1]
    have := (a.meets (.entries base bracket done outer :: frames) [] (by simp) ha).append hnext
    rwa [map_after_map_after] at this

end

/-- From the place before the first token, the machine meets the generics of an annotation that is not too deep. -/
theorem Alternation.meets_initial {a : Alternation} (hcost : a.cost ≤ limit) :
    Meets limit .initial a.tokens a.generics fun q => ∃ ts, AfterUnion limit [] ts q :=
  a.meets [] [] (by simp) (by rwa [List.length_nil, Nat.zero_add])

end Grammar

end ClassSchema
