import ClassSchema.Proofs.Value

/-!
# The machine reads trees

From the place where a member may begin, the tokens of a tree lead the machine to a place after the tree, with the value
of the tree as what has been read; and if the value is a fault, they lead it to that fault (`Alternation.reads` and the
three beside it). The depth of the value is the number of frames.

After a member the machine is still inside the `?` before it: these frames are closed by what follows. So a place after a
member is described by what it does next (`Ready`), and not by its frames.
-/

namespace ClassSchema

namespace Grammar

variable {α β : Type} {limit : Nat} {p q : Place} {ts us : List Token}

/-! ## Runs of the machine -/

/-- From a place, tokens lead to a result wherever in a text they stand. -/
def Runs (limit : Nat) (p : Place) (ts : List Token) (r : Except Fault Place) : Prop :=
  ∀ lts : List Located, lts.map (·.token) = ts → lts.foldlM (Place.step limit) p = r

theorem Runs.nil : Runs limit p [] (.ok p) := by
  intro lts h
  rw [List.map_eq_nil_iff.1 h]
  rfl

/-- A step, and a run from the place after it. -/
theorem Runs.cons {t : Token} {r : Except Fault Place} (hstep : ∀ lt : Located, lt.token = t → p.step limit lt = .ok q)
    (h : Runs limit q ts r) : Runs limit p (t :: ts) r := by
  intro lts hlts
  obtain ⟨lt, rest, rfl, ht, hrest⟩ := List.map_eq_cons_iff.1 hlts
  rw [List.foldlM_cons, hstep lt ht]
  exact h rest hrest

/-- A step that fails ends the run. -/
theorem Runs.stop {t : Token} {fault : Fault} (hstep : ∀ lt : Located, lt.token = t → p.step limit lt = .error fault) :
    Runs limit p (t :: ts) (.error fault) := by
  intro lts hlts
  obtain ⟨lt, rest, rfl, ht, -⟩ := List.map_eq_cons_iff.1 hlts
  rw [List.foldlM_cons, hstep lt ht]
  rfl

/-- One run after another. -/
theorem Runs.append {r : Except Fault Place} (hts : Runs limit p ts (.ok q)) (hus : Runs limit q us r) :
    Runs limit p (ts ++ us) r := by
  intro lts h
  obtain ⟨ltsA, ltsB, rfl, hA, hB⟩ := List.map_eq_append_iff.1 h
  rw [List.foldlM_append, hts ltsA hA]
  exact hus ltsB hB

/-- What follows a fault is not looked at. -/
theorem Runs.append_error {fault : Fault} (hts : Runs limit p ts (.error fault)) (us : List Token) :
    Runs limit p (ts ++ us) (.error fault) := by
  intro lts h
  obtain ⟨ltsA, ltsB, rfl, hA, -⟩ := List.map_eq_append_iff.1 h
  rw [List.foldlM_append, hts ltsA hA]
  rfl

/-! ## Runs that read a value -/

/-- From a place, tokens lead to a place that belongs to the value, or to the fault that there is instead of one. -/
def Reads (limit : Nat) (p : Place) (ts : List Token) (v : Except Fault α) (after : α → Place → Prop) : Prop :=
  match v with
  | .ok a => ∃ q, after a q ∧ Runs limit p ts (.ok q)
  | .error fault => Runs limit p ts (.error fault)

variable {v : Except Fault α} {after : α → Place → Prop} {next : β → Place → Prop}

/-- Reading one value after another. -/
theorem Reads.bind {k : α → Except Fault β} (h : Reads limit p ts v after)
    (hk : ∀ a q, after a q → Reads limit q us (k a) next) : Reads limit p (ts ++ us) (v >>= k) next := by
  cases v with
  | error fault => exact Runs.append_error h us
  | ok a =>
    obtain ⟨q, hq, hp⟩ := h
    have hka := hk a q hq
    change Reads limit p (ts ++ us) (k a) next
    cases hv : k a with
    | error fault =>
      rw [hv] at hka
      exact hp.append hka
    | ok b =>
      rw [hv] at hka
      obtain ⟨q', hq', hq''⟩ := hka
      exact ⟨q', hq', hp.append hq''⟩

/-- What is said of the place after a value may be weakened. -/
theorem Reads.mono {after' : α → Place → Prop} (h : Reads limit p ts v after) (hle : ∀ a q, after a q → after' a q) :
    Reads limit p ts v after' := by
  cases v with
  | error fault => exact h
  | ok a =>
    obtain ⟨q, hq, hp⟩ := h
    exact ⟨q, hle a q hq, hp⟩

/-- Reading a value and making another of it. -/
theorem Reads.map {f : α → β} (h : Reads limit p ts v after) (hf : ∀ a q, after a q → next (f a) q) :
    Reads limit p ts (v >>= fun a => pure (f a)) next := by
  cases v with
  | error fault => exact h
  | ok a =>
    obtain ⟨q, hq, hp⟩ := h
    exact ⟨q, hf a q hq, hp⟩

/-- A step, and a value read from the place after it. -/
theorem Reads.cons {t : Token} (hstep : ∀ lt : Located, lt.token = t → p.step limit lt = .ok q)
    (h : Reads limit q ts v after) : Reads limit p (t :: ts) v after := by
  cases v with
  | error fault => exact Runs.cons hstep h
  | ok a =>
    obtain ⟨q', hq', hq⟩ := h
    exact ⟨q', hq', Runs.cons hstep hq⟩

/-- The value at a place already reached. -/
theorem Reads.pure {a : α} (h : after a p) : Reads limit p [] (.ok a) after := ⟨p, h, .nil⟩

/-- A member begins: too deep, its first token is refused. -/
theorem Reads.begin {depth : Nat} {t : Token}
    (hdeep : limit ≤ depth → ∀ lt : Located, lt.token = t → p.step limit lt = .error (.tooDeep limit))
    (h : depth < limit → Reads limit p (t :: ts) v after) :
    Reads limit p (t :: ts) (Grammar.begin limit depth >>= fun _ => v) after := by
  unfold Grammar.begin
  by_cases hd : limit ≤ depth
  · rw [if_pos hd]
    exact Runs.stop (hdeep hd)
  · rw [if_neg hd]
    exact h (Nat.lt_of_not_le hd)

/-! ## Places after a member -/

variable {frames : List Frame} {members : List TypeExpr}

/-- A place after a member of a union: an expression is complete but for a `[` or a bracket, whatever has begun since. -/
structure Ready (limit : Nat) (frames : List Frame) (members : List TypeExpr) (e : TypeExpr) (p : Place) : Prop where
  step : ∀ t : Located, (∀ c ∈ ['[', '<', '{'], t.token ≠ .mark c) → p.step limit t = endMember members t frames e
  finish : p.finish limit = endText members frames e

/-- A place after a primary and a number of suffixes: a `[` may follow as well. -/
structure Whole (limit : Nat) (frames : List Frame) (members : List TypeExpr) (wraps : Nat) (e : TypeExpr) (p : Place) :
    Prop extends Ready limit frames members e p where
  square : ∀ t : Located, t.token = .mark '[' → p.step limit t = .ok ⟨frames, members, .square e wraps⟩

/-- The place after a name. -/
theorem whole_named (limit : Nat) (frames : List Frame) (members : List TypeExpr) (name : String) :
    Whole limit frames members 0 (.ident name) ⟨frames, members, .named name⟩ where
  step t ht := by
    have hsquare := ht '[' (by decide)
    have hangle := ht '<' (by decide)
    have hbrace := ht '{' (by decide)
    simp only [Place.step, afterExpr, hsquare, hangle, hbrace, if_false]
  finish := rfl
  square t ht := by simp [Place.step, afterExpr, ht]

/-- The place after a bracket or a suffix. -/
theorem whole_suffixed (limit : Nat) (frames : List Frame) (members : List TypeExpr) (wraps : Nat) (e : TypeExpr) :
    Whole limit frames members wraps e ⟨frames, members, .suffixed e wraps⟩ where
  step t ht := by
    have hsquare := ht '[' (by decide)
    simp only [Place.step, afterExpr, hsquare, if_false]
  finish := rfl
  square t ht := by simp [Place.step, afterExpr, ht]

/-- The `?` before a member is closed by what follows the member. -/
theorem Ready.nullable {e : TypeExpr} (h : Ready limit (.nullable :: frames) members e p) :
    Ready limit frames members e.nullable p where
  step t ht := h.step t ht
  finish := h.finish

/-- Suffixes are read one by one. -/
theorem Whole.reads_suffixTokens {wraps : Nat} {e : TypeExpr} (h : Whole limit frames members wraps e p) (more : Nat)
    (hmore : wraps = 0 ∨ frames.length + wraps < limit) :
    Reads limit p (suffixTokens more)
      (if wraps + more = 0 ∨ frames.length + (wraps + more) < limit then .ok (TypeExpr.arrayOf^[more] e)
        else .error (.tooDeep limit))
      (Whole limit frames members (wraps + more)) := by
  induction more generalizing wraps e p with
  | zero =>
    rw [Nat.add_zero, if_pos hmore]
    exact .pure h
  | succ more ih =>
    refine Reads.cons h.square ?_
    by_cases hdeep : limit ≤ frames.length + wraps + 1
    · rw [if_neg (by omega)]
      exact Runs.stop fun lt ht => by simp [Place.step, ht, hdeep]
    · refine Reads.cons (q := ⟨frames, members, .suffixed e.arrayOf (wraps + 1)⟩)
        (fun lt ht => by simp [Place.step, ht, hdeep]) ?_
      have hsum : wraps + (more + 1) = wraps + 1 + more := by omega
      rw [hsum, Function.iterate_succ_apply]
      exact ih (whole_suffixed limit frames members (wraps + 1) e.arrayOf) (by omega)

/-! ## Places after the members of a union and after entries -/

/-- A place after all members of a union. -/
def AfterUnion (limit : Nat) (frames : List Frame) (ts : List TypeExpr) (p : Place) : Prop :=
  ∃ before last, ts = before ++ [last] ∧ Ready limit frames before last p

/-- A place after all entries of a bracket. -/
def AfterEntries (limit : Nat) (frames : List Frame) (base : String) (bracket : Bracket) (outer : List TypeExpr)
    (entries : List TypeExpr) (p : Place) : Prop :=
  ∃ done ts, entries = done ++ [ofMembers ts] ∧ AfterUnion limit (.entries base bracket done outer :: frames) ts p

/-- A `|` begins the next member of the union, unless a `?` is still open. -/
theorem Ready.step_bar {e : TypeExpr} (h : Ready limit frames members e p) (hframes : frames.head? ≠ some .nullable)
    {t : Located} (ht : t.token = .mark '|') : p.step limit t = .ok ⟨frames, members ++ [e], .start⟩ := by
  rw [h.step t (by simp [ht])]
  rcases frames with _ | ⟨_ | ⟨base, bracket, done, outer⟩, frames⟩
  · simp [endMember, ht]
  · exact absurd rfl hframes
  · simp [endMember, ht]

/-- A comma begins the next entry of the bracket. -/
theorem AfterUnion.step_comma {base : String} {bracket : Bracket} {done outer ts : List TypeExpr}
    (h : AfterUnion limit (.entries base bracket done outer :: frames) ts p) {t : Located} (ht : t.token = .mark ',') :
    p.step limit t = .ok ⟨.entries base bracket (done ++ [ofMembers ts]) outer :: frames, [], .start⟩ := by
  obtain ⟨before, last, rfl, hready⟩ := h
  rw [hready.step t (by simp [ht]), ← unionOf_eq_ofMembers]
  simp [endMember, ht]

/-- The closing mark makes the expression of the bracket. -/
theorem AfterEntries.reads_close {base : String} {bracket : Bracket} {outer entries : List TypeExpr}
    (h : AfterEntries limit frames base bracket outer entries p) :
    Reads limit p [.mark bracket.close] (closeEntries base bracket entries) (Whole limit frames outer 0) := by
  obtain ⟨done, ts, rfl, before, last, rfl, hready⟩ := h
  have hstep (lt : Located) (hlt : lt.token = .mark bracket.close) : p.step limit lt =
      (closeEntries base bracket (done ++ [ofMembers (before ++ [last])])).map (⟨frames, outer, .suffixed · 0⟩) := by
    rw [hready.step lt (by cases bracket <;> simp [hlt, Bracket.close]), ← unionOf_eq_ofMembers]
    cases bracket <;> simp [endMember, hlt, Bracket.close]
  cases hv : closeEntries base bracket (done ++ [ofMembers (before ++ [last])]) with
  | error fault =>
    refine Runs.stop ?_
    intro lt hlt
    rw [hstep lt hlt, hv]
    rfl
  | ok e =>
    refine ⟨_, whole_suffixed limit frames outer 0 e, Runs.cons ?_ .nil⟩
    intro lt hlt
    rw [hstep lt hlt, hv]
    rfl

/-! ## Places before a member -/

/-- At the limit no token begins a member. -/
theorem beginMember_deep (members : List TypeExpr) (t : Located) (h : limit ≤ frames.length) :
    beginMember limit frames members t = .error (.tooDeep limit) := by
  rw [beginMember, if_pos h]

/-- A name begins a member. -/
theorem beginMember_name (members : List TypeExpr) {t : Located} (h : frames.length < limit) (n : Name)
    (ht : t.token = n.token) : beginMember limit frames members t = .ok ⟨frames, members, .named n.text⟩ := by
  rw [beginMember, if_neg (Nat.not_le_of_lt h), ht]
  exact if_neg n.last_ne

/-- A `?` begins a member. -/
theorem beginMember_nullable (members : List TypeExpr) {t : Located} (h : frames.length < limit)
    (ht : t.token = .mark '?') : beginMember limit frames members t = .ok ⟨.nullable :: frames, members, .start⟩ := by
  rw [beginMember, if_neg (Nat.not_le_of_lt h), ht]
  rfl

/-- A bracket opens after a name that may stand before it. -/
theorem step_opening (members : List TypeExpr) {n : Name} {bracket : Bracket} (hopens : n.Opens bracket) {t : Located}
    (ht : t.token = .mark (opening bracket)) :
    Place.step limit ⟨frames, members, .named n.text⟩ t = .ok ⟨frames, members, .opened n.text bracket⟩ := by
  cases bracket with
  | angle => simp [Place.step, ht, opening]
  | brace => simp [Place.step, ht, opening, hopens rfl]

/-- Tokens that begin with no closing mark. -/
def Begins (ts : List Token) : Prop := ∃ t us, ts = t :: us ∧ ∀ bracket : Bracket, t ≠ .mark bracket.close

theorem Begins.append (h : Begins ts) (us : List Token) : Begins (ts ++ us) := by
  obtain ⟨t, rest, rfl, ht⟩ := h
  exact ⟨t, rest ++ us, rfl, ht⟩

mutual

/-- An annotation begins with a name or a `?`. -/
theorem Alternation.begins : (a : Alternation) → Begins a.tokens
  | .single m => m.begins
  | .alternative m _ => m.begins.append _

/-- A member begins with a name or a `?`. -/
theorem Member.begins : (m : Member) → Begins m.tokens
  | .nullable inner => ⟨_, _, rfl, fun bracket => by cases bracket <;> simp [Bracket.close]⟩
  | .plain p _ => p.begins.append _

/-- A primary begins with a name. -/
theorem Primary.begins : (p : Primary) → Begins p.tokens
  | .name _ => ⟨_, _, rfl, fun _ => by simp [Name.token]⟩
  | .empty _ _ => ⟨_, _, rfl, fun _ => by simp [Name.token]⟩
  | .bracketed _ _ _ _ => ⟨_, _, rfl, fun _ => by simp [Name.token]⟩

end

/-- Entries begin with a name or a `?`. -/
theorem Entries.begins (es : Entries) : Begins es.tokens := by
  cases es with
  | single a => exact a.begins
  | more a rest => exact a.begins.append _

/-- After an opening mark, what does not close the bracket begins its first entry. -/
theorem Begins.runs_opened {base : String} {bracket : Bracket} {r : Except Fault Place} (hts : Begins ts)
    (h : Runs limit ⟨.entries base bracket [] members :: frames, [], .start⟩ ts r) :
    Runs limit ⟨frames, members, .opened base bracket⟩ ts r := by
  obtain ⟨t, us, rfl, hne⟩ := hts
  intro lts hlts
  obtain ⟨lt, rest, rfl, ht, hrest⟩ := List.map_eq_cons_iff.1 hlts
  have hstep : Place.step limit ⟨frames, members, .opened base bracket⟩ lt =
      Place.step limit ⟨.entries base bracket [] members :: frames, [], .start⟩ lt := by
    have hclose : lt.token ≠ .mark bracket.close := ht ▸ hne bracket
    simp only [Place.step, hclose, if_false]
  rw [List.foldlM_cons, hstep, ← List.foldlM_cons]
  exact h _ hlts

/-- The same for a value. -/
theorem Begins.reads_opened {base : String} {bracket : Bracket} (hts : Begins ts)
    (h : Reads limit ⟨.entries base bracket [] members :: frames, [], .start⟩ ts v after) :
    Reads limit ⟨frames, members, .opened base bracket⟩ ts v after := by
  cases v with
  | error fault => exact hts.runs_opened h
  | ok a =>
    obtain ⟨q, hq, hrun⟩ := h
    exact ⟨q, hq, hts.runs_opened hrun⟩

/-! ## The machine reads every tree -/

mutual

/-- The machine reads the members of an annotation, outside or directly inside a bracket. -/
theorem Alternation.reads (limit : Nat) : (a : Alternation) → (frames : List Frame) → (members : List TypeExpr) →
    frames.head? ≠ some .nullable → Reads limit ⟨frames, members, .start⟩ a.tokens (a.value limit frames.length)
      fun ts q => AfterUnion limit frames (members ++ ts) q
  | .single m, frames, members, _ =>
    (m.reads limit frames members).map fun t q hq => ⟨members, t, rfl, hq⟩
  | .alternative m rest, frames, members, hframes => by
    refine (m.reads limit frames members).bind ?_
    intro t q hq
    refine Reads.cons (fun lt hlt => hq.step_bar hframes hlt) ?_
    refine (rest.reads limit frames (members ++ [t]) hframes).map ?_
    intro ts q' hq'
    rw [List.append_assoc] at hq'
    exact hq'

/-- The machine reads a member. -/
theorem Member.reads (limit : Nat) : (m : Member) → (frames : List Frame) → (members : List TypeExpr) →
    Reads limit ⟨frames, members, .start⟩ m.tokens (m.value limit frames.length) (Ready limit frames members)
  | .nullable inner, frames, members =>
    Reads.begin (fun hd lt _ => beginMember_deep members lt hd) fun hd =>
      Reads.cons (fun lt hlt => beginMember_nullable members hd hlt)
        ((inner.reads limit (.nullable :: frames) members).map fun _ _ hq => hq.nullable)
  | .plain p wraps, frames, members => by
    refine (p.reads limit frames members).bind ?_
    intro t q hq
    have := hq.reads_suffixTokens wraps (.inl rfl)
    rw [Nat.zero_add] at this
    exact this.mono fun _ _ hq => hq.toReady

/-- The machine reads a primary. -/
theorem Primary.reads (limit : Nat) : (p : Primary) → (frames : List Frame) → (members : List TypeExpr) →
    Reads limit ⟨frames, members, .start⟩ p.tokens (p.value limit frames.length) (Whole limit frames members 0)
  | .name n, frames, members =>
    Reads.begin (fun hd lt _ => beginMember_deep members lt hd) fun hd =>
      Reads.cons (fun lt hlt => beginMember_name members hd n hlt) (.pure (whole_named limit frames members n.text))
  | .empty base opens, frames, members =>
    Reads.begin (fun hd lt _ => beginMember_deep members lt hd) fun hd =>
      Reads.cons (fun lt hlt => beginMember_name members hd base hlt)
        (Reads.cons (fun lt hlt => step_opening members opens hlt)
          (Reads.cons (fun lt hlt => by simp [Place.step, hlt])
            (.pure (whole_suffixed limit frames members 0 (.tuple [])))))
  | .bracketed base bracket opens entries, frames, members => by
    refine Reads.begin (fun hd lt _ => beginMember_deep members lt hd) ?_
    intro hd
    refine Reads.cons (fun lt hlt => beginMember_name members hd base hlt) ?_
    refine Reads.cons (fun lt hlt => step_opening members opens hlt) ?_
    refine Reads.bind (entries.begins.reads_opened (entries.reads limit frames base.text bracket [] members)) ?_
    exact fun es q hq => hq.reads_close

/-- The machine reads the entries of a bracket. -/
theorem Entries.reads (limit : Nat) : (es : Entries) → (frames : List Frame) → (base : String) → (bracket : Bracket) →
    (done outer : List TypeExpr) →
    Reads limit ⟨.entries base bracket done outer :: frames, [], .start⟩ es.tokens (es.value limit (frames.length + 1))
      fun ts q => AfterEntries limit frames base bracket outer (done ++ ts) q
  | .single a, frames, base, bracket, done, outer =>
    (a.reads limit (.entries base bracket done outer :: frames) [] (by simp)).map fun ts q hq => ⟨done, ts, rfl, hq⟩
  | .more a rest, frames, base, bracket, done, outer => by
    refine (a.reads limit (.entries base bracket done outer :: frames) [] (by simp)).bind ?_
    intro ts q hq
    refine Reads.cons (fun lt hlt => AfterUnion.step_comma hq hlt) ?_
    refine (rest.reads limit frames base bracket (done ++ [ofMembers ts]) outer).map ?_
    intro es q' hq'
    rw [List.append_assoc] at hq'
    exact hq'

end

end Grammar

end ClassSchema
