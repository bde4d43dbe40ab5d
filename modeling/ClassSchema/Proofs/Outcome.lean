import ClassSchema.Log

/-!
# Outcomes of steps that report

Statements about `Traced.result`, the part of a traced step that the events do not touch. One step after another has a
value only if both have one, and its failure is that of the first step that fails (`result_bind_eq_ok`,
`result_bind_eq_error`). The same is said of a step made for every entry of a list: all of them have values, in order
(`result_mapM_eq_ok`), or there is a first entry that fails and all before it have values (`result_mapM_eq_error`).
-/

namespace ClassSchema

namespace Traced

variable {ε α β : Type}

@[simp] theorem result_pure (a : α) : (pure a : Traced ε α).result = .ok a := rfl

@[simp] theorem result_fail (e : ε) : (fail e : Traced ε α).result = .error e := rfl

@[simp] theorem result_report (e : Event) : (report e : Traced ε Unit).result = .ok () := rfl

/-- One step after another has a value when both have one. -/
theorem result_bind_eq_ok {x : Traced ε α} {f : α → Traced ε β} {b : β} :
    (x >>= f).result = .ok b ↔ ∃ a, x.result = .ok a ∧ (f a).result = .ok b := by
  rcases x with ⟨events, e | a⟩ <;> simp [bind, andThen]

/-- One step after another fails when the first does, or when the first has a value and the second fails. -/
theorem result_bind_eq_error {x : Traced ε α} {f : α → Traced ε β} {e : ε} :
    (x >>= f).result = .error e ↔ x.result = .error e ∨ ∃ a, x.result = .ok a ∧ (f a).result = .error e := by
  rcases x with ⟨events, e' | a⟩ <;> simp [bind, andThen]

/-- What is done with a value does not decide whether there is one. -/
theorem result_bind_pure (x : Traced ε α) (g : α → β) : (x >>= fun a => pure (g a)).result = x.result.map g := by
  rcases x with ⟨events, e | a⟩ <;> rfl

/-- Reporting an event first changes no result. -/
@[simp] theorem result_report_bind (e : Event) (f : Unit → Traced ε β) : (report e >>= f).result = (f ()).result := by
  simp only [bind, andThen, report]

/-! ## A step for every entry of a list -/

/-- Where the results of all entries are values, every entry has one of them. -/
theorem exists_value_of_map_eq {f : α → Except ε β} {xs : List α} {ys : List β} (h : xs.map f = ys.map .ok) {x : α}
    (hx : x ∈ xs) : ∃ y ∈ ys, f x = .ok y := by
  have hmem : f x ∈ ys.map .ok := h ▸ List.mem_map_of_mem hx
  obtain ⟨y, hy, heq⟩ := List.mem_map.1 hmem
  exact ⟨y, hy, heq.symm⟩

/-- Where the results of all entries are values, every value is that of an entry. -/
theorem exists_entry_of_map_eq {f : α → Except ε β} {xs : List α} {ys : List β} (h : xs.map f = ys.map .ok) {y : β}
    (hy : y ∈ ys) : ∃ x ∈ xs, f x = .ok y := by
  have hmem : .ok y ∈ xs.map f := h ▸ List.mem_map_of_mem hy
  exact List.mem_map.1 hmem

/-- A step for every entry has the values of all of them, in order. -/
theorem result_mapM_eq_ok {f : α → Traced ε β} {xs : List α} {ys : List β} :
    (xs.mapM f).result = .ok ys ↔ xs.map (fun x => (f x).result) = ys.map .ok := by
  induction xs generalizing ys with
  | nil => cases ys <;> simp
  | cons x xs ih =>
    rw [List.mapM_cons, result_bind_eq_ok]
    constructor
    · rintro ⟨b, hb, h⟩
      obtain ⟨bs, hbs, h⟩ := result_bind_eq_ok.1 h
      cases h
      rw [List.map_cons, hb, ih.1 hbs, List.map_cons]
    · intro h
      cases ys with
      | nil => simp at h
      | cons b bs =>
        obtain ⟨hb, hbs⟩ := List.cons.inj h
        exact ⟨b, hb, result_bind_eq_ok.2 ⟨bs, ih.2 hbs, rfl⟩⟩

/-- A step for every entry has a value when every entry has one. -/
theorem exists_result_mapM_eq_ok {f : α → Traced ε β} {xs : List α} :
    (∃ ys, (xs.mapM f).result = .ok ys) ↔ ∀ x ∈ xs, ∃ y, (f x).result = .ok y := by
  constructor
  · rintro ⟨ys, h⟩ x hx
    obtain ⟨y, -, hy⟩ := exists_value_of_map_eq (result_mapM_eq_ok.1 h) hx
    exact ⟨y, hy⟩
  · intro h
    induction xs with
    | nil => exact ⟨[], rfl⟩
    | cons x xs ih =>
      obtain ⟨y, hy⟩ := h x List.mem_cons_self
      obtain ⟨ys, hys⟩ := ih fun z hz => h z (List.mem_cons_of_mem _ hz)
      refine ⟨y :: ys, result_mapM_eq_ok.2 ?_⟩
      rw [List.map_cons, hy, result_mapM_eq_ok.1 hys, List.map_cons]

/-- A step for every entry fails as the first entry that fails. -/
theorem result_mapM_eq_error {f : α → Traced ε β} {xs : List α} {e : ε} :
    (xs.mapM f).result = .error e ↔
      ∃ before x after, xs = before ++ x :: after ∧ (∀ y ∈ before, ∃ b, (f y).result = .ok b) ∧
        (f x).result = .error e := by
  induction xs with
  | nil => simp
  | cons x xs ih =>
    rw [List.mapM_cons, result_bind_eq_error]
    constructor
    · rintro (h | ⟨b, hb, h⟩)
      · exact ⟨[], x, xs, rfl, by simp, h⟩
      · rcases result_bind_eq_error.1 h with h | ⟨bs, -, h⟩
        · obtain ⟨before, y, after, rfl, hbefore, hy⟩ := ih.1 h
          refine ⟨x :: before, y, after, rfl, ?_, hy⟩
          intro z hz
          rcases List.mem_cons.1 hz with rfl | hz
          · exact ⟨b, hb⟩
          · exact hbefore z hz
        · cases h
    · rintro ⟨before, y, after, h, hbefore, hy⟩
      cases before with
      | nil =>
        obtain ⟨rfl, -⟩ := List.cons.inj h
        exact Or.inl hy
      | cons z before =>
        obtain ⟨rfl, rfl⟩ := List.cons.inj h
        obtain ⟨b, hb⟩ := hbefore x List.mem_cons_self
        refine Or.inr ⟨b, hb, result_bind_eq_error.2 (Or.inl (ih.2 ⟨before, y, after, rfl, ?_, hy⟩))⟩
        exact fun z hz => hbefore z (List.mem_cons_of_mem _ hz)

theorem cons_forM (f : α → Traced ε Unit) (x : α) (xs : List α) : (x :: xs).forM f = f x >>= fun _ => xs.forM f := rfl

/-- A step without a value of its own, made for every entry, succeeds when every entry does. -/
theorem result_forM_eq_ok {f : α → Traced ε Unit} {xs : List α} :
    (xs.forM f).result = .ok () ↔ ∀ x ∈ xs, (f x).result = .ok () := by
  induction xs with
  | nil => simp
  | cons x xs ih =>
    rw [cons_forM, result_bind_eq_ok, List.forall_mem_cons, ← ih]
    exact ⟨fun ⟨_, hx, h⟩ => ⟨hx, h⟩, fun ⟨hx, h⟩ => ⟨(), hx, h⟩⟩

/-- A step without a value of its own, made for every entry, fails as the first entry that fails. -/
theorem result_forM_eq_error {f : α → Traced ε Unit} {xs : List α} {e : ε} :
    (xs.forM f).result = .error e ↔
      ∃ before x after, xs = before ++ x :: after ∧ (∀ y ∈ before, (f y).result = .ok ()) ∧
        (f x).result = .error e := by
  induction xs with
  | nil => simp
  | cons x xs ih =>
    rw [cons_forM, result_bind_eq_error]
    constructor
    · rintro (h | ⟨_, hx, h⟩)
      · exact ⟨[], x, xs, rfl, by simp, h⟩
      · obtain ⟨before, y, after, rfl, hbefore, hy⟩ := ih.1 h
        exact ⟨x :: before, y, after, rfl, List.forall_mem_cons.2 ⟨hx, hbefore⟩, hy⟩
    · rintro ⟨before, y, after, h, hbefore, hy⟩
      cases before with
      | nil =>
        obtain ⟨rfl, -⟩ := List.cons.inj h
        exact Or.inl hy
      | cons z before =>
        obtain ⟨rfl, rfl⟩ := List.cons.inj h
        obtain ⟨hx, hbefore⟩ := List.forall_mem_cons.1 hbefore
        exact Or.inr ⟨(), hx, ih.2 ⟨before, y, after, rfl, hbefore, hy⟩⟩

end Traced

/-! ## Steps that change a state and may run forever -/

section Procedures

variable {ε σ α β : Type} {x : ExceptT ε (StateT σ Option) α} {s s' : σ}

/-- After a step that ends with a value, the next is made in the state that it leaves. -/
theorem run_bind_of_ok {a : α} (h : x.run.run s = some (.ok a, s')) (f : α → ExceptT ε (StateT σ Option) β) :
    (x >>= f).run.run s = (f a).run.run s' := by
  rw [ExceptT.run_bind, StateT.run_bind, h]
  rfl

/-- After a step that fails, no other is made. -/
theorem run_bind_of_error {e : ε} (h : x.run.run s = some (.error e, s')) (f : α → ExceptT ε (StateT σ Option) β) :
    (x >>= f).run.run s = some (.error e, s') := by
  rw [ExceptT.run_bind, StateT.run_bind, h]
  rfl

end Procedures

end ClassSchema
