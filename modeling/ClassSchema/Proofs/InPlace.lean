import ClassSchema.Proofs.OpenClasses
import ClassSchema.Proofs.StepValues
import Mathlib.Data.Prod.Lex
import Mathlib.Logic.Function.Iterate
import Mathlib.Order.Lattice.Nat

/-!
# Expansion with one stack

`Model.expand` hands the open classes down from class to class, so that a class cannot but find them as it left them. Here the
same expansion is done by a procedure that has one stack of open classes and changes it in place: a class is pushed when it is
opened and popped when its properties are complete. The procedure calls itself wherever a type names a class, and nothing is
put into it to make it end; it is the least fixed point of its text among computations that may run forever.

A ledger keeps what the stack holds after every change and which calls are made inside which. From any ledger the procedure ends
as the expansion does, and if it succeeds it leaves the stack as it found it; every call made inside another is smaller, by the
number of classes that are not open and then by the size of what it expands (`Follows`). This is proved for each step from the
steps inside it, on the assumption that a stack may hold what is pushed (`follows_class`). The main statement is
`expansion_in_place`.

A run that ends is also a run of procedures that call one another only so deep (`outermost_procedures`), and those can be run.
-/

namespace ClassSchema

/-! ## The size of an expression -/

namespace TypeExpr

mutual

/-- The number of expressions that stand in an expression. -/
def size : TypeExpr → Nat
  | ident _ => 1
  | generic _ arg => size arg + 1
  | union members => sizeAll members + 1
  | tuple elements => sizeAll elements + 1

/-- The number of expressions that stand in several expressions. -/
def sizeAll : List TypeExpr → Nat
  | [] => 0
  | t :: ts => size t + sizeAll ts

end

theorem size_pos (t : TypeExpr) : 0 < t.size := by cases t <;> simp [size]

theorem size_le_sizeAll {t : TypeExpr} {ts : List TypeExpr} (h : t ∈ ts) : t.size ≤ sizeAll ts := by
  induction ts with
  | nil => nomatch h
  | cons u us ih =>
    rw [sizeAll]
    rcases List.mem_cons.1 h with rfl | h
    · omega
    · have := ih h
      omega

end TypeExpr

/-! ## The procedure -/

/-- What a call of the procedure is about. -/
inductive Task where
  /-- A class, by its name. -/
  | cls (name : String)
  /-- A type. -/
  | type (t : TypeExpr)
  /-- A name that stands in a type outside tuples. -/
  | name (name : String)
  deriving DecidableEq

/-- The size of what a call expands; a class by itself counts nothing, for what is in it is counted by the classes that are not
open. -/
def Task.size : Task → Nat
  | .cls _ => 0
  | .name _ => 1
  | .type t => t.size + 1

/-- A call of the procedure: what it is about, and the stack that it finds. -/
structure Call where
  stack : List String
  task : Task
  deriving DecidableEq

/-- The measure of a call: how many classes are not open, and then the size of what is expanded. -/
def Call.measure (m : Model) (call : Call) : Nat ×ₗ Nat := toLex ((m.unopened call.stack).length, call.task.size)

/-- What the procedure reads and changes. -/
structure Ledger where
  /-- The classes that are open, outermost first. -/
  stack : List String
  /-- What the stack has held after each change. -/
  held : List (List String)
  /-- The calls that were made inside a call: the outer and the inner one. -/
  calls : List (Call × Call)
  events : List Event

/-- The ledger before the first call. -/
def Ledger.start : Ledger := ⟨[], [], [], []⟩

/-- A computation that changes a ledger, may fail, and may run forever. A failure keeps the ledger as it is. -/
abbrev Procedure := ExceptT SchemaError (StateT Ledger Option)

namespace Procedure

variable {α : Type}

/-- What a procedure does from a ledger; nothing, if it runs forever. -/
def runFrom (x : Procedure α) (l : Ledger) : Option (Except SchemaError α × Ledger) := x.run.run l

/-- Does what does not touch the stack. -/
def perform (x : Traced SchemaError α) : Procedure α :=
  ExceptT.mk fun l => some (x.result, { l with events := l.events ++ x.events })

/-- The call that is being made. -/
def thisCall (task : Task) : Procedure Call := return ⟨(← get).stack, task⟩

/-- Notes a call that is about to be made inside another. -/
def enter (outer : Call) (task : Task) : Procedure Unit :=
  modify fun l => { l with calls := l.calls ++ [(outer, ⟨l.stack, task⟩)] }

/-- Changes the stack. -/
def change (f : List String → List String) : Procedure Unit :=
  modify fun l => { l with stack := f l.stack, held := l.held ++ [f l.stack] }

end Procedure

open Procedure

namespace Model

/-- The type of a property of the class at a path. -/
def propertyType (path : PropertyPath) (p : Property) : Traced SchemaError TypeExpr :=
  match p.declaredType with
  | .error found => failAt (path.property p.name) (.annotationCount found)
  | .ok text =>
    match TypeExpr.parse text with
    | .error e => failAt (path.property p.name) (.ofSyntaxError text e)
    | .ok expr => do
      .report (.property (path.property p.name) expr)
      return expr

section

variable (m : Model) (options : ExpansionOptions)

mutual

/-- The schema of the class of a name, found at a path; the class is open on the stack while its properties are expanded. -/
def classInPlace (name : String) (path : PropertyPath) : Procedure Schema := do
  -- Here and below the calls are named by a tactic: such a call keeps no record of where in the file it stands.
  let inside : PropertyPath → TypeExpr → Procedure Schema := by apply typeInPlace
  let call ← thisCall (.cls name)
  match m.classes.get? name with
  | none => perform (failAt path (.unknownReference name))
  | some c =>
    if name ∈ call.stack then perform (failAt path (.cycle (call.stack.dropWhile (· != name) ++ [name])))
    else if options.maxDepth < call.stack.length then perform (failAt path (.depthLimit options.maxDepth))
    else
      change (· ++ [name])
      perform (.report (.expandingClass name (call.stack.length + 1)))
      let properties ← c.properties.mapM fun p => do
        let t ← perform (propertyType path p)
        enter call (.type t)
        return (p.name, ← inside (path.property p.name) t)
      change List.dropLast
      return .object name properties
  partial_fixpoint

/-- The schema of a type at a path. -/
def typeInPlace (path : PropertyPath) (t : TypeExpr) : Procedure Schema := do
  let inside : PropertyPath → TypeExpr → Procedure Schema := by apply typeInPlace
  let named : PropertyPath → String → Procedure Schema := by apply nameInPlace
  let call ← thisCall (.type t)
  match t with
  | .ident name =>
    enter call (.name name)
    named path name
  | .generic base arg =>
    if TypeExpr.isArrayName base then
      enter call (.type arg)
      return .array (← inside path.items arg)
    else perform (failAt path (.unsupported (TypeExpr.generic base arg).render (.genericBase base)))
  | .union members =>
    let schemas ← members.mapM fun member => do
      enter call (.type member)
      inside path member
    return .anyOf schemas
  | .tuple elements => perform (m.tupleSchema options.tuplePolicy path elements)
  partial_fixpoint

/-- The schema that a name stands for outside a tuple. -/
def nameInPlace (path : PropertyPath) (name : String) : Procedure Schema := do
  let inside : String → PropertyPath → Procedure Schema := by apply classInPlace
  let call ← thisCall (.name name)
  if m.classes.contains name then
    enter call (.cls name)
    inside name path
  else match m.enums.get? name with
    | some e => return .enumeration e.cases
    | none =>
      match Scalar.ofName? name with
      | some s => return .scalar s
      | none => perform (failAt path (.unknownReference name))
  partial_fixpoint

end

end

/-! ## Its equations -/

/-- Procedures for classes, for types and for names. -/
structure Procedures where
  cls : String → PropertyPath → Procedure Schema
  type : PropertyPath → TypeExpr → Procedure Schema
  name : PropertyPath → String → Procedure Schema

section Equations

variable (m : Model) (options : ExpansionOptions)

/-- The equations of the three procedures: what each of them does, given what they do where they call one another. -/
def Procedures.outermost (inner : Procedures) : Procedures where
  cls name path := do
    let call ← thisCall (.cls name)
    match m.classes.get? name with
    | none => perform (failAt path (.unknownReference name))
    | some c =>
      if name ∈ call.stack then perform (failAt path (.cycle (call.stack.dropWhile (· != name) ++ [name])))
      else if options.maxDepth < call.stack.length then perform (failAt path (.depthLimit options.maxDepth))
      else
        change (· ++ [name])
        perform (.report (.expandingClass name (call.stack.length + 1)))
        let properties ← c.properties.mapM fun p => do
          let t ← perform (propertyType path p)
          enter call (.type t)
          return (p.name, ← inner.type (path.property p.name) t)
        change List.dropLast
        return .object name properties
  type path t := do
    let call ← thisCall (.type t)
    match t with
    | .ident name =>
      enter call (.name name)
      inner.name path name
    | .generic base arg =>
      if TypeExpr.isArrayName base then
        enter call (.type arg)
        return .array (← inner.type path.items arg)
      else perform (failAt path (.unsupported (TypeExpr.generic base arg).render (.genericBase base)))
    | .union members =>
      let schemas ← members.mapM fun member => do
        enter call (.type member)
        inner.type path member
      return .anyOf schemas
    | .tuple elements => perform (m.tupleSchema options.tuplePolicy path elements)
  name path name := do
    let call ← thisCall (.name name)
    if m.classes.contains name then
      enter call (.cls name)
      inner.cls name path
    else match m.enums.get? name with
      | some e => return .enumeration e.cases
      | none =>
        match Scalar.ofName? name with
        | some s => return .scalar s
        | none => perform (failAt path (.unknownReference name))

/-- The procedures of the expansion with one stack. -/
def procedures : Procedures := ⟨m.classInPlace options, m.typeInPlace options, m.nameInPlace options⟩

/-- The procedures of the expansion call themselves. -/
theorem outermost_procedures : (m.procedures options).outermost m options = m.procedures options := by
  rw [procedures, Procedures.mk.injEq]
  refine ⟨?_, ?_, ?_⟩
  · funext name path
    rw [classInPlace]
    rfl
  · funext path t
    rw [typeInPlace]
    rfl
  · funext path name
    rw [nameInPlace]
    rfl

end Equations

/-! ## What it is to do as an expansion does -/

/-- What one ledger has more than another: stacks that are allowed, and calls that are smaller than the calls they were made
in. -/
structure Grows (m : Model) (Held : List String → Prop) (l l' : Ledger) : Prop where
  held : ∃ more, l'.held = l.held ++ more ∧ ∀ stack ∈ more, Held stack
  calls : ∃ more, l'.calls = l.calls ++ more ∧ ∀ call ∈ more, call.2.measure m < call.1.measure m

/-- From a ledger, a procedure ends, and ends as a traced result does: with the same value or failure, and with its events. If it
succeeds, the stack is what it was. -/
def Follows {α : Type} (m : Model) (Held : List String → Prop) (l : Ledger) (x : Procedure α) (r : Traced SchemaError α) :
    Prop :=
  ∃ l', x.runFrom l = some (r.result, l') ∧ l'.events = l.events ++ r.events ∧ m.Grows Held l l' ∧
    ∀ a, r.result = .ok a → l'.stack = l.stack

section Follows

variable {m : Model} {Held : List String → Prop} {l l' l'' : Ledger} {α β : Type}

theorem Grows.refl (l : Ledger) : m.Grows Held l l := ⟨⟨[], by simp, by simp⟩, ⟨[], by simp, by simp⟩⟩

theorem Grows.trans (h : m.Grows Held l l') (h' : m.Grows Held l' l'') : m.Grows Held l l'' := by
  obtain ⟨⟨held, hheld, hall⟩, ⟨calls, hcalls, hsmaller⟩⟩ := h
  obtain ⟨⟨held', hheld', hall'⟩, ⟨calls', hcalls', hsmaller'⟩⟩ := h'
  refine ⟨⟨held ++ held', by rw [hheld', hheld, List.append_assoc], ?_⟩,
    ⟨calls ++ calls', by rw [hcalls', hcalls, List.append_assoc], ?_⟩⟩
  · intro stack hstack
    rcases List.mem_append.1 hstack with hstack | hstack
    · exact hall stack hstack
    · exact hall' stack hstack
  · intro call hcall
    rcases List.mem_append.1 hcall with hcall | hcall
    · exact hsmaller call hcall
    · exact hsmaller' call hcall

/-- What does not touch the stack does as it says. -/
theorem follows_perform (r : Traced SchemaError α) : Follows m Held l (perform r) r :=
  ⟨_, rfl, rfl, ⟨⟨[], by simp, by simp⟩, ⟨[], by simp, by simp⟩⟩, fun _ _ => rfl⟩

theorem follows_pure (a : α) : Follows m Held l (pure a) (pure a) :=
  ⟨l, rfl, by simp [pure, Traced.ok], .refl l, fun _ _ => rfl⟩

/-- One step after another does as both do, if the second does so with the stack that the first found. -/
theorem Follows.bind {x : Procedure α} {r : Traced SchemaError α} {f : α → Procedure β} {g : α → Traced SchemaError β}
    (hx : Follows m Held l x r)
    (hf : ∀ a, r.result = .ok a → ∀ l' : Ledger, l'.stack = l.stack → Follows m Held l' (f a) (g a)) :
    Follows m Held l (x >>= f) (r >>= g) := by
  obtain ⟨l', hrun, hevents, hgrows, hstack⟩ := hx
  obtain ⟨events, result⟩ := r
  cases result with
  | error e =>
    exact ⟨l', run_bind_of_error hrun f, hevents, hgrows, nofun⟩
  | ok a =>
    obtain ⟨l'', hrun', hevents', hgrows', hstack'⟩ := hf a rfl l' (hstack a rfl)
    refine ⟨l'', (run_bind_of_ok hrun f).trans hrun', ?_, hgrows.trans hgrows',
      fun b hb => (hstack' b hb).trans (hstack a rfl)⟩
    rw [hevents', hevents, List.append_assoc]
    rfl

/-- A step that is made for every entry does as the steps do. -/
theorem follows_mapM {xs : List α} {f : α → Procedure β} {g : α → Traced SchemaError β}
    (h : ∀ x ∈ xs, ∀ l' : Ledger, l'.stack = l.stack → Follows m Held l' (f x) (g x)) :
    Follows m Held l (xs.mapM f) (xs.mapM g) := by
  induction xs generalizing l with
  | nil => exact follows_pure []
  | cons x xs ih =>
    rw [List.forall_mem_cons] at h
    rw [List.mapM_cons, List.mapM_cons]
    refine (h.1 l rfl).bind fun y _ l' hl' => ?_
    have hxs : Follows m Held l' (xs.mapM f) (xs.mapM g) :=
      ih fun z hz l'' hl'' => h.2 z hz l'' (hl''.trans hl')
    exact hxs.bind fun ys _ _ _ => follows_pure _

/-- A step may ask which call it is in. -/
theorem follows_thisCall {task : Task} {f : Call → Procedure α} {r : Traced SchemaError α}
    (h : Follows m Held l (f ⟨l.stack, task⟩) r) : Follows m Held l (thisCall task >>= f) r := h

/-- A smaller call may be made. -/
theorem follows_enter {outer : Call} {task : Task} {x : Procedure α} {r : Traced SchemaError α}
    (hsmaller : (Call.mk l.stack task).measure m < outer.measure m)
    (h : ∀ l' : Ledger, l'.stack = l.stack → Follows m Held l' x r) :
    Follows m Held l (enter outer task >>= fun _ => x) r := by
  obtain ⟨l', hrun, hevents, hgrows, hstack⟩ :=
    h { l with calls := l.calls ++ [(outer, ⟨l.stack, task⟩)] } rfl
  refine ⟨l', hrun, hevents, Grows.trans ⟨⟨[], by simp, by simp⟩, ⟨_, rfl, ?_⟩⟩ hgrows, hstack⟩
  intro call hcall
  rw [List.mem_singleton.1 hcall]
  exact hsmaller

/-- What is done with a class pushed, and popped after it, leaves the stack as it was. -/
theorem follows_push {name : String} {x : Procedure α} {r : Traced SchemaError α} (hpushed : Held (l.stack ++ [name]))
    (hpopped : Held l.stack) (h : ∀ l' : Ledger, l'.stack = l.stack ++ [name] → Follows m Held l' x r) {g : α → β} :
    Follows m Held l (change (· ++ [name]) >>= fun _ => x >>= fun a => change List.dropLast >>= fun _ => pure (g a))
      (r >>= fun a => pure (g a)) := by
  obtain ⟨l', hrun, hevents, hgrows, hstack⟩ :=
    h { l with stack := l.stack ++ [name], held := l.held ++ [l.stack ++ [name]] } rfl
  have hpush : m.Grows Held l { l with stack := l.stack ++ [name], held := l.held ++ [l.stack ++ [name]] } :=
    ⟨⟨_, rfl, by simpa using hpushed⟩, ⟨[], by simp, by simp⟩⟩
  obtain ⟨events, result⟩ := r
  cases result with
  | error e =>
    exact ⟨l', run_bind_of_error hrun _, hevents, hpush.trans hgrows, nofun⟩
  | ok a =>
    have hpop : l'.stack.dropLast = l.stack := by rw [hstack a rfl, List.dropLast_concat]
    refine ⟨{ l' with stack := l'.stack.dropLast, held := l'.held ++ [l'.stack.dropLast] }, run_bind_of_ok hrun _, ?_,
      (hpush.trans hgrows).trans ⟨⟨_, rfl, ?_⟩, ⟨[], by simp, by simp⟩⟩, fun _ _ => hpop⟩
    · rw [hevents]
      simp [bind, Traced.andThen, pure, Traced.ok]
    · rw [hpop]
      simpa using hpopped

end Follows

/-! ## The measure -/

section Measure

variable {m : Model} {stack : List String} {name : String} {inner outer : Task}

/-- With the same classes open, a call about something smaller is smaller. -/
theorem measure_lt_of_size (h : inner.size < outer.size) : (Call.mk stack inner).measure m < (Call.mk stack outer).measure m :=
  Prod.Lex.toLex_lt_toLex.2 (Or.inr ⟨rfl, h⟩)

/-- With one more class open, every call is smaller. -/
theorem measure_lt_of_opened (hm : name ∈ m.classes.names) (hopen : name ∉ stack) :
    (Call.mk (stack ++ [name]) inner).measure m < (Call.mk stack outer).measure m :=
  Prod.Lex.toLex_lt_toLex.2 (Or.inl (length_unopened_lt hm hopen))

end Measure

/-! ## Step by step -/

section Steps

variable {m : Model} {options : ExpansionOptions} {Held : List String → Prop} {stack : List String} {path : PropertyPath}

/-- A property is expanded by expanding its type. -/
theorem propertySchema_eq_bind {f : String → PropertyPath → Traced SchemaError Schema} {p : Property} :
    m.propertySchema options.tuplePolicy f path p = (do
      let t ← propertyType path p
      return (p.name, ← m.typeSchema options.tuplePolicy f (path.property p.name) t)) := by
  unfold propertySchema propertyType
  cases p.declaredType with
  | error found => rfl
  | ok text =>
    dsimp only
    cases TypeExpr.parse text with
    | error e => rfl
    | ok t => simp only [bind_assoc, pure_bind]

/-- The type of a property is the one that its only annotation writes. -/
theorem expr?_of_propertyType {p : Property} {t : TypeExpr} (h : (propertyType path p).result = .ok t) : p.expr? = some t := by
  unfold propertyType at h
  unfold Property.expr?
  cases hd : p.declaredType with
  | error found =>
    rw [hd] at h
    nomatch h
  | ok text =>
    rw [hd] at h
    dsimp only at h ⊢
    cases hp : TypeExpr.parse text with
    | error e =>
      rw [hp] at h
      nomatch h
    | ok s =>
      rw [hp] at h
      exact congrArg some (Except.ok.inj h)

/-- With a stack, the procedure does as the expansion does for the classes that fulfil a condition. -/
def FollowsClasses (m : Model) (options : ExpansionOptions) (Held : List String → Prop) (stack : List String)
    (Due : String → Prop) : Prop :=
  ∀ name, Due name → ∀ (path : PropertyPath) (l : Ledger), l.stack = stack →
    Follows m Held l (m.classInPlace options name path) (m.expand options stack name path)

/-- A name does as its class does. -/
theorem follows_name {Due : String → Prop} (hclasses : FollowsClasses m options Held stack Due) {name : String}
    (hdue : m.classes.contains name = true → Due name) {l : Ledger} (hl : l.stack = stack) :
    Follows m Held l (m.nameInPlace options path name) (m.nameSchema (m.expand options stack) path name) := by
  rw [nameInPlace, nameSchema]
  refine follows_thisCall ?_
  by_cases hc : m.classes.contains name = true
  · rw [if_pos hc, if_pos hc]
    refine follows_enter (measure_lt_of_size ?_) fun l' hl' => ?_
    · exact Nat.one_pos
    · exact hclasses name (hdue hc) path l' (hl'.trans hl)
  · rw [if_neg hc, if_neg hc]
    cases m.enums.get? name with
    | some e => exact follows_pure _
    | none =>
      cases Scalar.ofName? name with
      | some s => exact follows_pure _
      | none => exact follows_perform _

/-- A type does as the classes that it mentions do. -/
theorem follows_type {Due : String → Prop} (hclasses : FollowsClasses m options Held stack Due) {t : TypeExpr}
    (hdue : ∀ d, m.classes.contains d = true → t.Mentions d → Due d) {l : Ledger} (hl : l.stack = stack) :
    Follows m Held l (m.typeInPlace options path t) (m.typeSchema options.tuplePolicy (m.expand options stack) path t) := by
  induction t using TypeExpr.induct generalizing path l with
  | ident name =>
    rw [typeInPlace, typeSchema_ident]
    refine follows_thisCall (follows_enter (measure_lt_of_size ?_) fun l' hl' => ?_)
    · exact Nat.lt_succ_of_le (TypeExpr.size_pos _)
    · exact follows_name hclasses (fun hc => hdue name hc (.ident name)) (hl'.trans hl)
  | generic base arg ih =>
    rw [typeInPlace, typeSchema]
    refine follows_thisCall ?_
    dsimp only
    by_cases hb : TypeExpr.isArrayName base = true
    · rw [if_pos hb, if_pos hb]
      refine follows_enter (measure_lt_of_size ?_) fun l' hl' => ?_
      · simp only [Task.size, TypeExpr.size]
        omega
      · have harg : Follows m Held l' (m.typeInPlace options path.items arg)
            (m.typeSchema options.tuplePolicy (m.expand options stack) path.items arg) :=
          ih (fun d hd hn => hdue d hd (.generic base hn)) (hl'.trans hl)
        exact harg.bind fun s _ _ _ => follows_pure _
    · rw [if_neg hb, if_neg hb]
      exact follows_perform _
  | union members ih =>
    rw [typeInPlace, typeSchema, memberSchemas_eq_mapM]
    refine follows_thisCall ?_
    dsimp only
    refine Follows.bind (follows_mapM fun t ht l' hl' => ?_) fun ss _ _ _ => follows_pure _
    rw [← hl']
    refine follows_enter (measure_lt_of_size ?_) fun l'' hl'' => ?_
    · have := TypeExpr.size_le_sizeAll ht
      simp only [Task.size, TypeExpr.size]
      omega
    · exact ih t ht (fun d hd hn => hdue d hd (.union ht hn)) (hl''.trans (hl'.trans hl))
  | tuple elements =>
    rw [typeInPlace, typeSchema_tuple]
    exact follows_thisCall (follows_perform _)

/-- A class does as the expansion does, from any stack that may be held, where the classes that are come to on it may be pushed
and lead on to classes that are come to. The induction is on the number of classes that are not open. -/
theorem follows_class {Due : List String → String → Prop}
    (hpush : ∀ stack name, Held stack → Due stack name → m.classes.contains name = true → name ∉ stack →
      stack.length ≤ options.maxDepth → Held (stack ++ [name]) ∧ ∀ d, m.Refers name d → Due (stack ++ [name]) d)
    (stack : List String) (hheld : Held stack) : FollowsClasses m options Held stack (Due stack) := by
  induction hn : (m.unopened stack).length using Nat.strong_induction_on generalizing stack with
  | h n ih =>
    subst hn
    intro name hdue path l hl
    subst hl
    rw [classInPlace, expand_eq]
    refine follows_thisCall ?_
    cases hc : m.classes.get? name with
    | none => exact follows_perform _
    | some c =>
      dsimp only
      by_cases hopen : name ∈ l.stack
      · rw [if_pos hopen, if_pos hopen]
        exact follows_perform _
      by_cases hdepth : options.maxDepth < l.stack.length
      · rw [if_neg hopen, if_neg hopen, if_pos hdepth, if_pos hdepth]
        exact follows_perform _
      rw [if_neg hopen, if_neg hopen, if_neg hdepth, if_neg hdepth]
      have hcontains := contains_iff_exists_get?.2 ⟨c, hc⟩
      have hmem := mem_names_of_get? hc
      obtain ⟨hheld', hdue'⟩ := hpush l.stack name hheld hdue hcontains hopen (Nat.le_of_not_lt hdepth)
      have hclasses : FollowsClasses m options Held (l.stack ++ [name]) (Due (l.stack ++ [name])) :=
        ih _ (length_unopened_lt hmem hopen) _ hheld' rfl
      have hproperties : ∀ l' : Ledger, l'.stack = l.stack ++ [name] → Follows m Held l'
          (c.properties.mapM fun p => do
            let t ← perform (propertyType path p)
            enter ⟨l.stack, .cls name⟩ (.type t)
            return (p.name, ← m.typeInPlace options (path.property p.name) t))
          (c.properties.mapM (m.propertySchema options.tuplePolicy (m.inner options l.stack name) path)) := by
        intro l' hl'
        refine follows_mapM fun p hp l₁ hl₁ => ?_
        rw [propertySchema_eq_bind]
        refine (follows_perform _).bind fun t ht l₂ hl₂ => ?_
        have hl₂' : l₂.stack = l.stack ++ [name] := hl₂.trans (hl₁.trans hl')
        refine follows_enter ?_ fun l₃ hl₃ => ?_
        · rw [hl₂']
          exact measure_lt_of_opened hmem hopen
        · have htype : Follows m Held l₃ (m.typeInPlace options (path.property p.name) t)
              (m.typeSchema options.tuplePolicy (m.inner options l.stack name) (path.property p.name) t) := by
            refine follows_type hclasses ?_ (hl₃.trans hl₂')
            intro d hd hn
            exact hdue' d ⟨hd, c, hc, p, hp, t, expr?_of_propertyType ht, hn⟩
          exact htype.bind fun s _ _ _ => follows_pure _
      have hopened : ∀ l' : Ledger, l'.stack = l.stack ++ [name] → Follows m Held l' _ _ := fun l' hl' =>
        (follows_perform (.report (.expandingClass name (l.stack.length + 1)))).bind
          fun _ _ l'' hl'' => hproperties l'' (hl''.trans hl')
      have := follows_push (g := Schema.object name) hheld' hheld hopened
      simpa only [bind_assoc] using this

end Steps

/-- An expansion with one stack that is changed in place. From any ledger, the call for a class, for a type or for a name ends,
with the result and the events of the expansion inside the classes that are open, and each leaves the stack as it found it if it
succeeds; every call made on the way inside another is smaller than that one. In the expansion of a root the stack only ever
holds distinct registered classes, the root first and each referred to by the one before it, no more of them than the limit
allows below the root, and no more than there are classes. -/
theorem expansion_in_place (m : Model) (options : ExpansionOptions) :
    (∀ (l : Ledger) (name : String) (path : PropertyPath), Follows m (fun _ => True) l (m.classInPlace options name path)
      (m.expand options l.stack name path)) ∧
    (∀ (l : Ledger) (t : TypeExpr) (path : PropertyPath), Follows m (fun _ => True) l (m.typeInPlace options path t)
      (m.typeSchema options.tuplePolicy (m.expand options l.stack) path t)) ∧
    (∀ (l : Ledger) (name : String) (path : PropertyPath), Follows m (fun _ => True) l (m.nameInPlace options path name)
      (m.nameSchema (m.expand options l.stack) path name)) ∧
    ∀ root : String, Follows m (m.OpenStack options root) .start (m.classInPlace options root (.root root))
      (m.generate options root) := by
  have hany : ∀ (stack : List String) (name : String), True → True → m.classes.contains name = true → name ∉ stack →
      stack.length ≤ options.maxDepth → True ∧ ∀ d, m.Refers name d → True := by
    intros
    exact ⟨trivial, fun _ _ => trivial⟩
  have hall : ∀ stack, FollowsClasses m options (fun _ => True) stack (fun _ => True) := fun stack =>
    follows_class hany stack trivial
  refine ⟨?_, ?_, ?_, ?_⟩
  · intro l name path
    exact hall l.stack name trivial path l rfl
  · intro l t path
    exact follows_type (hall l.stack) (fun _ _ _ => trivial) rfl
  · intro l name path
    exact follows_name (hall l.stack) (fun _ => trivial) rfl
  · intro root
    -- A class is come to on a stack along a trail whose classes are those on the stack.
    have hpush : ∀ stack name, m.OpenStack options root stack → m.Trail root stack name →
        m.classes.contains name = true → name ∉ stack → stack.length ≤ options.maxDepth →
          m.OpenStack options root (stack ++ [name]) ∧ ∀ d, m.Refers name d → m.Trail root (stack ++ [name]) d :=
      fun stack name hheld htrail hc hopen hdepth =>
        ⟨htrail.openStack_push hheld.nodup hc hopen hdepth, fun d hd => htrail.step hd⟩
    exact follows_class hpush [] openStack_nil root .start (.root root) .start rfl

/-- A model in which a class has an array of a class, and another property after it. -/
def corners : Model :=
  ⟨⟨[⟨"Shape", [⟨"corners", ["array<Point>"]⟩, ⟨"label", ["string"]⟩]⟩, ⟨"Point", [⟨"x", ["float"]⟩]⟩], by decide,
    by decide⟩, ⟨[], List.nodup_nil⟩⟩

/-- The schema of the class with the array. -/
def cornersSchema : Schema :=
  .object "Shape" [("corners", .array (.object "Point" [("x", .scalar .float)])), ("label", .scalar .string)]

/-- The calls that are made inside others when the class with the array is expanded. -/
def cornersCalls : List (Call × Call) :=
  [(⟨[], .cls "Shape"⟩, ⟨["Shape"], .type (.generic "array" (.ident "Point"))⟩),
    (⟨["Shape"], .type (.generic "array" (.ident "Point"))⟩, ⟨["Shape"], .type (.ident "Point")⟩),
    (⟨["Shape"], .type (.ident "Point")⟩, ⟨["Shape"], .name "Point"⟩),
    (⟨["Shape"], .name "Point"⟩, ⟨["Shape"], .cls "Point"⟩),
    (⟨["Shape"], .cls "Point"⟩, ⟨["Shape", "Point"], .type (.ident "float")⟩),
    (⟨["Shape", "Point"], .type (.ident "float")⟩, ⟨["Shape", "Point"], .name "float"⟩),
    (⟨[], .cls "Shape"⟩, ⟨["Shape"], .type (.ident "string")⟩),
    (⟨["Shape"], .type (.ident "string")⟩, ⟨["Shape"], .name "string"⟩)]

theorem expansion_in_place_corners :
    ∃ l, runFrom (corners.classInPlace {} "Shape" (.root "Shape")) .start = some (.ok cornersSchema, l) ∧
      l.stack = [] ∧ l.held = [["Shape"], ["Shape", "Point"], ["Shape"], []] ∧
      (∀ stack ∈ l.held, corners.OpenStack {} "Shape" stack) ∧
      l.calls = cornersCalls ∧ ∀ call ∈ l.calls, call.2.measure corners < call.1.measure corners := by
  have hresult : (corners.generate {} "Shape").result = .ok cornersSchema := by decide +kernel
  obtain ⟨-, -, -, hroot⟩ := expansion_in_place corners {}
  obtain ⟨l, hrun, -, ⟨⟨held, hheld, hopen⟩, ⟨calls, hcalls, hsmaller⟩⟩, hstack⟩ := hroot "Shape"
  have hlog : (runFrom (corners.classInPlace {} "Shape" (.root "Shape")) .start).map
      (fun run => (run.2.held, run.2.calls)) = some ([["Shape"], ["Shape", "Point"], ["Shape"], []], cornersCalls) := by
    -- Procedures that call one another at most ten deep make the same run.
    have hfixed : corners.procedures {} = (Procedures.outermost corners {})^[10] (corners.procedures {}) :=
      (Function.iterate_fixed (corners.outermost_procedures {}) 10).symm
    change (runFrom ((corners.procedures {}).cls "Shape" (.root "Shape")) .start).map _ = _
    rw [hfixed]
    decide +kernel
  rw [hrun, Option.map_some, Option.some_inj, Prod.mk.injEq] at hlog
  rw [hresult] at hrun hstack
  refine ⟨l, hrun, hstack _ rfl, hlog.1, ?_, hlog.2, ?_⟩
  · rw [hheld]
    exact hopen
  · rw [hcalls]
    exact hsmaller

end Model

end ClassSchema
