import ClassSchema.Proofs.Gathering
import ClassSchema.Proofs.JsonTokens
import Mathlib.Data.List.Forall2
import Mathlib.Data.Nat.Init

/-!
# What decoders read

A decoder reads values that mean something (`Decoder.Reads`): it succeeds exactly where lexemes start with the tokens of such
a value, has then what the value means, and leaves the lexemes after it. So a typed decoder, which reads in one pass, agrees
with reading a value whatever it is and interpreting it afterwards.

Strings, arrays and objects are read so if their parts are (`reads_string`, `reads_list`, `reads_map`), and so is any value
(`reads_value`). Where the members of an object are gathered, each of them changes what has been gathered (`Gathers`).
-/

namespace ClassSchema

namespace Decoder

variable {α β σ : Type}

/-! ## Results -/

/-- A decoder has this value and leaves these lexemes. -/
def Gives {ts : List Lexeme} (x : Except JsonError (Decoded α ts)) (a : α) (rest : List Lexeme) : Prop :=
  ∃ d, x = .ok d ∧ d.value = a ∧ d.rest = rest

section Gives

variable {ts us rest : List Lexeme} {a : α} {b : β}

theorem gives_ok {d : Decoded α ts} : Gives (.ok d) a rest ↔ a = d.value ∧ rest = d.rest := by
  constructor
  · rintro ⟨d', h, rfl, rfl⟩
    cases h
    exact ⟨rfl, rfl⟩
  · rintro ⟨rfl, rfl⟩
    exact ⟨d, rfl, rfl, rfl⟩

theorem not_gives_error {e : JsonError} : ¬Gives (.error e : Except JsonError (Decoded α ts)) a rest := by
  rintro ⟨d, h, -⟩
  nomatch h

theorem not_gives_fail {site : JsonSite} {fault : JsonFault} {position : Position} :
    ¬Gives (site.fail fault position : Except JsonError (Decoded α ts)) a rest := not_gives_error

/-- A value of a wrong type is never read. -/
theorem not_gives_wrongType {site : JsonSite} {wanted : WantedValue} {t : Lexeme} :
    ¬Gives (wrongType site wanted t : Except JsonError (Decoded α ts)) a rest := by
  unfold wrongType
  split <;> exact not_gives_fail

/-- One step after another has what the second has. -/
theorem gives_bind {x : Except JsonError β} {f : β → Except JsonError (Decoded α ts)} :
    Gives (x >>= f) a rest ↔ ∃ b, x = .ok b ∧ Gives (f b) a rest := by
  cases x with
  | error e => exact iff_of_false not_gives_error (by rintro ⟨b, h, -⟩; nomatch h)
  | ok b =>
    constructor
    · intro h
      exact ⟨b, rfl, h⟩
    · rintro ⟨b', h, hb⟩
      cases h
      exact hb

/-- Lexemes in front change nothing. -/
theorem gives_map_after {x : Except JsonError (Decoded α us)} {h : us.length ≤ ts.length} :
    Gives (x.map (·.after h)) a rest ↔ Gives x a rest := by
  cases x with
  | error e => exact iff_of_false not_gives_error not_gives_error
  | ok d =>
    have hafter : Gives (.ok (d.after h)) a rest ↔ a = d.value ∧ rest = d.rest := gives_ok
    exact hafter.trans gives_ok.symm

/-- What is made of a value changes only the value. -/
theorem gives_map {x : Except JsonError (Decoded β ts)} {f : β → α} :
    Gives (x.map (·.map f)) a rest ↔ ∃ b, Gives x b rest ∧ f b = a := by
  cases x with
  | error e => exact iff_of_false not_gives_error (by rintro ⟨b, h, -⟩; exact not_gives_error h)
  | ok d =>
    refine gives_ok.trans ?_
    constructor
    · rintro ⟨rfl, rfl⟩
      exact ⟨d.value, gives_ok.2 ⟨rfl, rfl⟩, rfl⟩
    · rintro ⟨b, h, rfl⟩
      obtain ⟨rfl, rfl⟩ := gives_ok.1 h
      exact ⟨rfl, rfl⟩

/-- What is made of a value, with lexemes in front. -/
theorem gives_map_map_after {x : Except JsonError (Decoded β us)} {f : β → α} {h : us.length ≤ ts.length} :
    Gives (x.map fun d => (d.map f).after h) a rest ↔ ∃ b, Gives x b rest ∧ f b = a := by
  rw [← gives_map, ← gives_map_after (x := x.map (·.map f)) (h := h)]
  cases x <;> rfl

end Gives

/-! ## Reading -/

/-- A decoder reads exactly the values that mean something, and has what they mean. -/
def Reads (decode : Decoder α) (Means : Json → α → Prop) : Prop :=
  ∀ site ts a rest, Gives (decode site ts) a rest ↔ ∃ v, StartsWith ts v.tokens rest ∧ Means v a

/-- A decoder reads the same values under any description of what they mean. -/
theorem Reads.congr {decode : Decoder α} {Means Means' : Json → α → Prop} (h : Reads decode Means)
    (hiff : ∀ v a, Means v a ↔ Means' v a) : Reads decode Means' := by
  intro site ts a rest
  rw [h site ts a rest]
  simp only [hiff]

/-- A string means itself. -/
theorem reads_string : Reads string fun v s => v = .string s := by
  intro site ts s rest
  unfold string
  constructor
  · intro h
    split at h
    · exact absurd h not_gives_fail
    · next t us =>
      split at h
      · next _ hs =>
        obtain ⟨rfl, rfl⟩ := gives_ok.1 h
        exact ⟨.string _, startsWith_singleton.2 ⟨t, rfl, hs⟩, rfl⟩
      · exact absurd h not_gives_wrongType
  · rintro ⟨v, hv, rfl⟩
    obtain ⟨t, rfl, ht⟩ := startsWith_singleton.1 hv
    simp only [ht]
    exact gives_ok.2 ⟨rfl, rfl⟩

/-! ## Separators -/

/-- Between the entries stands a comma, and after it no closing bracket; after the last entry stands the closing bracket. -/
theorem gives_separator {enclosure : Enclosure} (hcomma : enclosure.closing ≠ .comma) (site : JsonSite)
    {ts rest : List Lexeme} {more : Bool} :
    Gives (separator enclosure site ts) more rest ↔
      more = false ∧ StartsWith ts [enclosure.closing] rest ∨
        more = true ∧ StartsWith ts [.comma] rest ∧ ∃ u us, rest = u :: us ∧ u.token ≠ enclosure.closing := by
  unfold separator
  constructor
  · intro h
    split at h
    · exact absurd h not_gives_fail
    · next t others =>
      split at h
      · next hclosing =>
        obtain ⟨rfl, rfl⟩ := gives_ok.1 h
        exact Or.inl ⟨rfl, startsWith_singleton.2 ⟨t, rfl, hclosing⟩⟩
      · split at h
        · next hsep =>
          split at h
          · exact absurd h not_gives_fail
          · next u us =>
            split at h
            · exact absurd h not_gives_fail
            · next hu =>
              obtain ⟨rfl, rfl⟩ := gives_ok.1 h
              exact Or.inr ⟨rfl, startsWith_singleton.2 ⟨t, rfl, hsep⟩, u, us, rfl, hu⟩
        · exact absurd h not_gives_fail
  · rintro (⟨rfl, h⟩ | ⟨rfl, h, u, us, rfl, hu⟩)
    · obtain ⟨t, rfl, ht⟩ := startsWith_singleton.1 h
      simp only [ht, if_true]
      exact gives_ok.2 ⟨rfl, rfl⟩
    · obtain ⟨t, rfl, ht⟩ := startsWith_singleton.1 h
      simp only [ht, hcomma.symm, if_false, if_true, hu]
      exact gives_ok.2 ⟨rfl, rfl⟩

/-- Lexemes that start with a value do not start with a closing bracket. -/
theorem ne_closeArray_of_startsWith {v : Json} {ts rest : List Lexeme} (h : StartsWith ts v.tokens rest) :
    ∃ u us, ts = u :: us ∧ u.token ≠ .closeArray := by
  obtain ⟨t, tail, htokens, hstart⟩ := v.exists_tokens_eq_cons
  rw [htokens] at h
  obtain ⟨u, us, rfl, rfl, -⟩ := startsWith_cons.1 h
  refine ⟨u, us, rfl, ?_⟩
  intro hclose
  rw [hclose] at hstart
  nomatch hstart

/-! ## Arrays -/

section Arrays

variable {decodeItem : Decoder α} {Means : Json → α → Prop}

/-- The items of an array that has any: each is read by itself. -/
theorem gives_itemsFrom (h : Reads decodeItem Means) {site : JsonSite} {index : Nat} {ts rest : List Lexeme}
    {as : List α} :
    Gives (itemsFrom decodeItem site index ts) as rest ↔
      ∃ v vs, StartsWith ts (Json.listed .closeArray (Json.itemTokens (v :: vs))) rest ∧
        List.Forall₂ Means (v :: vs) as := by
  have hcomma : Enclosure.array.closing ≠ .comma := nofun
  -- By induction on the lexemes left: an item and the comma after it take some of them.
  induction hn : ts.length using Nat.strong_induction_on generalizing index ts as with
  | h n ih =>
    subst hn
    unfold itemsFrom
    rw [gives_bind]
    constructor
    · rintro ⟨head, hhead, hmore⟩
      obtain ⟨more, hmore, htail⟩ := gives_bind.1 hmore
      obtain ⟨v, hv, hmeans⟩ := (h _ _ _ _).1 ⟨head, hhead, rfl, rfl⟩
      rcases (gives_separator hcomma _).1 ⟨more, hmore, rfl, rfl⟩ with ⟨hvalue, hclose⟩ | ⟨hvalue, hsep, -⟩
      · rw [if_neg (by simp [hvalue])] at htail
        obtain ⟨rfl, rfl⟩ := gives_ok.1 htail
        exact ⟨v, [], startsWith_listed_singleton.2 ⟨_, hv, hclose⟩, .cons hmeans .nil⟩
      · rw [if_pos hvalue] at htail
        obtain ⟨tail, hrest, hresult⟩ := gives_bind.1 htail
        obtain ⟨rfl, rfl⟩ := gives_ok.1 hresult
        have hlt : more.rest.length < ts.length := Nat.lt_trans more.shorter head.shorter
        obtain ⟨w, ws, hws, hall⟩ := (ih _ hlt rfl).1 ⟨tail, hrest, rfl, rfl⟩
        exact ⟨v, w :: ws, startsWith_listed_cons_cons.2 ⟨_, _, hv, hsep, hws⟩, .cons hmeans hall⟩
    · rintro ⟨v, vs, hvs, hall⟩
      cases hall with
      | @cons _ a _ as hmeans hall =>
        cases hall with
        | nil =>
          obtain ⟨between, hv, hclose⟩ := startsWith_listed_singleton.1 hvs
          obtain ⟨head, hhead, rfl, rfl⟩ := (h (site.item index) _ _ _).2 ⟨v, hv, hmeans⟩
          obtain ⟨more, hmore, hvalue, rfl⟩ := (gives_separator hcomma site).2 (Or.inl ⟨rfl, hclose⟩)
          refine ⟨head, hhead, gives_bind.2 ⟨more, hmore, ?_⟩⟩
          rw [if_neg (by simp [hvalue])]
          exact gives_ok.2 ⟨rfl, rfl⟩
        | @cons w b ws bs hw hws =>
          obtain ⟨between, others, hv, hsep, hothers⟩ := startsWith_listed_cons_cons.1 hvs
          obtain ⟨head, hhead, rfl, rfl⟩ := (h (site.item index) _ _ _).2 ⟨v, hv, hmeans⟩
          obtain ⟨_, hfirst⟩ := exists_startsWith_of_listed hothers
          obtain ⟨more, hmore, hvalue, rfl⟩ := (gives_separator hcomma site).2
            (Or.inr ⟨rfl, hsep, ne_closeArray_of_startsWith hfirst⟩)
          have hlt : more.rest.length < ts.length := Nat.lt_trans more.shorter head.shorter
          obtain ⟨tail, htail, htailValue, rfl⟩ :=
            (ih _ hlt rfl).2 ⟨w, ws, hothers, .cons hw hws⟩
          refine ⟨head, hhead, gives_bind.2 ⟨more, hmore, ?_⟩⟩
          rw [if_pos hvalue, ← htailValue]
          exact gives_bind.2 ⟨tail, htail, gives_ok.2 ⟨rfl, rfl⟩⟩

/-- The items of an array, to its closing bracket. -/
theorem gives_items (h : Reads decodeItem Means) {site : JsonSite} {ts rest : List Lexeme} {as : List α} :
    Gives (items decodeItem site ts) as rest ↔
      ∃ vs, StartsWith ts (Json.listed .closeArray (Json.itemTokens vs)) rest ∧ List.Forall₂ Means vs as := by
  unfold items
  constructor
  · intro hgives
    split at hgives
    · exact absurd hgives not_gives_fail
    · next t us =>
      split at hgives
      · next hclose =>
        obtain ⟨rfl, rfl⟩ := gives_ok.1 hgives
        exact ⟨[], startsWith_singleton.2 ⟨t, rfl, hclose⟩, .nil⟩
      · obtain ⟨v, vs, hvs, hall⟩ := (gives_itemsFrom h).1 hgives
        exact ⟨v :: vs, hvs, hall⟩
  · rintro ⟨vs, hvs, hall⟩
    cases vs with
    | nil =>
      cases hall
      obtain ⟨t, rfl, ht⟩ := startsWith_singleton.1 hvs
      simp only [ht, if_true]
      exact gives_ok.2 ⟨rfl, rfl⟩
    | cons v vs =>
      obtain ⟨_, hfirst⟩ := exists_startsWith_of_listed hvs
      obtain ⟨u, us, rfl, hu⟩ := ne_closeArray_of_startsWith hfirst
      simp only [hu, if_false]
      exact (gives_itemsFrom h).2 ⟨v, vs, hvs, hall⟩

/-- An array means the list of what its items mean. -/
theorem reads_list (h : Reads decodeItem Means) :
    Reads (list decodeItem) fun v as => ∃ items, v = .array items ∧ List.Forall₂ Means items as := by
  intro site ts as rest
  unfold list
  constructor
  · intro hgives
    split at hgives
    · exact absurd hgives not_gives_fail
    · next t us =>
      split at hgives
      · next hopen =>
        obtain ⟨items, hitems, hall⟩ := (gives_items h).1 (gives_map_after.1 hgives)
        exact ⟨.array items, startsWith_cons.2 ⟨t, us, rfl, hopen, hitems⟩, items, rfl, hall⟩
      · exact absurd hgives not_gives_wrongType
  · rintro ⟨v, hv, items, rfl, hall⟩
    obtain ⟨t, us, rfl, hopen, hitems⟩ := startsWith_cons.1 hv
    simp only [hopen, if_true]
    exact gives_map_after.2 ((gives_items h).2 ⟨items, hitems, hall⟩)

end Arrays

/-! ## Objects -/

/-- What is gathered from members one after the other, each of which adds to what has been gathered before it. -/
inductive Gathers (Adds : σ → String → Json → σ → Prop) : σ → List (String × Json) → σ → Prop where
  | nil (s : σ) : Gathers Adds s [] s
  | cons {s s' s'' : σ} {name : String} {v : Json} {members : List (String × Json)} :
      Adds s name v s' → Gathers Adds s' members s'' → Gathers Adds s ((name, v) :: members) s''

/-- A step reads the value of a member after its colon, and adds it to what has been gathered. -/
def StepReads (step : MemberStep σ) (Adds : σ → String → Json → σ → Prop) : Prop :=
  ∀ s name site ts s' rest, Gives (step s name site ts) s' rest ↔
    ∃ v, StartsWith ts (.colon :: v.tokens) rest ∧ Adds s name v s'

section Objects

variable {step : MemberStep σ} {Adds : σ → String → Json → σ → Prop}

/-- The name of a member is a string. -/
theorem gives_memberName (site : JsonSite) {ts rest : List Lexeme} {name : String} :
    Gives (memberName site ts) name rest ↔ StartsWith ts [.string name] rest := by
  unfold memberName
  rw [startsWith_singleton]
  constructor
  · intro h
    split at h
    · exact absurd h not_gives_fail
    · next t us =>
      split at h
      · next _ hs =>
        obtain ⟨rfl, rfl⟩ := gives_ok.1 h
        exact ⟨t, rfl, hs⟩
      · exact absurd h not_gives_fail
      · exact absurd h not_gives_fail
  · rintro ⟨t, rfl, ht⟩
    simp only [ht]
    exact gives_ok.2 ⟨rfl, rfl⟩

/-- The value of a member stands after a colon. -/
theorem gives_memberValue {decodeValue : Decoder α} {Means : Json → α → Prop} (h : Reads decodeValue Means)
    {name : String} {site : JsonSite} {ts rest : List Lexeme} {a : α} :
    Gives (memberValue decodeValue name site ts) a rest ↔
      ∃ v, StartsWith ts (.colon :: v.tokens) rest ∧ Means v a := by
  unfold memberValue
  constructor
  · intro hgives
    split at hgives
    · exact absurd hgives not_gives_fail
    · next t us =>
      split at hgives
      · next hcolon =>
        obtain ⟨v, hv, hmeans⟩ := (h _ _ _ _).1 (gives_map_after.1 hgives)
        exact ⟨v, startsWith_cons.2 ⟨t, us, rfl, hcolon, hv⟩, hmeans⟩
      · exact absurd hgives not_gives_fail
  · rintro ⟨v, hv, hmeans⟩
    obtain ⟨t, us, rfl, hcolon, hv⟩ := startsWith_cons.1 hv
    simp only [hcolon]
    exact gives_map_after.2 ((h _ _ _ _).2 ⟨v, hv, hmeans⟩)

/-- Lexemes that start with a member do not start with a closing brace. -/
theorem ne_closeObject_of_startsWith {name : String} {tokens : List JsonToken} {ts rest : List Lexeme}
    (h : StartsWith ts (.string name :: tokens) rest) : ∃ u us, ts = u :: us ∧ u.token ≠ .closeObject := by
  obtain ⟨u, us, rfl, hu, -⟩ := startsWith_cons.1 h
  refine ⟨u, us, rfl, ?_⟩
  rw [hu]
  exact nofun

/-- The members of an object that has any: each adds to what has been gathered. -/
theorem gives_membersFrom (h : StepReads step Adds) {site : JsonSite} {s s' : σ} {ts rest : List Lexeme} :
    Gives (membersFrom step site s ts) s' rest ↔
      ∃ entry members, StartsWith ts (Json.listed .closeObject (Json.memberTokens (entry :: members))) rest ∧
        Gathers Adds s (entry :: members) s' := by
  have hcomma : Enclosure.object.closing ≠ .comma := nofun
  induction hn : ts.length using Nat.strong_induction_on generalizing ts s with
  | h n ih =>
    subst hn
    unfold membersFrom
    rw [gives_bind]
    constructor
    · rintro ⟨name, hname, hhead⟩
      obtain ⟨head, hhead, hmore⟩ := gives_bind.1 hhead
      obtain ⟨more, hmore, htail⟩ := gives_bind.1 hmore
      have hstart := (gives_memberName _).1 ⟨name, hname, rfl, rfl⟩
      obtain ⟨v, hv, hadds⟩ := (h _ _ _ _ _ _).1 ⟨head, hhead, rfl, rfl⟩
      have hentry : StartsWith ts (.string name.value :: .colon :: v.tokens) head.rest :=
        startsWith_append.2 ⟨_, hstart, hv⟩
      rcases (gives_separator hcomma _).1 ⟨more, hmore, rfl, rfl⟩ with ⟨hvalue, hclose⟩ | ⟨hvalue, hsep, -⟩
      · rw [if_neg (by simp [hvalue])] at htail
        obtain ⟨rfl, rfl⟩ := gives_ok.1 htail
        exact ⟨(name.value, v), [], startsWith_listed_singleton.2 ⟨_, hentry, hclose⟩, .cons hadds (.nil _)⟩
      · rw [if_pos hvalue] at htail
        obtain ⟨tail, hrest, hresult⟩ := gives_bind.1 htail
        obtain ⟨rfl, rfl⟩ := gives_ok.1 hresult
        have hlt : more.rest.length < ts.length :=
          Nat.lt_trans more.shorter (Nat.lt_trans head.shorter name.shorter)
        obtain ⟨next, members, hmembers, hgathers⟩ := (ih _ hlt rfl).1 ⟨tail, hrest, rfl, rfl⟩
        exact ⟨(name.value, v), next :: members, startsWith_listed_cons_cons.2 ⟨_, _, hentry, hsep, hmembers⟩,
          .cons hadds hgathers⟩
    · rintro ⟨⟨name, v⟩, members, hmembers, hgathers⟩
      cases hgathers with
      | cons hadds hgathers =>
        cases members with
        | nil =>
          cases hgathers
          obtain ⟨between, hentry, hclose⟩ := startsWith_listed_singleton.1 hmembers
          obtain ⟨afterName, hname, hv⟩ := startsWith_cons_iff.1 hentry
          obtain ⟨name, hread, rfl, rfl⟩ := (gives_memberName site).2 hname
          obtain ⟨head, hhead, rfl, rfl⟩ := (h _ _ site _ _ _).2 ⟨v, hv, hadds⟩
          obtain ⟨more, hmore, hvalue, rfl⟩ :=
            (gives_separator hcomma site.unknown).2 (Or.inl ⟨rfl, hclose⟩)
          refine ⟨name, hread, gives_bind.2 ⟨head, hhead, gives_bind.2 ⟨more, hmore, ?_⟩⟩⟩
          rw [if_neg (by simp [hvalue])]
          exact gives_ok.2 ⟨rfl, rfl⟩
        | cons next members =>
          obtain ⟨between, others, hentry, hsep, hothers⟩ := startsWith_listed_cons_cons.1 hmembers
          obtain ⟨afterName, hname, hv⟩ := startsWith_cons_iff.1 hentry
          obtain ⟨name, hread, rfl, rfl⟩ := (gives_memberName site).2 hname
          obtain ⟨head, hhead, rfl, rfl⟩ := (h _ _ site _ _ _).2 ⟨v, hv, hadds⟩
          obtain ⟨_, hfirst⟩ := exists_startsWith_of_listed hothers
          obtain ⟨more, hmore, hvalue, rfl⟩ := (gives_separator hcomma site.unknown).2
            (Or.inr ⟨rfl, hsep, ne_closeObject_of_startsWith hfirst⟩)
          have hlt : more.rest.length < ts.length :=
            Nat.lt_trans more.shorter (Nat.lt_trans head.shorter name.shorter)
          obtain ⟨tail, htail, rfl, rfl⟩ := (ih _ hlt rfl).2 ⟨next, members, hothers, hgathers⟩
          refine ⟨name, hread, gives_bind.2 ⟨head, hhead, gives_bind.2 ⟨more, hmore, ?_⟩⟩⟩
          rw [if_pos hvalue]
          exact gives_bind.2 ⟨tail, htail, gives_ok.2 ⟨rfl, rfl⟩⟩

/-- The members of an object, to its closing brace. -/
theorem gives_members (h : StepReads step Adds) {init s : σ} {site : JsonSite} {ts rest : List Lexeme} :
    Gives (members step init site ts) s rest ↔
      ∃ members, StartsWith ts (Json.listed .closeObject (Json.memberTokens members)) rest ∧
        Gathers Adds init members s := by
  unfold members
  constructor
  · intro hgives
    split at hgives
    · exact absurd hgives not_gives_fail
    · next t us =>
      split at hgives
      · next hclose =>
        obtain ⟨rfl, rfl⟩ := gives_ok.1 hgives
        exact ⟨[], startsWith_singleton.2 ⟨t, rfl, hclose⟩, .nil _⟩
      · obtain ⟨entry, members, hmembers, hgathers⟩ := (gives_membersFrom h).1 hgives
        exact ⟨entry :: members, hmembers, hgathers⟩
  · rintro ⟨members, hmembers, hgathers⟩
    cases members with
    | nil =>
      cases hgathers
      obtain ⟨t, rfl, ht⟩ := startsWith_singleton.1 hmembers
      simp only [ht, if_true]
      exact gives_ok.2 ⟨rfl, rfl⟩
    | cons entry members =>
      obtain ⟨_, hfirst⟩ := exists_startsWith_of_listed hmembers
      obtain ⟨u, us, rfl, hu⟩ := ne_closeObject_of_startsWith hfirst
      simp only [hu, if_false]
      exact (gives_membersFrom h).2 ⟨entry, members, hmembers, hgathers⟩

end Objects

/-! ## Objects with values of one type -/

/-- A member and what it means: the name, and what its value means. -/
def MemberMeans (Means : Json → α → Prop) (entry : String × Json) (pair : String × α) : Prop :=
  entry.1 = pair.1 ∧ Means entry.2 pair.2

/-- Members and what they mean have the same names. -/
theorem map_fst_eq {Means : Json → α → Prop} {members : List (String × Json)} {pairs : List (String × α)}
    (h : List.Forall₂ (MemberMeans Means) members pairs) : members.map (·.1) = pairs.map (·.1) := by
  induction h with
  | nil => rfl
  | cons hentry _ ih => rw [List.map_cons, List.map_cons, hentry.1, ih]

section Maps

variable {decodeValue : Decoder α} {Means : Json → α → Prop}

/-- A step that reads the value of a member and puts what it means to what has been gathered. -/
theorem stepReads_memberValue (h : Reads decodeValue Means) (put : String → α → σ → σ) :
    StepReads (fun s name site ts => (memberValue decodeValue name site ts).map (·.map (put name · s)))
      fun s name v s' => ∃ a, Means v a ∧ put name a s = s' := by
  intro s name site ts s' rest
  rw [gives_map]
  constructor
  · rintro ⟨a, hgives, rfl⟩
    obtain ⟨v, hv, hmeans⟩ := (gives_memberValue h).1 hgives
    exact ⟨v, hv, a, hmeans, rfl⟩
  · rintro ⟨v, hv, a, hmeans, rfl⟩
    exact ⟨a, (gives_memberValue h).2 ⟨v, hv, hmeans⟩, rfl⟩

/-- Members that are put one after the other: what they mean, put one after the other. -/
theorem gathers_put_iff (put : String → α → σ → σ) {s s' : σ} {members : List (String × Json)} :
    Gathers (fun s name v s' => ∃ a, Means v a ∧ put name a s = s') s members s' ↔
      ∃ pairs, List.Forall₂ (MemberMeans Means) members pairs ∧ s' = pairs.foldl (fun s p => put p.1 p.2 s) s := by
  constructor
  · intro h
    induction h with
    | nil s => exact ⟨[], .nil, rfl⟩
    | cons hadds _ ih =>
      obtain ⟨a, hmeans, rfl⟩ := hadds
      obtain ⟨pairs, hpairs, rfl⟩ := ih
      exact ⟨(_, a) :: pairs, .cons ⟨rfl, hmeans⟩ hpairs, rfl⟩
  · rintro ⟨pairs, hpairs, rfl⟩
    induction hpairs generalizing s with
    | nil => exact .nil s
    | @cons entry pair members pairs hentry _ ih =>
      obtain ⟨name, v⟩ := entry
      obtain ⟨rfl, hmeans⟩ := hentry
      exact .cons ⟨pair.2, hmeans, rfl⟩ ih

/-- An object means what its members mean, gathered under their names. -/
def MapMeans (Means : Json → α → Prop) (v : Json) (found : List (String × α)) : Prop :=
  ∃ members pairs, v = .object members ∧ List.Forall₂ (MemberMeans Means) members pairs ∧ found = gathered pairs

/-- An object with values of one type is read so if its values are. -/
theorem reads_map (h : Reads decodeValue Means) : Reads (map decodeValue) (MapMeans Means) := by
  have hstep := stepReads_memberValue h put
  intro site ts found rest
  unfold map
  constructor
  · intro hgives
    split at hgives
    · exact absurd hgives not_gives_fail
    · next t us =>
      split at hgives
      · next hopen =>
        obtain ⟨members, hmembers, hgathers⟩ := (gives_members hstep).1 (gives_map_after.1 hgives)
        obtain ⟨pairs, hpairs, rfl⟩ := (gathers_put_iff put).1 hgathers
        exact ⟨.object members, startsWith_cons.2 ⟨t, us, rfl, hopen, hmembers⟩, members, pairs, rfl, hpairs, rfl⟩
      · exact absurd hgives not_gives_wrongType
  · rintro ⟨v, hv, members, pairs, rfl, hpairs, rfl⟩
    obtain ⟨t, us, rfl, hopen, hmembers⟩ := startsWith_cons.1 hv
    simp only [hopen, if_true]
    refine gives_map_after.2 ((gives_members hstep).2 ⟨members, hmembers, ?_⟩)
    exact (gathers_put_iff put).2 ⟨pairs, hpairs, rfl⟩

end Maps

/-! ## Any value -/

/-- Items that mean themselves. -/
theorem forall₂_self_iff {P : Json → Prop} {items ws : List Json} :
    List.Forall₂ (fun v w => w = v ∧ P v) items ws ↔ ws = items ∧ ∀ v ∈ items, P v := by
  constructor
  · intro h
    induction h with
    | nil => simp
    | cons hv _ ih =>
      obtain ⟨rfl, hP⟩ := hv
      obtain ⟨rfl, hall⟩ := ih
      exact ⟨rfl, List.forall_mem_cons.2 ⟨hP, hall⟩⟩
  · rintro ⟨rfl, hall⟩
    exact List.forall₂_same.2 fun v hv => ⟨rfl, hall v hv⟩

/-- Members that mean themselves. -/
theorem forall₂_memberMeans_self_iff {P : Json → Prop} {members pairs : List (String × Json)} :
    List.Forall₂ (MemberMeans fun v w => w = v ∧ P v) members pairs ↔
      pairs = members ∧ ∀ entry ∈ members, P entry.2 := by
  constructor
  · intro h
    induction h with
    | nil => simp
    | cons hentry _ ih =>
      obtain ⟨hname, hvalue, hP⟩ := hentry
      obtain ⟨rfl, hall⟩ := ih
      exact ⟨by rw [Prod.ext hname.symm hvalue], List.forall_mem_cons.2 ⟨hP, hall⟩⟩
  · rintro ⟨rfl, hall⟩
    exact List.forall₂_same.2 fun entry hentry => ⟨rfl, rfl, hall entry hentry⟩

/-- Members that are put at the end, one after the other. -/
theorem foldl_concat_pairs (pairs s : List (String × Json)) :
    pairs.foldl (fun s p => s ++ [(p.1, p.2)]) s = s ++ pairs := by
  induction pairs generalizing s with
  | nil => simp
  | cons p pairs ih => rw [List.foldl_cons, ih, List.append_assoc, List.singleton_append]

/-- What a scalar token stands for is a value by itself. -/
theorem exists_startsWith_of_scalar {t : Lexeme} {us rest : List Lexeme} {v w : Json} {room : Nat}
    {h : us.length < (t :: us).length} (hgives : Gives (.ok ⟨v, us, h⟩) w rest) (htokens : v.tokens = [t.token])
    (hdepth : v.depth = 0) : ∃ v, StartsWith (t :: us) v.tokens rest ∧ w = v ∧ v.depth ≤ room := by
  obtain ⟨rfl, rfl⟩ := gives_ok.1 hgives
  refine ⟨_, ?_, rfl, hdepth ▸ Nat.zero_le room⟩
  rw [htokens]
  exact startsWith_singleton.2 ⟨t, rfl, rfl⟩

/-- The members of an object are kept as they are written. -/
theorem gives_keptMembers {room : Nat} (h : Reads (value room) fun v w => w = v ∧ v.depth ≤ room) {site : JsonSite}
    {ts rest : List Lexeme} {found : List (String × Json)} :
    Gives (members (fun gathered name site ts =>
        (memberValue (value room) name site ts).map (·.map fun v => gathered ++ [(name, v)])) [] site ts) found rest ↔
      StartsWith ts (Json.listed .closeObject (Json.memberTokens found)) rest ∧ Json.memberDepth found ≤ room := by
  rw [gives_members (stepReads_memberValue h fun name v gathered => gathered ++ [(name, v)])]
  simp only [gathers_put_iff, forall₂_memberMeans_self_iff, foldl_concat_pairs, List.nil_append, Json.memberDepth_le_iff]
  constructor
  · rintro ⟨members, hmembers, pairs, ⟨rfl, hdepth⟩, rfl⟩
    exact ⟨hmembers, hdepth⟩
  · rintro ⟨hmembers, hdepth⟩
    exact ⟨found, hmembers, found, ⟨rfl, hdepth⟩, rfl⟩

/-- The items of an array are kept as they are written. -/
theorem gives_keptItems {room : Nat} (h : Reads (value room) fun v w => w = v ∧ v.depth ≤ room) {site : JsonSite}
    {ts rest : List Lexeme} {found : List Json} :
    Gives (items (value room) site ts) found rest ↔
      StartsWith ts (Json.listed .closeArray (Json.itemTokens found)) rest ∧ Json.itemDepth found ≤ room := by
  rw [gives_items h]
  simp only [forall₂_self_iff, Json.itemDepth_le_iff]
  constructor
  · rintro ⟨items, hitems, rfl, hdepth⟩
    exact ⟨hitems, hdepth⟩
  · rintro ⟨hitems, hdepth⟩
    exact ⟨found, hitems, rfl, hdepth⟩

/-- Any value that does not open too many brackets inside one another means itself. -/
theorem reads_value (room : Nat) : Reads (value room) fun v w => w = v ∧ v.depth ≤ room := by
  -- Behind a bracket there is room for one bracket less.
  induction room using Nat.strong_induction_on with
  | h room ih =>
    intro site ts w rest
    unfold value
    constructor
    · intro h
      split at h
      · exact absurd h not_gives_fail
      · next t us =>
        split at h
        · next ht => exact exists_startsWith_of_scalar h (by rw [ht, Json.tokens]) rfl
        · next b ht => exact exists_startsWith_of_scalar h (by rw [ht, Json.tokens]) rfl
        · next n ht => exact exists_startsWith_of_scalar h (by rw [ht, Json.tokens]) rfl
        · next s ht => exact exists_startsWith_of_scalar h (by rw [ht, Json.tokens]) rfl
        · next hopen =>
          split at h
          · exact absurd h not_gives_fail
          · next room =>
            obtain ⟨items, hgives, rfl⟩ := gives_map_map_after.1 h
            obtain ⟨hitems, hdepth⟩ := (gives_keptItems (ih room (Nat.lt_succ_self room))).1 hgives
            exact ⟨.array items, startsWith_cons.2 ⟨t, us, rfl, hopen, hitems⟩, rfl, Nat.succ_le_succ hdepth⟩
        · next hopen =>
          split at h
          · exact absurd h not_gives_fail
          · next room =>
            obtain ⟨members, hgives, rfl⟩ := gives_map_map_after.1 h
            obtain ⟨hmembers, hdepth⟩ := (gives_keptMembers (ih room (Nat.lt_succ_self room))).1 hgives
            exact ⟨.object members, startsWith_cons.2 ⟨t, us, rfl, hopen, hmembers⟩, rfl, Nat.succ_le_succ hdepth⟩
        · exact absurd h not_gives_fail
        · exact absurd h not_gives_fail
        all_goals exact absurd h not_gives_fail
    · rintro ⟨v, hv, rfl, hdepth⟩
      cases w with
      | null | bool b | number n | string s =>
        obtain ⟨t, rfl, ht⟩ := startsWith_singleton.1 hv
        simp only [ht]
        exact gives_ok.2 ⟨rfl, rfl⟩
      | array items =>
        obtain ⟨t, us, rfl, hopen, hitems⟩ := startsWith_cons.1 hv
        cases room with
        | zero => exact absurd hdepth (Nat.not_succ_le_zero _)
        | succ room =>
          simp only [hopen]
          refine gives_map_map_after.2 ⟨items, ?_, rfl⟩
          exact (gives_keptItems (ih room (Nat.lt_succ_self room))).2 ⟨hitems, Nat.le_of_succ_le_succ hdepth⟩
      | object members =>
        obtain ⟨t, us, rfl, hopen, hmembers⟩ := startsWith_cons.1 hv
        cases room with
        | zero => exact absurd hdepth (Nat.not_succ_le_zero _)
        | succ room =>
          simp only [hopen]
          refine gives_map_map_after.2 ⟨members, ?_, rfl⟩
          exact (gives_keptMembers (ih room (Nat.lt_succ_self room))).2 ⟨hmembers, Nat.le_of_succ_le_succ hdepth⟩

/-- Lexemes start with the tokens of one value only. -/
theorem eq_of_startsWith {ts rest rest' : List Lexeme} {v w : Json} (hv : StartsWith ts v.tokens rest)
    (hw : StartsWith ts w.tokens rest') : v = w ∧ rest = rest' := by
  -- The decoder has one result for the lexemes, and with enough room for both it is either value.
  have hread := reads_value (max v.depth w.depth) ⟨[], .start⟩ ts
  obtain ⟨d, hd, rfl, rfl⟩ := (hread _ _).2 ⟨v, hv, rfl, Nat.le_max_left _ _⟩
  obtain ⟨d', hd', rfl, rfl⟩ := (hread _ _).2 ⟨w, hw, rfl, Nat.le_max_right _ _⟩
  rw [hd] at hd'
  cases hd'
  exact ⟨rfl, rfl⟩

end Decoder

end ClassSchema
