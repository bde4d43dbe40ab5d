import ClassSchema.Json.Decoder

/-!
# The tokens of a JSON value

Every JSON value has its tokens (`Json.tokens`): those of its parts, with commas between them, in brackets. White space and
the spelling of scalars are not part of this; they are what a text adds to the tokens.

A list of lexemes starts with tokens when its first lexemes have these tokens (`StartsWith`). That is how all that is read
from the front of lexemes is described: first these tokens, then those (`startsWith_append`).
-/

namespace ClassSchema

namespace Json

/-! ## Tokens -/

/-- The tokens of entries with commas between them, and the bracket that closes them. -/
def listed (closing : JsonToken) : List (List JsonToken) → List JsonToken
  | [] => [closing]
  | [entry] => entry ++ [closing]
  | entry :: next :: entries => entry ++ .comma :: listed closing (next :: entries)

mutual

/-- The tokens of a value. -/
def tokens : Json → List JsonToken
  | null => [.null]
  | bool b => [.bool b]
  | number n => [.number n]
  | string s => [.string s]
  | array items => .openArray :: listed .closeArray (itemTokens items)
  | object members => .openObject :: listed .closeObject (memberTokens members)

/-- The tokens of several values, each by itself. -/
def itemTokens : List Json → List (List JsonToken)
  | [] => []
  | item :: items => tokens item :: itemTokens items

/-- The tokens of several members, each by itself. -/
def memberTokens : List (String × Json) → List (List JsonToken)
  | [] => []
  | (name, value) :: members => (.string name :: .colon :: tokens value) :: memberTokens members

end

/-- Whether a token may be the first of a value. -/
def startsValue : JsonToken → Bool
  | .openArray | .openObject | .null | .bool _ | .number _ | .string _ => true
  | .closeArray | .closeObject | .comma | .colon | .brokenString .. | .broken .. => false

/-- A value has a first token, which no other place in an array or object may have. -/
theorem exists_tokens_eq_cons (v : Json) : ∃ t ts, v.tokens = t :: ts ∧ startsValue t = true := by
  cases v <;> exact ⟨_, _, by rw [tokens], rfl⟩

/-! ## How deep brackets go -/

mutual

/-- How many brackets are inside one another in a value. -/
def depth : Json → Nat
  | null | bool _ | number _ | string _ => 0
  | array items => itemDepth items + 1
  | object members => memberDepth members + 1

/-- How many brackets are inside one another in one of several values. -/
def itemDepth : List Json → Nat
  | [] => 0
  | item :: items => max (depth item) (itemDepth items)

/-- How many brackets are inside one another in the value of one of several members. -/
def memberDepth : List (String × Json) → Nat
  | [] => 0
  | (_, value) :: members => max (depth value) (memberDepth members)

end

theorem itemDepth_le_iff {items : List Json} {n : Nat} : itemDepth items ≤ n ↔ ∀ v ∈ items, depth v ≤ n := by
  induction items with
  | nil => simp [itemDepth]
  | cons v items ih => rw [itemDepth, Nat.max_le, ih, List.forall_mem_cons]

theorem memberDepth_le_iff {members : List (String × Json)} {n : Nat} :
    memberDepth members ≤ n ↔ ∀ entry ∈ members, depth entry.2 ≤ n := by
  induction members with
  | nil => simp [memberDepth]
  | cons entry members ih => rw [memberDepth, Nat.max_le, ih, List.forall_mem_cons]

end Json

/-! ## Lexemes that start with tokens -/

/-- Lexemes start with tokens, and these are left after them. -/
def StartsWith (ts : List Lexeme) (tokens : List JsonToken) (rest : List Lexeme) : Prop :=
  ∃ first, ts = first ++ rest ∧ first.map (·.token) = tokens

section StartsWith

variable {ts rest : List Lexeme} {as bs : List JsonToken}

theorem startsWith_nil : StartsWith ts [] rest ↔ ts = rest := by
  constructor
  · rintro ⟨first, rfl, hfirst⟩
    rw [List.map_eq_nil_iff.1 hfirst, List.nil_append]
  · rintro rfl
    exact ⟨[], rfl, rfl⟩

theorem startsWith_cons {a : JsonToken} :
    StartsWith ts (a :: as) rest ↔ ∃ t us, ts = t :: us ∧ t.token = a ∧ StartsWith us as rest := by
  constructor
  · rintro ⟨first, rfl, hfirst⟩
    obtain ⟨t, us, rfl, ht, hus⟩ := List.map_eq_cons_iff.1 hfirst
    exact ⟨t, us ++ rest, rfl, ht, us, rfl, hus⟩
  · rintro ⟨t, us, rfl, rfl, first, rfl, rfl⟩
    exact ⟨t :: first, rfl, rfl⟩

/-- First these tokens, then those. -/
theorem startsWith_append :
    StartsWith ts (as ++ bs) rest ↔ ∃ between, StartsWith ts as between ∧ StartsWith between bs rest := by
  constructor
  · rintro ⟨first, rfl, hfirst⟩
    obtain ⟨us, vs, rfl, rfl, rfl⟩ := List.map_eq_append_iff.1 hfirst
    exact ⟨vs ++ rest, ⟨us, List.append_assoc us vs rest, rfl⟩, vs, rfl, rfl⟩
  · rintro ⟨between, ⟨us, rfl, rfl⟩, vs, rfl, rfl⟩
    exact ⟨us ++ vs, (List.append_assoc us vs rest).symm, List.map_append⟩

/-- First a token, then others. -/
theorem startsWith_cons_iff {a : JsonToken} :
    StartsWith ts (a :: as) rest ↔ ∃ between, StartsWith ts [a] between ∧ StartsWith between as rest := by
  rw [← List.singleton_append, startsWith_append]

/-- One token. -/
theorem startsWith_singleton {a : JsonToken} : StartsWith ts [a] rest ↔ ∃ t, ts = t :: rest ∧ t.token = a := by
  rw [startsWith_cons]
  constructor
  · rintro ⟨t, us, rfl, ht, hus⟩
    rw [startsWith_nil] at hus
    exact ⟨t, by rw [hus], ht⟩
  · rintro ⟨t, rfl, ht⟩
    exact ⟨t, rest, rfl, ht, startsWith_nil.2 rfl⟩

/-- The last entry and the bracket after it. -/
theorem startsWith_listed_singleton {closing : JsonToken} {entry : List JsonToken} :
    StartsWith ts (Json.listed closing [entry]) rest ↔
      ∃ between, StartsWith ts entry between ∧ StartsWith between [closing] rest := startsWith_append

/-- An entry before others, a comma, and the others. -/
theorem startsWith_listed_cons_cons {closing : JsonToken} {entry next : List JsonToken}
    {entries : List (List JsonToken)} :
    StartsWith ts (Json.listed closing (entry :: next :: entries)) rest ↔
      ∃ between others, StartsWith ts entry between ∧ StartsWith between [.comma] others ∧
        StartsWith others (Json.listed closing (next :: entries)) rest := by
  rw [Json.listed, startsWith_append, ← List.singleton_append]
  simp only [startsWith_append, exists_and_left]

/-- Entries start with the first of them. -/
theorem exists_startsWith_of_listed {closing : JsonToken} {entry : List JsonToken} {entries : List (List JsonToken)}
    (h : StartsWith ts (Json.listed closing (entry :: entries)) rest) : ∃ between, StartsWith ts entry between := by
  cases entries with
  | nil =>
    obtain ⟨between, hentry, -⟩ := startsWith_listed_singleton.1 h
    exact ⟨between, hentry⟩
  | cons next entries =>
    obtain ⟨between, -, hentry, -⟩ := startsWith_listed_cons_cons.1 h
    exact ⟨between, hentry⟩

end StartsWith

end ClassSchema
