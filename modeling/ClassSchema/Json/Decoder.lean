import ClassSchema.Json.Path
import ClassSchema.Json.Token

/-!
# Decoding a JSON text

A decoder takes the tokens of one value from the front of a list of tokens, or says what is wrong. It reads in one pass
and checks the type of a value where the value starts, so that of two faults the first in the text is reported. Every
decoder takes at least one token: that is part of its result (`Decoded`), and that is why loops over items and members
end.

A failure is located twice: by the path of the value it arose in and by its position in the text. While the name of a
member is looked for, the path ends in an unknown step.
-/

namespace ClassSchema

/-- What is wrong with a JSON text, in which value, and where. -/
structure JsonError where
  path : JsonPath
  fault : JsonFault
  position : Position
  deriving Repr

/-- The words for a failure, with its position. -/
def JsonError.message (e : JsonError) : String :=
  s!"{e.fault.text} at line {e.position.line} column {e.position.column}"

/-- The words for a failure, with its path and its position. -/
def JsonError.locatedMessage (e : JsonError) : String := s!"at JSON path {e.path.render} → {e.message}"

/-- Where a value is decoded: its path, and the position at which the text ends. -/
structure JsonSite where
  path : JsonPath
  textEnd : Position
  deriving Repr

namespace JsonSite

/-- The site of an item of the array here. -/
def item (site : JsonSite) (index : Nat) : JsonSite := ⟨site.path ++ [.item index], site.textEnd⟩

/-- The site of a member of the object here. -/
def member (site : JsonSite) (name : String) : JsonSite := ⟨site.path ++ [.member name], site.textEnd⟩

/-- The site of a member whose name is not known. -/
def unknown (site : JsonSite) : JsonSite := ⟨site.path ++ [.unknown], site.textEnd⟩

/-- A failure here. -/
def fail (site : JsonSite) (fault : JsonFault) (position : Position) : Except JsonError α :=
  .error ⟨site.path, fault, position⟩

end JsonSite

/-- A value decoded from the front of a list of tokens, and the tokens after it, which are fewer. -/
structure Decoded (α : Type) (ts : List Lexeme) where
  value : α
  rest : List Lexeme
  shorter : rest.length < ts.length

theorem length_lt_of_lexeme (t : Lexeme) (ts : List Lexeme) : ts.length < (t :: ts).length := Nat.lt_succ_self _

theorem length_le_of_lexeme (t : Lexeme) (ts : List Lexeme) : ts.length ≤ (t :: ts).length := Nat.le_succ _

/-- Another value from the same tokens. -/
def Decoded.map (f : α → β) (d : Decoded α ts) : Decoded β ts := ⟨f d.value, d.rest, d.shorter⟩

/-- The same value, from a list of tokens that has more in front. -/
def Decoded.after {us ts : List Lexeme} (d : Decoded α us) (h : us.length ≤ ts.length) : Decoded α ts :=
  ⟨d.value, d.rest, Nat.lt_of_lt_of_le d.shorter h⟩

/-- Takes the tokens of one value from the front of a list. -/
abbrev Decoder (α : Type) := JsonSite → (ts : List Lexeme) → Except JsonError (Decoded α ts)

namespace Decoder

/-- The failure of a value that starts with this token, where a value of another type is wanted. A broken scalar is
reported as such, and so is what starts no value. -/
def wrongType (site : JsonSite) (wanted : WantedValue) (t : Lexeme) : Except JsonError α :=
  match t.token with
  | .null => site.fail (.invalidType .null wanted) t.stop
  | .bool b => site.fail (.invalidType (.bool b) wanted) t.stop
  | .number n => site.fail (.invalidType (.number n) wanted) t.stop
  | .string s => site.fail (.invalidType (.string s) wanted) t.stop
  | .openArray => site.fail (.invalidType .sequence wanted) t.start
  | .openObject => site.fail (.invalidType .map wanted) t.start
  | .brokenString fault position | .broken fault position => site.fail fault position
  | .closeArray | .closeObject | .comma | .colon => site.fail .expectedValue t.peek

/-- A string. -/
def string : Decoder String := fun site ts =>
  match ts with
  | [] => site.fail .endInValue site.textEnd
  | t :: rest =>
    match t.token with
    | .string s => .ok ⟨s, rest, length_lt_of_lexeme t rest⟩
    | _ => wrongType site .string t

/-! ## Entries -/

/-- What is said where the entries of an array or of an object go on or end. -/
structure Enclosure where
  closing : JsonToken
  /-- The fault of a text that ends inside. -/
  endOfText : JsonFault
  /-- The fault of a token after an entry that is neither a comma nor the closing bracket. -/
  noEnd : JsonFault

/-- The entries of an array. -/
def Enclosure.array : Enclosure := ⟨.closeArray, .endInArray, .expectedItemEnd⟩

/-- The entries of an object. -/
def Enclosure.object : Enclosure := ⟨.closeObject, .endInObject, .expectedMemberEnd⟩

/-- What follows an entry: a comma and, after it, another entry, or the closing bracket. The value says whether another
entry follows. -/
def separator (enclosure : Enclosure) : Decoder Bool := fun site ts =>
  match ts with
  | [] => site.fail enclosure.endOfText site.textEnd
  | t :: rest =>
    if t.token = enclosure.closing then .ok ⟨false, rest, length_lt_of_lexeme t rest⟩
    else if t.token = .comma then
      match rest with
      | [] => site.fail .endInValue site.textEnd
      | u :: others =>
        if u.token = enclosure.closing then site.fail .trailingComma u.peek else .ok ⟨true, u :: others, by simp⟩
    else site.fail enclosure.noEnd t.peek

/-! ## Arrays -/

/-- The items of an array from a given one on, to the closing bracket. -/
def itemsFrom (decodeItem : Decoder α) (site : JsonSite) (index : Nat) (ts : List Lexeme) :
    Except JsonError (Decoded (List α) ts) := do
  let head ← decodeItem (site.item index) ts
  let more ← separator .array site head.rest
  have := head.shorter
  have := more.shorter
  if more.value then
    let tail ← itemsFrom decodeItem site (index + 1) more.rest
    return (tail.map (head.value :: ·)).after (by omega)
  else return ⟨[head.value], more.rest, by omega⟩
  termination_by ts.length

/-- The items of an array after its opening bracket. -/
def items (decodeItem : Decoder α) : Decoder (List α) := fun site ts =>
  match ts with
  | [] => site.fail .endInArray site.textEnd
  | t :: rest =>
    if t.token = .closeArray then .ok ⟨[], rest, length_lt_of_lexeme t rest⟩
    else itemsFrom decodeItem site 0 (t :: rest)

/-- An array of values of one type. -/
def list (decodeItem : Decoder α) : Decoder (List α) := fun site ts =>
  match ts with
  | [] => site.fail .endInValue site.textEnd
  | t :: rest =>
    if t.token = .openArray then (items decodeItem site rest).map (·.after (length_le_of_lexeme t rest))
    else wrongType site .sequence t

/-! ## Objects -/

/-- Decodes what follows the name of a member, starting with the colon, into what has been gathered from the members
before it. -/
abbrev MemberStep (σ : Type) := σ → String → Decoder σ

/-- The name of a member. -/
def memberName : Decoder String := fun site ts =>
  match ts with
  | [] => site.unknown.fail .endInObject site.textEnd
  | t :: rest =>
    match t.token with
    | .string name => .ok ⟨name, rest, length_lt_of_lexeme t rest⟩
    | .brokenString fault position => site.unknown.fail fault position
    | _ => site.unknown.fail .keyNotString t.peek

/-- The value of a member of a name, after a colon. -/
def memberValue (decodeValue : Decoder α) (name : String) : Decoder α := fun site ts =>
  match ts with
  | [] => site.fail .endInObject site.textEnd
  | t :: rest =>
    match t.token with
    | .colon => (decodeValue (site.member name) rest).map (·.after (length_le_of_lexeme t rest))
    | _ => site.fail .expectedColon t.peek

/-- The members of an object after those that have been gathered, from a member's name to the closing brace. -/
def membersFrom (step : MemberStep σ) (site : JsonSite) (gathered : σ) (ts : List Lexeme) :
    Except JsonError (Decoded σ ts) := do
  let name ← memberName site ts
  let head ← step gathered name.value site name.rest
  let more ← separator .object site.unknown head.rest
  have := name.shorter
  have := head.shorter
  have := more.shorter
  if more.value then
    let tail ← membersFrom step site head.value more.rest
    return tail.after (by omega)
  else return ⟨head.value, more.rest, by omega⟩
  termination_by ts.length

/-- The members of an object after its opening brace. -/
def members (step : MemberStep σ) (init : σ) : Decoder σ := fun site ts =>
  match ts with
  | [] => site.unknown.fail .endInObject site.textEnd
  | t :: rest =>
    if t.token = .closeObject then .ok ⟨init, rest, length_lt_of_lexeme t rest⟩
    else membersFrom step site init (t :: rest)

/-- Sets the value of a name: in the place of the value it had, or at the end. -/
def put (name : String) (value : α) : List (String × α) → List (String × α)
  | [] => [(name, value)]
  | (n, v) :: rest => if n = name then (n, value) :: rest else (n, v) :: put name value rest

/-- An object with values of one type under any names. A name that is repeated keeps its first place and gets its last
value. -/
def map (decodeValue : Decoder α) : Decoder (List (String × α)) := fun site ts =>
  match ts with
  | [] => site.fail .endInValue site.textEnd
  | t :: rest =>
    if t.token = .openObject then
      (members (fun gathered name site ts => (memberValue decodeValue name site ts).map (·.map (put name · gathered)))
        [] site rest).map (·.after (length_le_of_lexeme t rest))
    else wrongType site .map t

/-! ## Any value -/

/-- A value of any type that opens at most so many brackets inside one another. -/
def value (room : Nat) : Decoder Json := fun site ts =>
  match ts with
  | [] => site.fail .endInValue site.textEnd
  | t :: rest =>
    match t.token with
    | .null => .ok ⟨.null, rest, length_lt_of_lexeme t rest⟩
    | .bool b => .ok ⟨.bool b, rest, length_lt_of_lexeme t rest⟩
    | .number n => .ok ⟨.number n, rest, length_lt_of_lexeme t rest⟩
    | .string s => .ok ⟨.string s, rest, length_lt_of_lexeme t rest⟩
    | .openArray =>
      match room with
      | 0 => site.fail .tooManyBrackets t.peek
      | room + 1 => (items (value room) site rest).map fun d => (d.map Json.array).after (length_le_of_lexeme t rest)
    | .openObject =>
      match room with
      | 0 => site.fail .tooManyBrackets t.peek
      | room + 1 =>
        (members (fun gathered name site ts =>
          (memberValue (value room) name site ts).map (·.map fun v => gathered ++ [(name, v)])) [] site rest).map
          fun d => (d.map Json.object).after (length_le_of_lexeme t rest)
    | .brokenString fault position | .broken fault position => site.fail fault position
    | .closeArray | .closeObject | .comma | .colon => site.fail .expectedValue t.peek

/-- The value at the start of a text. What follows it is not looked at. -/
def run (decode : Decoder α) (text : String) : Except JsonError α :=
  (decode ⟨[], Position.start.afterAll text.toList⟩ (JsonToken.scan ⟨text.toList, .start⟩)).map (·.value)

end Decoder

end ClassSchema
