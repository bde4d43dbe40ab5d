import ClassSchema.PropertyPath
import ClassSchema.Scalar
import ClassSchema.TypeExpr.Basic

/-!
# What is reported on the way

While a model is read and a schema is made, events are reported: they change no result. An event has a level, a target
that says which part of the program reports it, a message and named fields. `Traced` is a result together with the
events reported until it was reached; a failure keeps the events before it.
-/

namespace ClassSchema

/-- How serious an event is, the most serious first. -/
inductive Level where
  | error | warn | info | debug | trace
  deriving DecidableEq, Repr

/-- How much a level lets through: an event is let through by its own level and by all that let more through. -/
def Level.verbosity : Level → Nat
  | .error => 1
  | .warn => 2
  | .info => 3
  | .debug => 4
  | .trace => 5

/-- The name of a level in a log. -/
def Level.label : Level → String
  | .error => "ERROR"
  | .warn => "WARN"
  | .info => "INFO"
  | .debug => "DEBUG"
  | .trace => "TRACE"

/-- Something that happens on the way to a result. -/
inductive Event where
  /-- A model file is about to be read. -/
  | readingFile (path : String)
  /-- A model has been put together. -/
  | modelLoaded (classes enums : Nat)
  /-- A name is that of a class and of an enumeration. -/
  | sharedName (name : String)
  /-- A class is expanded, as the given one in number of the classes open at that point. -/
  | expandingClass (name : String) (depth : Nat)
  /-- The type of a property has been read. -/
  | property (path : PropertyPath) (expr : TypeExpr)
  /-- An element of a tuple has another type than the first. -/
  | mixedTuple (path : PropertyPath) (first other : Scalar)
  deriving DecidableEq, Repr

/-- The value of a field of an event: a text that a log quotes, or one that it does not. -/
inductive FieldValue where
  | quoted (text : String)
  | plain (text : String)
  deriving DecidableEq, Repr

/-- The text of a field, without quotes. -/
def FieldValue.text : FieldValue → String
  | .quoted text => text
  | .plain text => text

namespace Event

/-- The level of an event. -/
def level : Event → Level
  | readingFile _ | modelLoaded .. | expandingClass .. => .debug
  | sharedName _ | mixedTuple .. => .warn
  | property .. => .trace

/-- The part of the program that reports an event. -/
def target : Event → String
  | readingFile _ | modelLoaded .. => "annot_schema::model"
  | sharedName _ | expandingClass .. | property .. | mixedTuple .. => "annot_schema::generate"

/-- The message of an event. -/
def message : Event → String
  | readingFile _ => "reading model file"
  | modelLoaded .. => "model loaded"
  | sharedName _ => "name is both a class and an enum; the class wins"
  | expandingClass .. => "expanding class"
  | property .. => "property"
  | mixedTuple .. => "mixed tuple approximated by its first element"

/-- The fields of an event, in order. -/
def fields : Event → List (String × FieldValue)
  | readingFile path => [("path", .plain path)]
  | modelLoaded classes enums => [("classes", .plain (toString classes)), ("enums", .plain (toString enums))]
  | sharedName name => [("name", .quoted name)]
  | expandingClass name depth => [("class", .quoted name), ("depth", .plain (toString depth))]
  | property path expr => [("path", .plain path.render), ("expr", .plain expr.render)]
  | mixedTuple path first other =>
    [("path", .plain path.render), ("first", .quoted first.jsonType), ("other", .quoted other.jsonType)]

/-- The names of the fields of an event, that of its message first. -/
def fieldNames (e : Event) : List String := "message" :: e.fields.map (·.1)

end Event

/-! ## Results with events -/

/-- A result and the events reported until it was reached. -/
structure Traced (ε α : Type) where
  events : List Event
  result : Except ε α

namespace Traced

/-- A value, reached without an event. -/
def ok (a : α) : Traced ε α := ⟨[], .ok a⟩

/-- A failure, reached without an event. -/
def fail (e : ε) : Traced ε α := ⟨[], .error e⟩

/-- A result, reached without an event. -/
def ofExcept (r : Except ε α) : Traced ε α := ⟨[], r⟩

/-- An event and nothing else. -/
def report (e : Event) : Traced ε Unit := ⟨[e], .ok ()⟩

/-- One step after another: the events of both, unless the first fails. -/
def andThen (x : Traced ε α) (f : α → Traced ε β) : Traced ε β :=
  match x.result with
  | .ok a => ⟨x.events ++ (f a).events, (f a).result⟩
  | .error e => ⟨x.events, .error e⟩

instance : Monad (Traced ε) where
  pure := ok
  bind := andThen

theorem id_map_traced (x : Traced ε α) : id <$> x = x := by
  rcases x with ⟨events, _ | _⟩ <;> simp [Functor.map, andThen, ok]

theorem ok_andThen (a : α) (f : α → Traced ε β) : (ok a).andThen f = f a := by simp [andThen, ok]

theorem andThen_assoc (x : Traced ε α) (f : α → Traced ε β) (g : β → Traced ε γ) :
    (x.andThen f).andThen g = x.andThen fun a => (f a).andThen g := by
  rcases x with ⟨events, e | a⟩
  · simp [andThen]
  · simp only [andThen]
    rcases (f a).result with e | b <;> simp

instance : LawfulMonad (Traced ε) := LawfulMonad.mk' (Traced ε) id_map_traced ok_andThen andThen_assoc

/-- The same result under another name for its failure. -/
def mapError (f : ε → ε') (x : Traced ε α) : Traced ε' α := ⟨x.events, x.result.mapError f⟩

end Traced

end ClassSchema
