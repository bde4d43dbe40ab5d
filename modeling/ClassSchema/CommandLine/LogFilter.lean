import ClassSchema.CommandLine.Count
import ClassSchema.CommandLine.ValuePattern
import ClassSchema.Log
import ClassSchema.Text.Alphanumeric
import ClassSchema.Text.Blank
import ClassSchema.Text.Quoted
import ClassSchema.Text.Size
import ClassSchema.Text.Split

/-!
# Which events are logged

A filter is a list of directives, each with a level. A directive may have a target and may name a field: it is about the
events whose target starts with its own and that have its field. Of all that are about an event the most specific one
decides: the one with the longest target, then one with a field, and then the one whose field has the greater name; of
two that are equal in this the later. What no directive is about is not logged.

In the text of a filter the directives are divided by commas. A word alone is a level if it names one, and else a target
with all its events; a target may have a level after `=`. Between the two there may be brackets with the name of a span,
or with a field in braces. The events here happen in no span, so that a directive about a span is about no event; neither
is one about the value of a field, which is meant for spans. A filter without directives lets errors through.
-/

namespace ClassSchema

/-- How much of a target is logged: nothing, or the events up to a level. -/
inductive Loudness where
  | off
  | upTo (level : Level)
  deriving DecidableEq, Repr

namespace Loudness

/-- Whether an event of a level is loud enough. -/
def admits : Loudness → Level → Bool
  | off, _ => false
  | upTo most, level => level.verbosity ≤ most.verbosity

/-- The six degrees, the quietest first: a number stands for the degree at its place. -/
def all : List Loudness := [off, upTo .error, upTo .warn, upTo .info, upTo .debug, upTo .trace]

/-- The name of a degree. -/
def name : Loudness → String
  | off => "off"
  | upTo .error => "error"
  | upTo .warn => "warn"
  | upTo .info => "info"
  | upTo .debug => "debug"
  | upTo .trace => "trace"

/-- The degree that a word names, by its place or by its name in any case. -/
def ofWord? (word : String) : Option Loudness :=
  match parseCount word with
  | .ok n => all[n]?
  | .error _ => all.find? fun l => l.name.toList == word.toList.map Char.toLower

end Loudness

/-- What a directive is about. -/
inductive Scope where
  /-- The events, or those that have a field. -/
  | events (field : Option String)
  /-- What happens in spans. -/
  | spans
  deriving DecidableEq, Repr

/-- A loudness for what is in a scope, of a target and of what is below it; an empty target stands for all. -/
structure Directive where
  target : String
  scope : Scope
  loudness : Loudness
  deriving DecidableEq, Repr

namespace Directive

/-- A directive about all events of a target. -/
def ofTarget (target : String) (loudness : Loudness) : Directive := ⟨target, .events none, loudness⟩

/-- A character that a directive may start with. -/
def isStart (c : Char) : Bool := isAlphanumeric c || c == '_' || c == '-' || c == ':'

/-- The scope of a field in braces, after the name of a span or none. A value must be a pattern. -/
def fieldScope? (hasSpan : Bool) (field : List Char) : Option Scope :=
  match field, field.dropWhile (· != '=') with
  | [], _ => none
  | _, [] => some (if hasSpan then .spans else .events (some (String.ofList field)))
  | _, _ :: value => if isValuePattern (value.takeWhile (· != '=')) then some .spans else none

/-- The scope in brackets that are open before a text, and the text after them. `written` tells what is read for a text. -/
def scope? (written : List Char → Option (List Char)) (cs : List Char) : Option (Scope × List Char) := do
  let span := cs.takeWhile fun c => c != ']' && c != '{'
  let spanName ← takeBytes? (utf8Length span) (← written cs)
  match cs.drop span.length with
  | ']' :: after => some (.spans, after)
  | '{' :: inside =>
    let field := inside.takeWhile (· != '}')
    match inside.drop field.length with
    | '}' :: ']' :: after =>
      let fieldName ← takeBytes? (utf8Length field) (← written inside)
      (fieldScope? (spanName != []) fieldName).map (·, after)
    | _ => none
  | _ => none

/-- The loudness that the end of a directive writes: all, unless a level follows `=`. -/
def loudness? (written : List Char → Option (List Char)) : List Char → Option Loudness
  | '=' :: word => do
    match ← written word with
    | [] => some (.upTo .trace)
    | cs => Loudness.ofWord? (String.ofList cs)
  | cs => if cs.all isBlank then some (.upTo .trace) else none

/-- The directive that a text writes. Its parts are found in the text without the blanks at its start, but each is read
from the whole text, at the same number of bytes from the start: after blanks a directive names something else, and a
level there is malformed. -/
def parse? (text : String) : Option Directive := do
  let cs := text.toList.dropWhile isBlank
  let written (rest : List Char) : Option (List Char) := dropBytes? (utf8Length cs - utf8Length rest) text.toList
  let target := cs.takeWhile fun c => c != '=' && c != '['
  if cs.head? ≠ some '[' ∧ !cs.head?.any isStart then none
  else match cs.drop target.length with
    | [] =>
      match Loudness.ofWord? text with
      | some loudness => some (.ofTarget "" loudness)
      | none => some (.ofTarget text (.upTo .trace))
    | rest => do
      let name ← takeBytes? (utf8Length target) text.toList
      let (scope, after) ← match rest with
        | '[' :: inside => scope? written inside
        | after => some (.events none, after)
      return ⟨String.ofList name, scope, ← loudness? written after⟩

/-- Whether a directive is about an event. -/
def isAbout (d : Directive) (e : Event) : Bool :=
  match d.scope with
  | .events field => d.target.toList.isPrefixOf e.target.toList && field.all (· ∈ e.fieldNames)
  | .spans => false

/-- Whether a directive is less specific than another. -/
def isWider (d d' : Directive) : Bool :=
  d.target.length < d'.target.length ||
    (d.target.length == d'.target.length &&
      match d.scope, d'.scope with
      | .events none, .events (some _) => true
      | .events (some field), .events (some field') => field < field'
      | _, _ => false)

end Directive

/-- The directives of a log, in the order written. -/
abbrev LogFilter := List Directive

namespace LogFilter

/-- The filter that lets the events up to a level through. -/
def ofLevel (level : Level) : LogFilter := [.ofTarget "" (.upTo level)]

/-- The filter that a text writes, if all its directives are well formed. -/
def parse? (text : String) : Option LogFilter :=
  (((partsOf ',' text).filter (· != "")).mapM Directive.parse?).map fun directives =>
    if directives.isEmpty then ofLevel .error else directives

/-- Of two directives the one that decides: the second, unless it is less specific than the first. -/
def decisive (first : Option Directive) (second : Directive) : Option Directive :=
  match first with
  | none => some second
  | some first => some (if second.isWider first then first else second)

/-- Whether an event is logged. -/
def admits (f : LogFilter) (e : Event) : Bool :=
  match (f.filter (·.isAbout e)).foldl decisive none with
  | some d => d.loudness.admits e.level
  | none => false

end LogFilter

/-- The line of a log for an event. -/
def Event.line (e : Event) : String :=
  let value : FieldValue → String
    | .quoted text => quoted text
    | .plain text => text
  e.level.label ++ " " ++ e.target ++ ": " ++ e.message ++
    String.join (e.fields.map fun f => " " ++ f.1 ++ "=" ++ value f.2)

end ClassSchema
