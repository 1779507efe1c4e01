import Rebac.Compile
import Rebac.Text.Quoted

/-!
# Log events

Every step of a program run that may be worth a log line is an event.  An event
has a level, a target, a message and fields, and those that belong to reading a
source text stand in a span that knows the size of the text.  Lines are written
as text or as JSON, without the time.
-/

namespace Rebac

inductive Event where
  | inputRead (bytes : Nat)
  | documentRead (types conditions : Nat)
  | notDocument (error : Document.Error)
  | statement (found : Dsl.Statement)
  | conditionRead (name : String) (parameters : Nat)
  | dslRead (statements types conditions : Nat)
  | compiled (format : Format) (types : Nat)
  | valid (format : Format)
  deriving Repr, DecidableEq

/-- Values of fields: numbers, words that are shown as they are, and strings
that text lines put in quotes. -/
inductive FieldValue where
  | count (value : Nat)
  | word (text : String)
  | quoted (text : List Char)
  deriving Repr, DecidableEq

namespace FieldValue

def toText : FieldValue → List Char
  | .count value => Nat.toDigits 10 value
  | .word text => text.toList
  | .quoted text => Text.quoted text

def toJson : FieldValue → Json
  | .count value => .number (.natural value)
  | .word text => .string text
  | .quoted text => .ofText text

end FieldValue

namespace Event

def level : Event → Level
  | .inputRead _ => .debug
  | .documentRead _ _ => .debug
  | .notDocument _ => .debug
  | .statement _ => .trace
  | .conditionRead _ _ => .trace
  | .dslRead _ _ _ => .debug
  | .compiled _ _ => .debug
  | .valid _ => .info

def target : Event → String
  | .inputRead _ => "fgadsl"
  | .documentRead _ _ => "fgadsl_domain::wire"
  | .notDocument _ => "fgadsl_domain::compiler"
  | .statement _ => "fgadsl_domain::model::parser"
  | .conditionRead _ _ => "fgadsl_domain::condition"
  | .dslRead _ _ _ => "fgadsl_domain::model::parser"
  | .compiled _ _ => "fgadsl_domain::compiler"
  | .valid _ => "fgadsl_cli::commands"

def message : Event → String
  | .inputRead _ => "read model input"
  | .documentRead _ _ => "read model from JSON"
  | .notDocument _ => "input is not a JSON model, parsing as DSL"
  | .statement _ => "dispatching statement"
  | .conditionRead _ _ => "parsed condition"
  | .dslRead _ _ _ => "parsed DSL model"
  | .compiled _ _ => "compiled model"
  | .valid _ => "model is valid"

def fields : Event → List (String × FieldValue)
  | .inputRead bytes => [("bytes", .count bytes)]
  | .documentRead types conditions =>
      [("types", .count types), ("conditions", .count conditions)]
  | .notDocument error => [("error", .word error.message)]
  | .statement found =>
      [("line", .count found.line), ("statement", .quoted found.text)]
  | .conditionRead name parameters =>
      [("condition", .quoted name.toList), ("parameters", .count parameters)]
  | .dslRead statements types conditions =>
      [("statements", .count statements), ("types", .count types),
        ("conditions", .count conditions)]
  | .compiled format types =>
      [("format", .word format.label), ("types", .count types)]
  | .valid format => [("format", .word format.label)]

end Event

/-- An event and the size of the source text that is being read around it. -/
structure Occurrence where
  event : Event
  span : Option Nat
  deriving Repr, DecidableEq

namespace Occurrence

def spanName : String := "parse_source"

/-- A log line in text form. -/
def toText (occurrence : Occurrence) : List Char :=
  let event := occurrence.event
  let label := event.level.label.toList
  let span :=
    match occurrence.span with
    | some bytes =>
        spanName.toList ++ "\x7bbytes=".toList ++ Nat.toDigits 10 bytes ++
          "\x7d: ".toList
    | none => []
  List.replicate (5 - label.length) ' ' ++ label ++ ' ' :: span ++
    event.message.toList ++
    event.fields.flatMap fun (name, value) =>
      ' ' :: name.toList ++ '=' :: value.toText

/-- A log line in JSON form. -/
def toJson (occurrence : Occurrence) : Json :=
  let event := occurrence.event
  let spans :=
    match occurrence.span with
    | some bytes =>
        let span := Json.object
          [("bytes", .number (.natural bytes)), ("name", .string spanName)]
        [("span", span), ("spans", .array [span])]
    | none => []
  .object
    ([("level", .string event.level.label),
      ("fields", .object (("message", .string event.message) ::
        event.fields.map fun (name, value) => (name, value.toJson))),
      ("target", .string event.target)] ++ spans)

/-- Whether a threshold lets an event through. -/
def passes (threshold : Level) (occurrence : Occurrence) : Bool :=
  occurrence.event.level.severity ≤ threshold.severity

end Occurrence

namespace Dsl.Draft

/-- The events of applying statements up to the first that fails. -/
def events (draft : Draft) : List Statement → List Event
  | [] => []
  | statement :: statements =>
      let read :=
        if statement.isCondition then
          match Condition.ofText statement.text with
          | .ok condition =>
              [Event.conditionRead condition.name condition.parameters.length]
          | .error _ => []
        else []
      Event.statement statement :: read ++
        match draft.apply statement with
        | .ok draft => draft.events statements
        | .error _ => []

end Dsl.Draft

/-- The events of reading DSL text. -/
def Dsl.events (schemaVersion : String) (text : List Char) : List Event :=
  match scan text with
  | .error _ => []
  | .ok statements =>
      (Draft.start schemaVersion).events statements ++
        match Dsl.read schemaVersion text with
        | .ok model =>
            [.dslRead statements.length model.types.length model.conditions.length]
        | .error _ => []

namespace Source

/-- The events of reading a source text, all inside the span of its size. -/
def readEvents (settings : CompilerSettings) (text : List Char) :
    List Occurrence :=
  let size := Text.byteSize text
  let events :=
    if settings.maxInputBytes < size then []
    else
      match Document.read text with
      | .ok model => [.documentRead model.types.length model.conditions.length]
      | .error error =>
          .notDocument error :: Dsl.events settings.defaultSchemaVersion text
  events.map fun event => { event, span := some size }

/-- The events of compiling a source text. -/
def compileEvents (settings : CompilerSettings) (text : List Char) :
    List Occurrence :=
  readEvents settings text ++
    match compile settings text with
    | .ok (model, format) =>
        [{ event := .compiled format model.types.length, span := none }]
    | .error _ => []

end Source

end Rebac
