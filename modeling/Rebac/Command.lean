import Rebac.Event

/-!
# Commands

The program converts a source text, describes the relations of its model, or
only checks it.
-/

namespace Rebac

inductive Command where
  | toJson
  | toDsl
  | metadata
  | validate
  deriving Repr, DecidableEq

namespace Command

def all : List Command :=
  [.toJson, .toDsl, .metadata, .validate]

def name : Command → String
  | .toJson => "to-json"
  | .toDsl => "to-dsl"
  | .metadata => "metadata"
  | .validate => "validate"

def ofName? (name : String) : Option Command :=
  all.find? (·.name = name)

/-- The line that reports a valid model. -/
def report (model : Model) (format : Format) : List Char :=
  "valid (".toList ++ format.name.toList ++ "): ".toList ++
    Nat.toDigits 10 model.types.length ++ " types, ".toList ++
    Nat.toDigits 10 model.conditions.length ++ " conditions".toList

/-- Run a command on a source text. -/
def execute (settings : CompilerSettings) (command : Command) (text : List Char) :
    Except CompileError (List Char) :=
  match command with
  | .toJson => (Source.toJson settings text).map Json.toPretty
  | .toDsl => Source.toDsl settings text
  | .metadata => (Source.toMetadata settings text).map fun metadata =>
      metadata.toJson.toPretty
  | .validate => (Source.compile settings text).map fun (model, format) =>
      report model format

/-- The events of running a command on a source text. -/
def events (settings : CompilerSettings) (command : Command) (text : List Char) :
    List Occurrence :=
  match command with
  | .metadata => Source.readEvents settings text
  | .toJson | .toDsl => Source.compileEvents settings text
  | .validate =>
      Source.compileEvents settings text ++
        match Source.compile settings text with
        | .ok (_, format) => [{ event := .valid format, span := none }]
        | .error _ => []

/-- Run commands in turn, each on the output of the one before, up to the first
that fails. -/
def chain (settings : CompilerSettings) (text : List Char) :
    List Command → List (Except CompileError (List Char))
  | [] => []
  | command :: commands =>
      match command.execute settings text with
      | .error error => [.error error]
      | .ok output => .ok output :: chain settings output commands

end Command

end Rebac
