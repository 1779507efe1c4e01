import Rebac.Document.Reader
import Rebac.Document.Writer
import Rebac.Dsl.Draft
import Rebac.Dsl.Printer
import Rebac.Metadata
import Rebac.Settings
import Rebac.Validity

/-!
# Compiling models

A source text holds a model in either format.  JSON is tried first and DSL
second; a text that is neither is reported with both errors.  Compiling also
demands that the model is valid.
-/

namespace Rebac

inductive Format where
  | json
  | dsl
  deriving Repr, DecidableEq

namespace Format

def name : Format → String
  | .json => "json"
  | .dsl => "dsl"

/-- The spelling in log events. -/
def label : Format → String
  | .json => "Json"
  | .dsl => "Dsl"

end Format

/-- Causes for which a source text does not compile. -/
inductive CompileError where
  | invalid (violations : List Violation)
  | unreadable (dsl : Dsl.Error) (json : Document.Error)
  | tooLarge (size limit : Nat)
  deriving Repr, DecidableEq

def CompileError.message : CompileError → String
  | .invalid violations =>
      "model validation failed: " ++
        "; ".intercalate (violations.map Violation.message)
  | .unreadable dsl json =>
      "input is not valid DSL (" ++ dsl.display ++
        "); JSON attempt failed with: " ++ json.message
  | .tooLarge size limit =>
      "input is " ++ toString size ++ " bytes, limit is " ++ toString limit

/-- The error behind an error, if it has one. -/
def CompileError.cause? : CompileError → Option String
  | .unreadable dsl _ => some dsl.display
  | _ => none

namespace Source

/-- Read a model in either format. -/
def read (settings : CompilerSettings) (text : List Char) :
    Except CompileError (Model × Format) :=
  let size := Text.byteSize text
  if settings.maxInputBytes < size then
    .error (.tooLarge size settings.maxInputBytes)
  else
    match Document.read text with
    | .ok model => .ok (model, .json)
    | .error json =>
        match Dsl.read settings.defaultSchemaVersion text with
        | .ok model => .ok (model, .dsl)
        | .error dsl => .error (.unreadable dsl json)

/-- Read a model in either format and check that it is valid. -/
def compile (settings : CompilerSettings) (text : List Char) :
    Except CompileError (Model × Format) :=
  match read settings text with
  | .error error => .error error
  | .ok (model, format) =>
      match model.violations with
      | [] => .ok (model, format)
      | violations => .error (.invalid violations)

/-- The document of the model in a source text. -/
def toJson (settings : CompilerSettings) (text : List Char) :
    Except CompileError Json :=
  (compile settings text).map fun (model, _) => model.toJson

/-- The canonical DSL text of the model in a source text. -/
def toDsl (settings : CompilerSettings) (text : List Char) :
    Except CompileError (List Char) :=
  (compile settings text).map fun (model, _) => model.toDsl

/-- The metadata of the model in a source text, which need not be valid. -/
def toMetadata (settings : CompilerSettings) (text : List Char) :
    Except CompileError Metadata :=
  (read settings text).map fun (model, _) =>
    Metadata.ofModel settings.fallbackUserType model

end Source

end Rebac
