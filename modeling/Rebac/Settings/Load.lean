import Rebac.Settings.File

/-!
# Loading settings

A program run takes its settings from an optional file and from environment
variables.  What follows the program's prefix in the name of a variable is a
path of keys, in which double underscores stand for dots; its case does not
matter.
-/

namespace Rebac

/-- Causes for which no settings can be loaded. -/
inductive LoadError where
  | fileNotFound (path : String)
  | unreadable
  | invalid (cause : SettingsFault)
  deriving Repr, DecidableEq

def LoadError.message : LoadError → String
  | .fileNotFound path => "configuration file not found: " ++ path
  | .unreadable => "failed to load configuration: invalid value"
  | .invalid cause => "invalid configuration: " ++ cause.message

namespace Settings

def variableStart : List Char :=
  "fgadsl_".toList

/-- Turn double underscores into dots. -/
def dotted : List Char → List Char
  | [] => []
  | '_' :: '_' :: rest => '.' :: dotted rest
  | character :: rest => character :: dotted rest

/-- What an environment variable sets, if it sets anything. -/
def ofVariable? : String × String → Option Assignment
  | (name, value) =>
      (List.isPrefixOf? variableStart (Layer.foldCase name.toList)).map fun key =>
        { path := Layer.pathOfKey (dotted key), value := .text value }

/-- Load settings from the text of a file, if there is one, and environment
variables. -/
def load (file : Option (List Char)) (environment : List (String × String)) :
    Except LoadError Settings :=
  let written :=
    match file with
    | some text => SettingsFile.read? text
    | none => some []
  match written.bind fun assignments =>
      (Layer.ofAssignments
        (assignments ++ environment.filterMap ofVariable?)).toSettings? with
  | none => .error .unreadable
  | some settings =>
      match settings.check with
      | .error cause => .error (.invalid cause)
      | .ok () => .ok settings

end Settings

end Rebac
