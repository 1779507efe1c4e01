import Rebac.Json
import Rebac.Model
import Rebac.Text.Blank

/-!
# Settings

The compiler has three knobs and logging has two.  Settings are checked before
a program run uses them; the compiler itself takes any.
-/

namespace Rebac

structure CompilerSettings where
  /-- The schema version of DSL texts that do not state one. -/
  defaultSchemaVersion : String
  /-- The user type offered for relations without direct user types. -/
  fallbackUserType : String
  /-- The size in bytes of the largest input that is accepted. -/
  maxInputBytes : Nat
  deriving Repr, DecidableEq

def CompilerSettings.standard : CompilerSettings :=
  { defaultSchemaVersion := Model.defaultSchemaVersion
    fallbackUserType := "user"
    maxInputBytes := 1024 * 1024 }

instance : Inhabited CompilerSettings :=
  ⟨CompilerSettings.standard⟩

structure LoggingSettings where
  level : String
  json : Bool
  deriving Repr, DecidableEq

def LoggingSettings.standard : LoggingSettings :=
  { level := "warn", json := false }

structure Settings where
  compiler : CompilerSettings
  logging : LoggingSettings
  deriving Repr, DecidableEq

def Settings.standard : Settings :=
  { compiler := CompilerSettings.standard, logging := LoggingSettings.standard }

/-- Severities of log events, from the most to the least severe. -/
inductive Level where
  | error
  | warn
  | info
  | debug
  | trace
  deriving Repr, DecidableEq

namespace Level

def all : List Level :=
  [.trace, .debug, .info, .warn, .error]

def name : Level → String
  | .error => "error"
  | .warn => "warn"
  | .info => "info"
  | .debug => "debug"
  | .trace => "trace"

/-- The name in capitals, as log lines show it. -/
def label (level : Level) : String :=
  String.ofList (level.name.toList.map Char.toUpper)

def severity : Level → Nat
  | .error => 1
  | .warn => 2
  | .info => 3
  | .debug => 4
  | .trace => 5

/-- The level of a name in any case. -/
def ofName? (name : String) : Option Level :=
  all.find? fun level => level.name.toList = name.toList.map Char.toLower

theorem ofName?_name (level : Level) : ofName? level.name = some level := by
  cases level <;> decide

end Level

/-- Settings that a program run refuses. -/
inductive SettingsFault where
  | unknownLevel (level : String)
  | emptySchemaVersion
  | emptyFallback
  | noInput
  deriving Repr, DecidableEq

def SettingsFault.message : SettingsFault → String
  | .unknownLevel level =>
      "logging.level must be one of: [" ++
        ", ".intercalate (Level.all.map fun level => "\"" ++ level.name ++ "\"") ++
        "], got: " ++ level
  | .emptySchemaVersion => "compiler.default_schema_version must not be empty"
  | .emptyFallback => "compiler.fallback_user_type must not be empty"
  | .noInput => "compiler.max_input_bytes must be greater than 0"

def isBlankText (text : String) : Bool :=
  (Text.trim text.toList).isEmpty

/-- The first fault in some settings. -/
def Settings.check (settings : Settings) : Except SettingsFault Unit :=
  if (Level.ofName? settings.logging.level).isNone then
    .error (.unknownLevel settings.logging.level)
  else if isBlankText settings.compiler.defaultSchemaVersion then
    .error .emptySchemaVersion
  else if isBlankText settings.compiler.fallbackUserType then .error .emptyFallback
  else if settings.compiler.maxInputBytes = 0 then .error .noInput
  else .ok ()

/-- How log lines are written. -/
structure Logging where
  json : Bool
  level : Level
  deriving Repr, DecidableEq

/-- An unknown level stands for warnings. -/
def LoggingSettings.toLogging (settings : LoggingSettings) : Logging :=
  { json := settings.json, level := (Level.ofName? settings.level).getD .warn }

/-- Read an optional member with a reader of its own. -/
def Json.readMember? {α : Type} (value : Json) (key : String) (absent : α)
    (read : Json → Option α) : Option α :=
  match value.member? key with
  | none => some absent
  | some member => read member

def Json.text? : Json → Option String
  | .string text => some text
  | _ => none

def Json.natural? : Json → Option Nat
  | .number (.natural value) => some value
  | _ => none

def Json.flag? : Json → Option Bool
  | .bool value => some value
  | _ => none

def CompilerSettings.keys : List String :=
  ["default_schema_version", "fallback_user_type", "max_input_bytes"]

def CompilerSettings.ofJson? (value : Json) : Option CompilerSettings := do
  let standard := CompilerSettings.standard
  let record ← value.named? keys
  let defaultSchemaVersion ← record.readMember? "default_schema_version"
    standard.defaultSchemaVersion Json.text?
  let fallbackUserType ← record.readMember? "fallback_user_type"
    standard.fallbackUserType Json.text?
  let maxInputBytes ← record.readMember? "max_input_bytes"
    standard.maxInputBytes Json.natural?
  some { defaultSchemaVersion, fallbackUserType, maxInputBytes }

def LoggingSettings.keys : List String :=
  ["level", "json"]

def LoggingSettings.ofJson? (value : Json) : Option LoggingSettings := do
  let standard := LoggingSettings.standard
  let record ← value.named? keys
  let level ← record.readMember? "level" standard.level Json.text?
  let json ← record.readMember? "json" standard.json Json.flag?
  some { level, json }

def Settings.keys : List String :=
  ["compiler", "logging"]

/-- Read settings from a JSON value; absent members keep their standard
values. -/
def Settings.ofJson? (value : Json) : Option Settings := do
  let standard := Settings.standard
  let record ← value.named? keys
  let compiler ← record.readMember? "compiler" standard.compiler
    CompilerSettings.ofJson?
  let logging ← record.readMember? "logging" standard.logging
    LoggingSettings.ofJson?
  some { compiler, logging }

end Rebac
