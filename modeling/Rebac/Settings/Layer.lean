import Rebac.Settings
import Rebac.Settings.Scalar

/-!
# Layers of settings

Settings come from a file and from environment variables, the latter over the
former.  Each source is a list of assignments to paths of keys, whose case does
not matter.  They are brought into one tree of scalars, and a field then
converts the scalar that it finds.
-/

namespace Rebac

/-- One setting of a source: the keys that lead to it and its scalar. -/
structure Assignment where
  path : List String
  value : Scalar
  deriving Repr, DecidableEq

inductive Layer where
  | scalar (value : Scalar)
  | table (entries : List (String × Layer))
  deriving Repr

namespace Layer

def empty : Layer :=
  .table []

def find? (key : String) : List (String × Layer) → Option Layer
  | [] => none
  | (other, layer) :: entries =>
      if other = key then some layer else find? key entries

def putEntry (key : String) (layer : Layer) :
    List (String × Layer) → List (String × Layer)
  | [] => [(key, layer)]
  | (other, old) :: entries =>
      if other = key then (key, layer) :: entries
      else (other, old) :: putEntry key layer entries

/-- Put a layer at a path, turning whatever stands in the way into tables. -/
def putAt (layer : Layer) : List String → Layer → Layer
  | [], _ => layer
  | key :: path, .table entries =>
      .table (putEntry key (putAt layer path ((find? key entries).getD empty)) entries)
  | key :: path, .scalar _ => .table [(key, putAt layer path empty)]

/-- Bring a key to lower case, since keys that differ only in case are the same
key.  Of the characters beyond ASCII only the Kelvin sign becomes an ASCII
letter; the case of all others makes no difference to the keys of fields. -/
def foldCase (key : List Char) : List Char :=
  key.map fun character => if character = '\u212a' then 'k' else character.toLower

/-- Put an assignment over a layer. -/
def put (layer : Layer) (assignment : Assignment) : Layer :=
  putAt (.scalar assignment.value)
    (assignment.path.map fun key => String.ofList (foldCase key.toList)) layer

/-- The layer of some assignments; a later one wins over an earlier one. -/
def ofAssignments (assignments : List Assignment) : Layer :=
  assignments.foldl put empty

/-- Whether a text can be one of several keys in a path. -/
def isStep (text : List Char) : Bool :=
  !text.isEmpty && text.all fun character =>
    character.isAlphanum || character = '_' || character = '-' || character = ' '

/-- The path that a key spells with dots.  A key with other characters or an
empty step stands for itself. -/
def pathOfKey (key : List Char) : List String :=
  let steps := key.splitOn '.'
  if steps.all isStep then steps.map String.ofList else [String.ofList key]

/-- Read a field of a table with a conversion of its own. -/
def field? {α : Type} (entries : List (String × Layer)) (key : String)
    (absent : α) (convert : Scalar → Option α) : Option α :=
  match find? key entries with
  | none => some absent
  | some (.scalar value) => convert value
  | some (.table _) => none

/-- Read a section that has to be a table. -/
def section? {α : Type} (entries : List (String × Layer)) (key : String)
    (absent : α) (convert : List (String × Layer) → Option α) : Option α :=
  match find? key entries with
  | none => some absent
  | some (.table entries) => convert entries
  | some (.scalar _) => none

def toCompiler? (entries : List (String × Layer)) : Option CompilerSettings := do
  let standard := CompilerSettings.standard
  let defaultSchemaVersion ← field? entries "default_schema_version"
    standard.defaultSchemaVersion Scalar.toText?
  let fallbackUserType ← field? entries "fallback_user_type"
    standard.fallbackUserType Scalar.toText?
  let maxInputBytes ← field? entries "max_input_bytes"
    standard.maxInputBytes Scalar.toSize?
  some { defaultSchemaVersion, fallbackUserType, maxInputBytes }

def toLogging? (entries : List (String × Layer)) : Option LoggingSettings := do
  let standard := LoggingSettings.standard
  let level ← field? entries "level" standard.level Scalar.toText?
  let json ← field? entries "json" standard.json Scalar.toSwitch?
  some { level, json }

/-- The settings of a layer over the standard ones. -/
def toSettings? : Layer → Option Settings
  | .scalar _ => none
  | .table entries => do
      let standard := Settings.standard
      let compiler ← section? entries "compiler" standard.compiler toCompiler?
      let logging ← section? entries "logging" standard.logging toLogging?
      some { compiler, logging }

end Layer

end Rebac
