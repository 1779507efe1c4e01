import Rebac.Condition.Block
import Rebac.Dsl.Statement

/-!
# Drafts of models

Statements are applied one after the other to a draft.  A `type` statement
opens a type, to which the following `define` statements add relations; a
condition closes it, since conditions stand at top level.
-/

namespace Rebac.Dsl

structure Draft where
  model : Model
  /-- The position of the type that is open for relations. -/
  current : Option Nat
  /-- The names of the conditions read so far. -/
  conditionNames : List String
  deriving Repr, DecidableEq

namespace Draft

def start (schemaVersion : String) : Draft :=
  { model := Model.ofSchema schemaVersion, current := none, conditionNames := [] }

/-- The argument of a keyword that stands at the start of a statement. -/
def argument? (keyword text : List Char) : Option (List Char) :=
  match afterKeyword? keyword text with
  | none => none
  | some rest =>
      let argument := Text.trim rest
      if argument.isEmpty then none else some argument

def setSchema (draft : Draft) (version : List Char) : Except Fault Draft :=
  if version.any Text.isBlank then
    .error (.unexpectedStatement (.schemaVersion (String.ofList version)))
  else
    .ok { draft with
      model := { draft.model with schemaVersion := String.ofList version } }

def openType (draft : Draft) (name : String) : Except Fault Draft :=
  if isName name then
    if draft.model.hasType name then .error (.duplicateType name)
    else
      .ok { draft with
        model := { draft.model with
          types := draft.model.types ++ [{ name, relations := [] }] }
        current := some draft.model.types.length }
  else .error (.invalidTypeName name)

/-- Add a relation to the type at a position. -/
def addRelation (draft : Draft) (position : Nat) (relation : Relation) : Draft :=
  { draft with
    model := { draft.model with
      types := draft.model.types.modify position fun type =>
        { type with relations := type.relations ++ [relation] } } }

def define (draft : Draft) (definition : List Char) : Except Fault Draft :=
  match draft.current with
  | none => .error (.outsideType .define)
  | some position =>
      match draft.model.types[position]? with
      | none => .error (.outsideType .define)
      | some type =>
          match Text.splitOnce ':' definition with
          | none =>
              .error (.unexpectedStatement (.noColon (String.ofList definition)))
          | some (before, after) =>
              let name := String.ofList (Text.trim before)
              if isName name then
                if (type.relation? name).isSome then
                  .error (.duplicateRelation name type.name)
                else
                  match Relation.Body.ofText after with
                  | .error error => .error (.relation error)
                  | .ok body =>
                      .ok (draft.addRelation position
                        { name, rule := body.rule, userTypes := body.userTypes })
              else .error (.invalidRelationName name)

def addCondition (draft : Draft) (text : List Char) : Except Fault Draft :=
  match Condition.ofText text with
  | .error cause => .error (.condition cause)
  | .ok condition =>
      if draft.conditionNames.contains condition.name then
        .error (.duplicateCondition condition.name)
      else
        .ok {
          model := { draft.model with
            conditions := draft.model.conditions ++ [condition] }
          current := none
          conditionNames := condition.name :: draft.conditionNames }

/-- Apply the text of a statement. -/
def applyText (draft : Draft) (text : List Char) : Except Fault Draft :=
  if startsCondition text then draft.addCondition text
  else if text = "model".toList then .ok draft
  else
    match argument? "schema".toList text with
    | some version => draft.setSchema version
    | none =>
        match argument? "type".toList text with
        | some name => draft.openType (String.ofList name)
        | none =>
            if text = "relations".toList then
              if draft.current.isSome then .ok draft
              else .error (.outsideType .relations)
            else
              match afterKeyword? "define".toList text with
              | some definition => draft.define definition
              | none =>
                  .error (.unexpectedStatement (.unknown (String.ofList text)))

def apply (draft : Draft) (statement : Statement) : Except Error Draft :=
  match draft.applyText statement.text with
  | .error fault => .error { line := statement.line, fault }
  | .ok draft => .ok draft

/-- Apply statements in order up to the first that fails. -/
def applyAll (draft : Draft) : List Statement → Except Error Draft
  | [] => .ok draft
  | statement :: statements =>
      match draft.apply statement with
      | .error error => .error error
      | .ok draft => draft.applyAll statements

end Draft

/-- Read a model from DSL text, given the schema version of texts that do not
state one. -/
def read (schemaVersion : String) (text : List Char) : Except Error Model :=
  match scan text with
  | .error error => .error error
  | .ok statements =>
      ((Draft.start schemaVersion).applyAll statements).map (·.model)

end Rebac.Dsl
