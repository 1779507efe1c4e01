import Rebac.Program

/-!
# Command line

Reads what a run of the program needs from outside, runs it and writes what it
leaves behind.
-/

namespace Rebac

/-- Read a whole stream or file as text. -/
def contentOf (bytes : ByteArray) : FileContent :=
  match String.fromUTF8? bytes with
  | some text => .text text.toList
  | none => .notText

def readPath (path : String) : IO FileContent := do
  try
    return contentOf (← IO.FS.readBinFile path)
  catch
    | .noFileOrDirectory _ _ _ => return .absent
    | error => return .failed (toString error)

partial def readAll (stream : IO.FS.Stream) (read : ByteArray) : IO ByteArray := do
  let chunk ← stream.read 65536
  if chunk.isEmpty then return read else readAll stream (read ++ chunk)

def readVariables (names : List String) : IO (List (String × String)) := do
  let values ← names.mapM fun name => do
    return (← IO.getEnv name).map fun value => (name, value)
  return values.filterMap id

/-- The variables that a run looks at. -/
def variableNames : List String :=
  ["FGADSL_COMPILER__DEFAULT_SCHEMA_VERSION",
    "FGADSL_COMPILER__FALLBACK_USER_TYPE",
    "FGADSL_COMPILER__MAX_INPUT_BYTES", "FGADSL_LOGGING__LEVEL",
    "FGADSL_LOGGING__JSON", "RUST_LOG"]

/-- The world as far as an invocation looks at it. -/
def worldOf (invocation : Invocation) : IO World := do
  let environment ← readVariables variableNames
  let settings ←
    match invocation.settingsFile with
    | some path => readPath path
    | none => pure .absent
  let source ←
    if invocation.file = World.inputPath then
      return {
        file := fun _ => settings
        input := contentOf (← readAll (← IO.getStdin) ByteArray.empty)
        environment }
    else readPath invocation.file
  return {
    file := fun path => if path = invocation.file then source else settings
    input := .absent
    environment }

end Rebac

open Rebac in
def main (words : List String) : IO UInt32 := do
  let nowhere : World :=
    { file := fun _ => .absent, input := .absent, environment := [] }
  let world ←
    match Invocation.ofArguments? words with
    | some invocation => worldOf invocation
    | none => pure nowhere
  let outcome := world.run words
  for occurrence in outcome.log do
    let line :=
      if outcome.logging.json then occurrence.toJson.toCompact
      else occurrence.toText
    IO.eprintln (String.ofList line)
  if outcome.code = World.usageCode then
    IO.eprintln "usage: fgadsl [-c FILE] to-json|to-dsl|metadata|validate FILE"
  else if outcome.code ≠ 0 then IO.eprintln (String.ofList outcome.complaint)
  IO.print (String.ofList outcome.output)
  return outcome.code.toUInt32
