import Rebac.Command
import Rebac.Settings.Load

/-!
# The program

A run of the program reads its arguments, loads its settings, reads a source
text and runs a command on it.  What a run reads from outside is given as data,
so that its exit code and everything that it prints is a function of it.
-/

namespace Rebac

/-- What the arguments ask for. -/
structure Invocation where
  settingsFile : Option String
  command : Command
  file : String
  deriving Repr, DecidableEq

namespace Invocation

/-- A word that cannot be a value, because it would be an option. -/
def isOption (word : String) : Bool :=
  match word.toList with
  | '-' :: _ :: _ => true
  | _ => false

/-- The value that is attached to the option for the settings file. -/
def attachedValue? (word : List Char) : Option (List Char) :=
  match List.isPrefixOf? "--config=".toList word with
  | some value => some value
  | none =>
      match word with
      | '-' :: 'c' :: '=' :: value => some value
      | '-' :: 'c' :: first :: rest => some (first :: rest)
      | _ => none

/-- Read the arguments of a command: one file, which `--` may precede. -/
def readCommand? (settingsFile : Option String) (command : Command) :
    List String → Option Invocation
  | [file] =>
      if isOption file || file.toList.isEmpty then none
      else some { settingsFile, command, file }
  | ["--", file] =>
      if file.toList.isEmpty then none else some { settingsFile, command, file }
  | [file, "--"] =>
      if isOption file || file.toList.isEmpty then none
      else some { settingsFile, command, file }
  | _ => none

/-- Read arguments, given the settings file named before them. -/
def readFrom? (settingsFile : Option String) : List String → Option Invocation
  | [] => none
  | word :: words =>
      if word = "-c" || word = "--config" then
        match words with
        | [] => none
        | value :: words =>
            if settingsFile.isSome || isOption value then none
            else readFrom? (some value) words
      else
        match attachedValue? word.toList with
        | some value =>
            if settingsFile.isSome then none
            else readFrom? (some (String.ofList value)) words
        | none => do
            let command ← Command.ofName? word
            readCommand? settingsFile command words

/-- Read the arguments of a run. -/
def ofArguments? (words : List String) : Option Invocation :=
  readFrom? none words

end Invocation

/-- The outcome of reading a file. -/
inductive FileContent where
  | text (text : List Char)
  | absent
  | notText
  | failed (cause : String)
  deriving Repr, DecidableEq

/-- What a run reads from outside. -/
structure World where
  file : String → FileContent
  input : FileContent
  environment : List (String × String)

/-- What a run leaves behind.  `log` are the lines before `complaint`, which are
written to the same stream. -/
structure Outcome where
  code : Nat
  output : List Char
  logging : Logging
  log : List Occurrence
  complaint : List Char

/-- Causes for which a run fails. -/
inductive RunError where
  | load (error : LoadError)
  | unreadInput (path : String) (cause : String)
  | compile (error : CompileError)
  deriving Repr, DecidableEq

namespace RunError

def message : RunError → String
  | .load error => error.message
  | .unreadInput path _ => "failed to read model from " ++ path
  | .compile error => error.message

def cause? : RunError → Option String
  | .load _ => none
  | .unreadInput _ cause => some cause
  | .compile error => error.cause?

/-- Put four blanks in front of every line. -/
def indent (text : List Char) : List Char :=
  "    ".toList ++ text.flatMap fun character =>
    if character = '\n' then "\n    ".toList else [character]

/-- What a failing run prints. -/
def complaint (error : RunError) : List Char :=
  "Error: ".toList ++ error.message.toList ++
    match error.cause? with
    | some cause => "\n\nCaused by:\n".toList ++ indent cause.toList
    | none => []

end RunError

namespace World

/-- The path that stands for the standard input. -/
def inputPath : String := "-"

/-- Read a source text. -/
def readSource (world : World) (path : String) : Except RunError (List Char) :=
  let (shown, content) :=
    if path = inputPath then ("stdin", world.input) else (path, world.file path)
  match content with
  | .text text => .ok text
  | .absent => .error (.unreadInput shown "No such file or directory (os error 2)")
  | .notText => .error (.unreadInput shown "stream did not contain valid UTF-8")
  | .failed cause => .error (.unreadInput shown cause)

/-- Load settings, possibly from a file. -/
def loadSettings (world : World) (path : Option String) :
    Except LoadError Settings :=
  match path with
  | none => Settings.load none world.environment
  | some path =>
      match world.file path with
      | .absent => .error (.fileNotFound path)
      | .text text => Settings.load (some text) world.environment
      | .notText => .error .unreadable
      | .failed _ => .error .unreadable

/-- The threshold of log lines.  A variable may override the settings; a value
that names no level lets nothing through. -/
def threshold? (world : World) (logging : Logging) : Option Level :=
  match world.environment.find? (·.1 = "RUST_LOG") with
  | some (_, value) => Level.ofName? value
  | none => some logging.level

def shownLog (world : World) (logging : Logging) (log : List Occurrence) :
    List Occurrence :=
  match world.threshold? logging with
  | some threshold => log.filter (·.passes threshold)
  | none => []

/-- The exit code of a run whose arguments are refused. -/
def usageCode : Nat := 2

/-- Drop all line feeds at the end and put one there. -/
def finishLine (output : List Char) : List Char :=
  (output.reverse.dropWhile (· == '\n')).reverse ++ ['\n']

/-- Run the program. -/
def run (world : World) (words : List String) : Outcome :=
  let plain := LoggingSettings.standard.toLogging
  let failed := fun logging log error =>
    { code := 1, output := [], logging, log := world.shownLog logging log,
      complaint := RunError.complaint error }
  match Invocation.ofArguments? words with
  | none =>
      { code := usageCode, output := [], logging := plain, log := [], complaint := [] }
  | some invocation =>
      match world.loadSettings invocation.settingsFile with
      | .error error => failed plain [] (.load error)
      | .ok settings =>
          let logging := settings.logging.toLogging
          match world.readSource invocation.file with
          | .error error => failed logging [] error
          | .ok text =>
              let log :=
                { event := .inputRead (Text.byteSize text), span := none } ::
                  invocation.command.events settings.compiler text
              match invocation.command.execute settings.compiler text with
              | .error error => failed logging log (.compile error)
              | .ok output =>
                  { code := 0, output := finishLine output, logging,
                    log := world.shownLog logging log, complaint := [] }

end World

end Rebac
