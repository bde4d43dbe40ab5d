import ClassSchema.CommandLine.Arguments
import ClassSchema.CommandLine.LogFilter
import ClassSchema.Glob
import ClassSchema.Json.Printer
import ClassSchema.ModelFile

/-!
# The program

The program is a function of its arguments, of the disk and of the filter in its environment; its answer is what it
prints, its exit code and the disk after it. It writes at most one file, and that only after the schema has been made.

Model files are given as paths or as patterns. All patterns are looked up before any file is read; the files are then
read in order and put together to one model.
-/

namespace ClassSchema

/-! ## Failures -/

/-- Why a file cannot be read as text. -/
inductive ReadFailure where
  | disk (e : DiskError)
  | notText
  deriving DecidableEq, Repr

/-- The words for a file that cannot be read. -/
def ReadFailure.message : ReadFailure → String
  | .disk e => e.message
  | .notText => "stream did not contain valid UTF-8"

/-- Why a command fails. -/
inductive CommandError where
  | invalidPattern (pattern : String) (e : GlobError)
  | noMatch (pattern : String)
  | unreadable (path : String) (e : ReadFailure)
  | invalidFile (path : String) (e : JsonError)
  | registry (e : RegistryError)
  | schema (e : SchemaError)
  | creating (path : String) (e : DiskError)
  | writing (path : String) (e : DiskError)
  | failedClasses (failed total : Nat)
  deriving Repr

/-- The words for a failed command, from what was attempted to what went wrong. A malformed annotation is worded twice:
as what is wrong with the class, and by itself. -/
def CommandError.message : CommandError → String
  | .invalidPattern pattern e => s!"failed to resolve model file paths: invalid glob pattern: {pattern}: {e.message}"
  | .noMatch pattern => s!"failed to resolve model file paths: glob pattern matched no files: {pattern}"
  | .unreadable path e => s!"failed to read model file {path}: {e.message}"
  | .invalidFile path e => ModelFile.invalidMessage path e
  | .registry e => e.message
  | .schema e =>
    match e.fault with
    | .malformed source => e.message ++ ": " ++ source.message
    | _ => e.message
  | .creating path e => s!"creating {path}: {e.message}"
  | .writing path e => s!"writing schema to {path}: {e.message}"
  | .failedClasses failed total => s!"{failed} of {total} classes failed"

/-! ## Models -/

/-- The paths of the model files that an argument stands for. -/
def modelPaths (d : Disk) (argument : String) : Except CommandError (List String) :=
  if isPattern argument then
    match d.glob argument with
    | .error e => .error (.invalidPattern argument e)
    | .ok [] => .error (.noMatch argument)
    | .ok paths => .ok paths
  else .ok [argument]

/-- The text of a file. -/
def Disk.readText (d : Disk) (path : String) : Except ReadFailure String :=
  match d.readFile path with
  | .error e => .error (.disk e)
  | .ok contents =>
    match String.fromUTF8? contents with
    | some text => .ok text
    | none => .error .notText

/-- Reads one model file. -/
def readModelFile (d : Disk) (path : String) : Traced CommandError ModelFile := do
  .report (.readingFile path)
  let text ← .ofExcept ((d.readText path).mapError (.unreadable path))
  .ofExcept ((ModelFile.parse text).mapError (.invalidFile path))

/-- The model of the files that arguments stand for. -/
def loadModel (d : Disk) (arguments : List String) : Traced CommandError Model := do
  let paths ← .ofExcept (arguments.mapM (modelPaths d))
  let files ← paths.flatten.mapM (readModelFile d)
  (Model.ofFiles files).mapError .registry

/-! ## Commands -/

/-- What a command prints, why it fails after that if it does, and the disk after it. -/
structure Outcome where
  stdout : String
  failure : Option CommandError
  disk : Disk

/-- Writes a text to a file, in directories that are made if they are missing. -/
def Disk.save (d : Disk) (path text : String) : Except CommandError Disk := do
  let made ← match parentParts? path with
    | none => .ok d
    | some parts => (d.makeDirectories parts.reverse).mapError (.creating (pathOfParts parts))
  (made.writeFile path text.toUTF8).mapError (.writing path)

/-- The line of a class that has been checked. -/
def checkLine (name : String) : Except SchemaError Schema → String
  | .ok _ => "ok " ++ name ++ "\n"
  | .error e => "FAIL " ++ name ++ ": " ++ e.message ++ "\n"

/-- Makes the schemas of classes one after the other; a failure does not keep the others from being made. -/
def generateEach (m : Model) (options : ExpansionOptions) (names : List String) :
    Traced CommandError (List (String × Except SchemaError Schema)) :=
  names.mapM fun name =>
    let made := m.generate options name
    ⟨made.events, .ok (name, made.result)⟩

/-- Carries out a command. -/
def Command.execute (d : Disk) : Command → Traced CommandError Outcome
  | .generate models options root out => do
    let m ← loadModel d models
    m.reportSharedNames
    let schema ← (m.generate options root).mapError .schema
    match out with
    | none => return ⟨schema.toJson.pretty ++ "\n", none, d⟩
    | some path => return ⟨"", none, ← .ofExcept (d.save path schema.toJson.pretty)⟩
  | .check models options => do
    let m ← loadModel d models
    m.reportSharedNames
    let results ← generateEach m options m.classes.names
    let failed := (results.filter fun r => !r.2.isOk).length
    let failure := if failed = 0 then none else some (.failedClasses failed results.length)
    return ⟨String.join (results.map fun r => checkLine r.1 r.2), failure, d⟩
  | .classes models => do
    let m ← loadModel d models
    let lines := m.classes.names.map ("class " ++ · ++ "\n") ++ m.enums.names.map ("enum  " ++ · ++ "\n")
    return ⟨String.join lines, none, d⟩

/-! ## Runs -/

/-- What a run of the program prints, its exit code, and the disk after it. -/
structure Reply where
  exit : Nat
  stdout : String
  stderr : String
  disk : Disk

/-- The name and the version of the program. -/
def versionText : String := "annot-schema 0.1.0"

/-- The filter of a run: the one in the environment if it is well formed, or else the one that the options ask for. -/
def Invocation.filter (i : Invocation) (environment : Option String) : LogFilter :=
  let fallback := if i.quiet then Level.error else if i.verbose then Level.debug else Level.warn
  (environment.bind LogFilter.parse?).getD (.ofLevel fallback)

/-- Runs an invocation. -/
def Invocation.run (d : Disk) (environment : Option String) (i : Invocation) : Reply :=
  let done := i.command.execute d
  let log := String.join ((done.events.filter (i.filter environment).admits).map fun e => e.line ++ "\n")
  let failed (e : CommandError) : String := log ++ "error: " ++ e.message ++ "\n"
  match done.result with
  | .error e => ⟨1, "", failed e, d⟩
  | .ok ⟨stdout, none, disk⟩ => ⟨0, stdout, log, disk⟩
  | .ok ⟨stdout, some e, disk⟩ => ⟨1, stdout, failed e, disk⟩

/-- Runs the program. -/
def runProgram (d : Disk) (args : List String) (environment : Option String) : Reply :=
  match Invocation.ofArguments args with
  | .ok i => i.run d environment
  | .error .help => ⟨0, aboutText ++ "\n", "", d⟩
  | .error .version => ⟨0, versionText ++ "\n", "", d⟩
  | .error (.usage e) => ⟨2, "", e.message ++ "\n", d⟩

end ClassSchema
