import ClassSchema.CommandLine.Program

/-!
# The executable

The program is run on a copy of what its arguments can reach in the file system: the model files, the names that a
pattern is compared with, and what is along the way to the file that is written. What the run adds to the copy is then
written to the file system.
-/

namespace ClassSchema

/-- The text of the path of given names from the root. -/
def absolutePath (names : List String) : String := "/" ++ "/".intercalate names

/-- The names in a directory of the file system, if there is a directory under a path. -/
def directoryNames? (path : List String) : IO (Option (List String)) := do
  try
    let entries ← (← IO.FS.realPath (absolutePath path)).readDir
    return some (entries.toList.map (·.fileName))
  catch _ => return none

/-- Copies what is under a path that leads somewhere. Of a file only that it is there is copied. -/
def copyName (d : Disk) (path : List String) : IO Disk := do
  if (d.entry? path).isSome then return d
  return d.set path (if (← directoryNames? path).isSome then .directory else .file ByteArray.empty)

/-- Copies what is along the parts of a path, as far as they lead somewhere. -/
def copyAlong (d : Disk) (here : List String) : List String → IO Disk
  | [] => return d
  | part :: parts => do
    if isIdlePart part then copyAlong d here parts
    else if part = ".." then copyAlong d here.dropLast parts
    else if part ∈ (← directoryNames? here).getD [] then
      copyAlong (← copyName d (here ++ [part])) (here ++ [part]) parts
    else return d

/-- Copies what is inside a directory, down to a number of levels. -/
def copyInside (d : Disk) (path : List String) : Nat → IO Disk
  | 0 => return d
  | levels + 1 => do
    let names := (← directoryNames? path).getD []
    names.foldlM (fun d name => do copyInside (← copyName d (path ++ [name])) (path ++ [name]) levels) d

/-- The number of levels below which no path is short enough for the file system. -/
def deepestLevel : Nat := 4096

/-- Whether a part of a pattern may lead to the directory above. -/
def mayGoUp (part : String) : Bool := part == ".." || (part.toList.head? == some '.' && isPattern part)

/-- Copies the names that a pattern is compared with. The parts before the first that has a wildcard are followed, and
then as many directories are left as there are parts that may go up. What is inside is copied down to as many levels as
there are parts to go. -/
def copyForPattern (d : Disk) (pattern : String) : IO Disk := do
  let parts := partsOf '/' pattern
  let plain := parts.takeWhile (!isPattern ·)
  let others := parts.drop plain.length
  let up := (others.filter mayGoUp).length
  let d ← copyAlong d (d.startOf parts) plain
  match d.follow (d.startOf parts) plain with
  | .ok start => copyInside d (start.take (start.length - up)) (if "**" ∈ parts then deepestLevel else others.length + up)
  | .error _ => return d

/-- Copies the contents of a file, if a path names one. -/
def copyContents (d : Disk) (path : String) : IO Disk := do
  match d.locate path with
  | .error _ => return d
  | .ok found =>
    match d.entry? found with
    | some (.file _) => return d.set found (.file (← IO.FS.readBinFile (absolutePath found)))
    | _ => return d

/-- A copy of what a command can reach. -/
def copyFor (d : Disk) (c : Command) : IO Disk := do
  let names ← c.models.foldlM (fun d model =>
    if isPattern model then copyForPattern d model
    else copyAlong d (d.startOf (partsOf '/' model)) (partsOf '/' model)) d
  let paths := (c.models.filterMap fun model => (modelPaths names model).toOption).flatten
  let read ← paths.foldlM copyContents names
  match c with
  | .generate _ _ _ (some out) => copyAlong read (read.startOf (partsOf '/' out)) (partsOf '/' out)
  | _ => return read

/-- Writes what a disk has and another has not to the file system. -/
def writeChanges (before after : Disk) : IO Unit :=
  after.entries.forM fun e => do
    if before.entry? e.1 ≠ some e.2 then
      match e.2 with
      | .directory => IO.FS.createDir (absolutePath e.1)
      | .file contents => IO.FS.writeBinFile (absolutePath e.1) contents

/-- The copy of the working directory and of the directories that it is in. -/
def workingDisk : IO Disk := do
  let here := (partsOf '/' (← IO.currentDir).toString).filter (!isIdlePart ·)
  copyAlong ⟨[], here⟩ [] here

end ClassSchema

open ClassSchema in
/-- Runs the program on the file system. -/
def main (args : List String) : IO UInt32 := do
  let start ← workingDisk
  let disk ← match Invocation.ofArguments args with
    | .ok invocation => copyFor start invocation.command
    | .error _ => pure start
  let reply := runProgram disk args (← IO.getEnv "ANNOT_SCHEMA_LOG")
  writeChanges disk reply.disk
  IO.print reply.stdout
  IO.eprint reply.stderr
  return UInt32.ofNat reply.exit
