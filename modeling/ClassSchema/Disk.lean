import ClassSchema.Text.Split

/-!
# Files and directories

A disk is a set of entries under absolute paths, with a working directory from which relative paths are read. A path is
a text whose parts are divided by `/`; it is followed part by part, and every part but the last must lead to a
directory. An empty part and `.` stay where they are, so that a path with `/` at its end names a directory only; `..`
goes up, and stays at the root. A path that is too long is not followed at all; a name that is too long is refused when
it is looked up.
-/

namespace ClassSchema

/-- What is under a path. -/
inductive Entry where
  | file (contents : ByteArray)
  | directory

instance : DecidableEq Entry
  | .directory, .directory => .isTrue rfl
  | .file a, .file b =>
    match ByteArray.instDecidableEq a b with
    | .isTrue h => .isTrue (congrArg Entry.file h)
    | .isFalse h => .isFalse fun e => h (Entry.file.inj e)
  | .file _, .directory => .isFalse nofun
  | .directory, .file _ => .isFalse nofun

/-- Why an operation on a disk fails. -/
inductive DiskError where
  | notFound
  | alreadyExists
  | notDirectory
  | isDirectory
  | nameTooLong
  deriving DecidableEq, Repr

/-- The words for a failed operation, with its number. -/
def DiskError.message : DiskError → String
  | .notFound => "No such file or directory (os error 2)"
  | .alreadyExists => "File exists (os error 17)"
  | .notDirectory => "Not a directory (os error 20)"
  | .isDirectory => "Is a directory (os error 21)"
  | .nameTooLong => "File name too long (os error 36)"

/-- Entries under absolute paths, and the path of the working directory. A path here is the list of the names from the
root; the root itself needs no entry. -/
structure Disk where
  entries : List (List String × Entry)
  workingDirectory : List String

/-! ## Path texts -/

/-- A part of a path that leads nowhere. -/
def isIdlePart (part : String) : Bool := part == "" || part == "."

/-- The parts of a path, last first, without those at the end that lead nowhere. The first part of a path is kept. -/
def dropIdleParts : List String → List String
  | [] => []
  | [part] => [part]
  | part :: before => if isIdlePart part then dropIdleParts before else part :: before

/-- The parts of the path of the directory that a path is in: none for a path of one part, and no result for the root. -/
def parentParts? (path : String) : Option (List String) :=
  match dropIdleParts (partsOf '/' path).reverse with
  | [] => none
  | [part] => if part = "" then none else some []
  | _ :: before => some (dropIdleParts before).reverse

/-- The text of a path of given parts. -/
def pathOfParts (parts : List String) : String := if parts = [""] then "/" else "/".intercalate parts

/-- The most bytes that a name may have. -/
def longestName : Nat := 255

/-- The most bytes that a path may have. -/
def longestPath : Nat := 4095

/-- Whether a name has too many bytes. -/
def isLongName (name : String) : Bool := longestName < name.utf8ByteSize

/-- Whether the path of given parts has too many bytes. -/
def isLongPath (parts : List String) : Bool := longestPath < (pathOfParts parts).utf8ByteSize

/-- Whether one list of names comes before another or is the same: the first names that differ decide. -/
def namesBefore : List String → List String → Bool
  | [], _ => true
  | _ :: _, [] => false
  | a :: as, b :: bs => if a = b then namesBefore as bs else a < b

/-- A path one part longer. -/
def joinPath (path part : String) : String :=
  if path.toList.getLast? = some '/' then path ++ part else path ++ "/" ++ part

namespace Disk

/-- The entry under an absolute path. -/
def entry? (d : Disk) (path : List String) : Option Entry :=
  if path = [] then some .directory else (d.entries.find? (·.1 == path)).map (·.2)

/-- The names of the entries in a directory, in order. -/
def children (d : Disk) (path : List String) : List String :=
  (d.entries.filterMap fun e => if e.1.dropLast = path then e.1.getLast? else none).mergeSort fun a b => !(b < a)

/-- The names from a directory to each entry inside it, at any depth: a directory before what is in it, and otherwise in
the order of the names. -/
def descendants (d : Disk) (path : List String) : List (List String) :=
  (d.entries.filterMap fun e =>
    if path.isPrefixOf e.1 ∧ path ≠ e.1 then some (e.1.drop path.length) else none).mergeSort namesBefore

/-- The directory under an absolute path. -/
def directory (d : Disk) (path : List String) : Except DiskError (List String) :=
  match d.entry? path with
  | none => .error .notFound
  | some .directory => .ok path
  | some (.file _) => .error .notDirectory

/-- Follows parts from an absolute path to the absolute path of an entry. -/
def follow (d : Disk) (start : List String) : List String → Except DiskError (List String)
  | [] => .ok start
  | part :: parts => do
    let here ← d.directory start
    if isIdlePart part then d.follow here parts
    else if part = ".." then d.follow here.dropLast parts
    else if isLongName part then .error .nameTooLong
    else match d.entry? (here ++ [part]) with
      | none => .error .notFound
      | some _ => d.follow (here ++ [part]) parts

/-- Where the parts of a path are followed from: an empty first part is the root. -/
def startOf (d : Disk) (parts : List String) : List String :=
  if parts.head? = some "" then [] else d.workingDirectory

/-- Follows the parts of a path that is not too long. -/
def locateParts (d : Disk) (parts : List String) : Except DiskError (List String) :=
  if isLongPath parts then .error .nameTooLong else d.follow (d.startOf parts) parts

/-- The absolute path of the entry that a path names. -/
def locate (d : Disk) (path : String) : Except DiskError (List String) :=
  if path = "" then .error .notFound else d.locateParts (partsOf '/' path)

/-- Whether a path names an entry. -/
def isPresent (d : Disk) (path : String) : Bool := (d.locate path).toOption.isSome

/-- The directory that a path names. -/
def directoryAt? (d : Disk) (path : String) : Option (List String) :=
  (d.locate path).toOption.filter fun found => d.entry? found == some .directory

/-- The contents of the file that a path names. -/
def readFile (d : Disk) (path : String) : Except DiskError ByteArray := do
  match d.entry? (← d.locate path) with
  | some (.file contents) => return contents
  | some .directory => throw .isDirectory
  | none => throw .notFound

/-- The disk with an entry put under an absolute path. -/
def set (d : Disk) (path : List String) (e : Entry) : Disk :=
  { d with entries := d.entries.filter (·.1 != path) ++ [(path, e)] }

/-- The directory that the last of some parts is in, followed part by part. -/
def directoryOf (d : Disk) (parts : List String) : Except DiskError (List String) := do
  d.directory (← d.follow (d.startOf parts) parts.dropLast)

/-- Makes the directory that parts name. -/
def makeDirectory (d : Disk) (parts : List String) : Except DiskError Disk := do
  if isLongPath parts then throw .nameTooLong
  let here ← d.directoryOf parts
  let name := parts.getLastD ""
  if isIdlePart name ∨ name = ".." then throw .alreadyExists
  if isLongName name then throw .nameTooLong
  if (d.entry? (here ++ [name])).isSome then throw .alreadyExists
  return d.set (here ++ [name]) .directory

/-- Whether parts name a directory. -/
def isDirectory (d : Disk) (parts : List String) : Bool :=
  match d.locateParts parts with
  | .ok found => d.entry? found == some .directory
  | .error _ => false

/-- Makes the directory that parts name, given last first, and the directories it is in. What is a directory already is
left as it is. -/
def makeDirectories (d : Disk) : List String → Except DiskError Disk
  | [] => .ok d
  | [""] => .ok d
  | part :: before =>
    if before ≠ [] ∧ isIdlePart part then d.makeDirectories before
    else
      match d.makeDirectory (part :: before).reverse with
      | .ok made => .ok made
      | .error .notFound => do
        let below ← d.makeDirectories before
        match below.makeDirectory (part :: before).reverse with
        | .ok made => .ok made
        | .error e => if below.isDirectory (part :: before).reverse then .ok below else .error e
      | .error e => if d.isDirectory (part :: before).reverse then .ok d else .error e

/-- Writes the file that a path names, in place of the file that is there. A path with `/`, `.` or `..` at its end names
no file. -/
def writeFile (d : Disk) (path : String) (contents : ByteArray) : Except DiskError Disk := do
  let parts := partsOf '/' path
  if isLongPath parts then throw .nameTooLong
  let named := (parts.reverse.dropWhile (· == "")).reverse
  let here ← d.directoryOf named
  let name := named.getLastD ""
  if named ≠ parts ∨ isIdlePart name ∨ name = ".." then throw .isDirectory
  if isLongName name then throw .nameTooLong
  if d.entry? (here ++ [name]) = some .directory then throw .isDirectory
  return d.set (here ++ [name]) (.file contents)

end Disk

end ClassSchema
