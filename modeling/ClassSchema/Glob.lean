import ClassSchema.Disk

/-!
# Path patterns

A pattern is a path some of whose parts stand for several names: `*` is any run of characters, `?` is one character,
`[abc]` and `[a-z]` are one of several characters, and `[!abc]` is one character but these. A part `**` stands for any
number of directories. Upper and lower case differ, and a leading dot in a name needs no dot in the pattern.

A pattern is checked as a whole before it is used, and then every part of it is checked by itself: a bracket that holds
a `/` passes the first check and fails the second. A fault counts characters from the start of what is checked.
-/

namespace ClassSchema

/-! ## Patterns -/

/-- A piece of a pattern. -/
inductive GlobToken where
  | char (c : Char)
  /-- One character. -/
  | anyChar
  /-- Any run of characters. -/
  | anyRun
  /-- Any number of directories. -/
  | anyDirectories
  /-- One character of these ranges, or one of no range. -/
  | oneOf (negated : Bool) (ranges : List (Char × Char))
  deriving DecidableEq, Repr

/-- Why a pattern is refused. -/
inductive GlobFault where
  | wildcards
  | recursiveWildcards
  | invalidRange
  deriving DecidableEq, Repr

/-- A fault and the number of characters before it. -/
structure GlobError where
  position : Nat
  fault : GlobFault
  deriving DecidableEq, Repr

/-- The words for a fault of a pattern. -/
def GlobFault.text : GlobFault → String
  | .wildcards => "wildcards are either regular `*` or recursive `**`"
  | .recursiveWildcards => "recursive wildcards must form a single path component"
  | .invalidRange => "invalid range pattern"

/-- The words for a refused pattern. -/
def GlobError.message (e : GlobError) : String := s!"Pattern syntax error near position {e.position}: {e.fault.text}"

namespace GlobToken

/-- The ranges inside a bracket: three characters of which the second is `-`, or one character alone. -/
def rangesOf : List Char → List (Char × Char)
  | first :: '-' :: last :: cs => (first, last) :: rangesOf cs
  | c :: cs => (c, c) :: rangesOf cs
  | [] => []

/-- The bracket that opens before a text, and how many characters it takes without its opening. The first character in
it, after a `!`, does not close it. -/
def bracket? (cs : List Char) : Option (GlobToken × Nat) :=
  let negated := cs.head? = some '!'
  let inside := if negated then cs.drop 1 else cs
  match inside with
  | [] => none
  | first :: others =>
    if ']' ∈ others then
      let held := first :: others.takeWhile (· != ']')
      some (.oneOf negated (rangesOf held), held.length + 1 + (if negated then 1 else 0))
    else none

/-- The tokens of a pattern from a place in it on, given the character before that place and the number of characters
before it. -/
def scan (before : Option Char) (position : Nat) (cs : List Char) : Except GlobError (List GlobToken) :=
  match cs with
  | [] => .ok []
  | c :: rest =>
    if c = '?' then (scan (some c) (position + 1) rest).map (.anyChar :: ·)
    else if c = '*' then
      let stars := (rest.takeWhile (· == '*')).length + 1
      let after := rest.dropWhile (· == '*')
      if 2 < stars then .error ⟨position + 2, .wildcards⟩
      else if stars = 1 then (scan (some c) (position + 1) after).map (.anyRun :: ·)
      else if before.isSome ∧ before ≠ some '/' then .error ⟨position - 1, .recursiveWildcards⟩
      else match _after : after with
        | [] => .ok [.anyDirectories]
        | d :: others =>
          if d = '/' then (scan (some d) (position + 3) others).map (.anyDirectories :: ·)
          else .error ⟨position + 2, .recursiveWildcards⟩
    else if c = '[' then
      match bracket? rest with
      | none => .error ⟨position, .invalidRange⟩
      | some (token, length) => (scan (some ']') (position + length + 1) (rest.drop length)).map (token :: ·)
    else (scan (some c) (position + 1) rest).map (.char c :: ·)
  termination_by cs.length
  decreasing_by
    · simp
    · have := (List.dropWhile_suffix (l := rest) (· == '*')).length_le
      simp only [List.length_cons]
      omega
    · have h1 : after.length ≤ rest.length := (List.dropWhile_suffix _).length_le
      rw [_after, List.length_cons] at h1
      simp only [List.length_cons]
      omega
    · simp only [List.length_drop, List.length_cons]
      omega
    · simp

/-- The tokens of a pattern. -/
def ofPattern (pattern : String) : Except GlobError (List GlobToken) := scan none 0 pattern.toList

/-- Whether a character is the one that a token stands for. -/
def accepts (c : Char) : GlobToken → Bool
  | .char d => c == d
  | .anyChar => true
  | .oneOf negated ranges => ranges.any (fun r => r.1 ≤ c && c ≤ r.2) != negated
  | .anyRun | .anyDirectories => false

/-- Whether a text or what is left of it after some of its first characters passes a test. -/
def anyTail (test : List Char → Bool) : List Char → Bool
  | [] => test []
  | c :: cs => test (c :: cs) || anyTail test cs

/-- Whether the tokens of a part stand for a name. -/
def matchName : List GlobToken → List Char → Bool
  | [], cs => cs.isEmpty
  | token :: tokens, cs =>
    if token = .anyRun ∨ token = .anyDirectories then anyTail (matchName tokens) cs
    else match cs with
      | [] => false
      | c :: cs => accepts c token && matchName tokens cs

/-- The name that tokens stand for, if they stand for one name only. -/
def plainName? (tokens : List GlobToken) : Option String :=
  (tokens.mapM fun token => match token with
    | char c => some c
    | _ => none).map String.ofList

end GlobToken

/-! ## Finding the paths of a pattern -/

/-- The tokens of a part of a pattern. -/
abbrev GlobPart := List GlobToken

/-- A path as a pattern finds it: its text, and whether it names a directory. -/
structure FoundPath where
  text : String
  isDirectory : Bool
  deriving DecidableEq, Repr

namespace Disk

/-- The path of a text on a disk. -/
def found (d : Disk) (text : String) : FoundPath := ⟨text, (d.directoryAt? text).isSome⟩

/-- Whether a path is the working directory, written with dots only. -/
def isHere (path : String) : Bool :=
  (partsOf '/' path).head? == some "." && (partsOf '/' path).all isIdlePart

/-- The path of a name inside a path. Nothing is written before a name in the working directory. -/
def inside (path name : String) : String := if isHere path then name else joinPath path name

/-- The path of an entry at any depth inside a path. -/
def deepInside (path : String) (names : List String) : String := names.foldl inside path

/-- The paths that the parts of a pattern stand for, from a path on. A part without wildcards is looked up; any other is
compared with `..` and `.` if it starts with a dot, and with the names in a directory. A part after `**` is compared with
every name at any depth. What is found is in the order of the comparisons. -/
def search (d : Disk) (path : String) (parts : List GlobPart) : List FoundPath :=
  match parts with
  | [] => [d.found path]
  | part :: rest =>
    match GlobToken.plainName? part with
    | some name =>
      let next := inside path name
      let present :=
        if name = "." ∨ name = ".." then (d.directoryAt? path).isSome else d.isPresent next
      if present then d.search next rest else []
    | none =>
      match d.directoryAt? path with
      | none => []
      | some directory =>
        if part = [.anyDirectories] then
          let names := d.descendants directory
          match rest with
          | [] => (names.map fun names => d.found (deepInside path names)).filter (·.isDirectory)
          | next :: rest' =>
            if next = [.anyDirectories] then d.search path (next :: rest')
            else
              (names.filter fun names => GlobToken.matchName next (names.getLastD "").toList).flatMap fun names =>
                d.search (deepInside path names) rest'
        else
          let names := (d.children directory).filter fun name => GlobToken.matchName part name.toList
          let specials :=
            if part.head? = some (.char '.') then ["..", "."].filter fun name => GlobToken.matchName part name.toList
            else []
          specials.flatMap (fun name => d.search (joinPath path name) rest) ++
            names.flatMap fun name => d.search (inside path name) rest
  termination_by parts.length

end Disk

/-- The parts of a path as they are ordered: the root, then `.`, then `..`, then names. -/
def orderKey (path : String) : List (Nat × String) :=
  match partsOf '/' path with
  | [] => []
  | first :: others =>
    let key (part : String) : Nat × String := if part = ".." then (2, "") else (3, part)
    (if first = "" then [(0, "")] else if first = "." then [(1, "")] else [key first]) ++
      (others.filter (!isIdlePart ·)).map key

/-- Whether one list of parts comes before another or is the same: the first parts that differ decide. -/
def partsBefore : List (Nat × String) → List (Nat × String) → Bool
  | [], _ => true
  | _ :: _, [] => false
  | x :: xs, y :: ys => if x = y then partsBefore xs ys else x.1 < y.1 || (x.1 == y.1 && x.2 < y.2)

/-- Whether a path comes before another in the order of their parts, or has the same. -/
def pathBefore (a b : String) : Bool := partsBefore (orderKey a) (orderKey b)

/-- Whether a path is a pattern. -/
def isPattern (path : String) : Bool := path.toList.any fun c => c == '*' || c == '?' || c == '['

/-- The parts of a pattern after the root, each checked by itself. A part that is empty at the end is none. -/
def patternParts (pattern : String) : Except GlobError (List GlobPart) := do
  let _ ← GlobToken.ofPattern pattern
  let rooted := pattern.toList.head? = some '/'
  let parts := if rooted then (partsOf '/' pattern).drop 1 else partsOf '/' pattern
  (if parts.getLast? = some "" then parts.dropLast else parts).mapM GlobToken.ofPattern

/-- The paths that a pattern stands for, in order; paths of the same order are as they are found. With `/` at its end it
stands for directories only. -/
def Disk.glob (d : Disk) (pattern : String) : Except GlobError (List String) := do
  let parts ← patternParts pattern
  let start := if pattern.toList.head? = some '/' then "/" else "."
  let directoriesOnly := pattern.toList.getLast? = some '/'
  let paths := (d.search start parts).filter fun p => !directoriesOnly || p.isDirectory
  return (paths.map (·.text)).mergeSort pathBefore

end ClassSchema
