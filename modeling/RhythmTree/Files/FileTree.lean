import RhythmTree.Files.Path
import RhythmTree.Table

/-!
# File trees

Files and directories below one directory, by the names on the way down. Looking a path up walks
along it: every name has to stand in a directory, and a double dot leads back out of the current
one. What lies outside of the tree is absent. A name that no directory can hold is not absent but
an error, and so is a path that is too long as a whole.
-/

namespace RhythmTree

/-- What stands at a place of a file tree. -/
inductive FileEntry
  | file (octets : List UInt8)
  | directory
  deriving DecidableEq, Repr

/-- Why a file cannot be read. -/
inductive ReadFailure
  /-- There is nothing at the path. -/
  | absent
  /-- A directory stands at the path. -/
  | isDirectory
  /-- The path, or a name on the way, is too long. -/
  | tooLong
  /-- Nothing can stand at the path. -/
  | path (fault : PathFault)
  deriving DecidableEq, Repr

/-- The words for a failure. -/
def ReadFailure.text : ReadFailure → String
  | .absent => "no such file"
  | .isDirectory => "is a directory"
  | .tooLong => "file name too long"
  | .path fault => fault.message

/-- Files and directories by the names on the way down. -/
structure FileTree where
  /-- What stands below the top directory. -/
  entries : Table (List Text) FileEntry := .empty

namespace FileTree

/-- The number of octets that the name of an entry has at most. -/
def longestName : Nat := 255

/-- The number of octets that a path has at most. -/
def longestPath : Nat := 4095

/-- The tree without files. -/
def empty : FileTree := {}

/-- What stands at the end of some names; at the end of none is the top directory. -/
def entryAt? (t : FileTree) (names : List Text) : Option FileEntry :=
  if names.isEmpty then some .directory else t.entries.get? names

/-- Where names lead from a place. Every step starts in a directory inside the tree. -/
def walk (t : FileTree) (here : List Text) : List Text → Except ReadFailure (List Text)
  | [] => .ok here
  | name :: rest =>
    match t.entryAt? here with
    | some .directory =>
      if longestName < Path.octetCount name then .error .tooLong
      else if name ≠ Text.ofString ".." then t.walk (here ++ [name]) rest
      else if here.isEmpty then .error .absent
      else t.walk here.dropLast rest
    | _ => .error .absent

/-- Where a path leads. -/
def placeOf (t : FileTree) (p : Path) : Except ReadFailure (List Text) :=
  match p.fault? with
  | some fault => .error (.path fault)
  | none =>
    if longestPath < Path.octetCount p.text then .error .tooLong
    else if p.isAbsolute then .error .absent
    else t.walk [] p.names

/-- What stands at a path. -/
def find (t : FileTree) (p : Path) : Except ReadFailure FileEntry :=
  match t.placeOf p with
  | .error failure => .error failure
  | .ok names =>
    match t.entryAt? names with
    | some entry => .ok entry
    | none => .error .absent

/-- There is something at a path. Where the path is too long, that cannot be told. -/
def contains? (t : FileTree) (p : Path) : Option Bool :=
  match t.find p with
  | .ok _ => some true
  | .error .tooLong => none
  | .error _ => some false

/-- The content of the file at a path. -/
def read (t : FileTree) (p : Path) : Except ReadFailure (List UInt8) :=
  match t.find p with
  | .ok (.file octets) => .ok octets
  | .ok .directory => .error .isDirectory
  | .error failure => .error failure

/-- The names of what stands in the directory at a path, in ascending order. Where no directory
stands there are none: the errors of listing a file and of a path that is too long are left out. -/
def list (t : FileTree) (p : Path) : List Text :=
  match t.placeOf p with
  | .error _ => []
  | .ok here =>
    let inside := t.entries.keys.filter fun names => !names.isEmpty && names.dropLast = here
    (inside.filterMap List.getLast?).mergeSort fun a b => !b.isBefore a

/-- Makes the first directories on the way down some names, unless they are there. -/
def addDirectories (t : FileTree) (names : List Text) : Nat → FileTree
  | 0 => t
  | n + 1 => ⟨(t.addDirectories names n).entries.putIfAbsent (names.take (n + 1)) .directory⟩

/-- Makes a directory, and the directories above it, unless they are there. -/
def addDirectory (t : FileTree) (p : Path) : FileTree := t.addDirectories p.names p.names.length

/-- Writes a file, and makes the directories above it. -/
def write (t : FileTree) (p : Path) (octets : List UInt8) : FileTree :=
  ⟨(t.addDirectory ⟨p.root, p.names.dropLast⟩).entries.put p.names (.file octets)⟩

/-- Removes the entry at a path. -/
def remove (t : FileTree) (p : Path) : FileTree := ⟨t.entries.erase p.names⟩

/-- The tree of some texts by their paths. -/
def ofTexts (texts : List (String × String)) : FileTree :=
  texts.foldl (fun t (path, content) => t.write (.ofText path) content.toUTF8.toList) empty

end FileTree

end RhythmTree
