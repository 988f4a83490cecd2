import RhythmTree.Document.Inline
import RhythmTree.Document.Key
import RhythmTree.Library.NamedStream

/-!
# Libraries

A library finds streams in a directory that is shared and in a directory of the project. Asked for
a name, it looks for a file of that name, in the project first, and remembers the stream that it
has found. Asked for a list, it reads every stream file in both directories, the shared one first;
a stream takes the place of an earlier one with the same name.
-/

namespace RhythmTree

/-- What a list of streams shows of a stream. -/
structure Listing where
  name : Document
  description : Document
  /-- The number of tokens. -/
  count : Nat
  path : Path

/-- The entry of a stream in a list. -/
def NamedStream.listing (s : NamedStream) : Listing :=
  ⟨s.name, s.description, s.tokens.length, s.path⟩

namespace Listing

/-- Two streams have one name. A value that is not a number is the same name only in files of one
notation. -/
def sameName (a b : Listing) : Bool :=
  if NamedStream.isJson a.path = NamedStream.isJson b.path then a.name.sameName b.name
  else a.name.sameKey b.name

/-- The list with an entry, in the place of the one with the same name if there is one. -/
def place (entry : Listing) : List Listing → List Listing
  | [] => [entry]
  | first :: rest =>
    if first.sameName entry then entry :: rest else first :: place entry rest

end Listing

/-- Where streams are found, and those that have been found by their names. -/
structure Library where
  /-- The directory of the shared streams. -/
  shared : Path
  /-- The directory of the streams of the project. -/
  project : Option Path := none
  /-- The streams that have been asked for. -/
  found : Table Document.Key NamedStream := .empty

namespace Library

/-- The suffixes of stream files, in the order in which they are tried. -/
def suffixes : List Text := [".yaml", ".yml", ".json"]

/-- The stream files in a directory, in the order of their names. A directory that is absent has
none. So has here a path that is too long or leads to a file: their errors are left out. -/
def streamFiles (files : FileTree) (directory : Path) : List Path :=
  let paths := (files.list directory).map fun name =>
    (⟨directory.root, directory.names ++ [name]⟩ : Path)
  paths.filter fun path => suffixes.contains path.suffix

/-- The list after one more file; a file that holds no stream is left out. -/
def listFile (files : FileTree) (entries : List Listing) (path : Path) :
    Except StreamError (List Listing) :=
  match NamedStream.load files path with
  | .ok s =>
    if s.name.isCollection then .error (.collectionName s.name.typeName)
    else .ok (s.listing.place entries)
  | .error error => if error.isFatal then .error error else .ok entries

/-- All streams, the shared ones first. -/
def list (files : FileTree) (l : Library) : Except StreamError (List Listing) :=
  ((l.shared :: l.project.toList).flatMap (streamFiles files)).foldlM (listFile files) []

/-- The paths at which the file of a name may be, in the order in which they are tried. -/
def candidates (l : Library) (name : Document) : List Path :=
  (l.project.toList ++ [l.shared]).flatMap fun directory =>
    suffixes.map fun suffix => directory.below (name.unquoted ++ suffix)

/-- There is something at a path. -/
def holds (files : FileTree) (path : Path) : Except StreamError Bool :=
  match files.contains? path with
  | some answer => .ok answer
  | none => .error (.longPath path)

/-- The file of a name, in the project if it has one. -/
def fileOf? (files : FileTree) (l : Library) (name : Document) : Except StreamError (Option Path) :=
  (l.candidates name).findM? (holds files)

/-- The stream of a name, if there is a file of that name. -/
def streamOf? (files : FileTree) (l : Library) (name : Document) :
    Except StreamError (Option NamedStream) := do
  match ← l.fileOf? files name with
  | some path => (NamedStream.load files path).map some
  | none => return none

/-- The library that remembers the stream of a name. -/
def remember (l : Library) (name : Document) (s : NamedStream) : Library :=
  match name.key? with
  | some key => { l with found := l.found.put key s }
  | none => l

/-- The stream of a name, if there is a file of that name, and the library that remembers it. -/
def get (files : FileTree) (l : Library) (name : Document) :
    Except StreamError (Option NamedStream) × Library :=
  if name.isCollection then (.error (.collectionName name.typeName), l)
  else
    match name.key?.bind l.found.get? with
    | some s => (.ok (some s), l)
    | none =>
      match l.streamOf? files name with
      | .ok (some s) => (.ok (some s), l.remember name s)
      | answer => (answer, l)

/-- The library without memory. -/
def forget (l : Library) : Library := { l with found := .empty }

end Library

end RhythmTree
