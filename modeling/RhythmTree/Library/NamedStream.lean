import RhythmTree.Document.Json.Reader
import RhythmTree.Document.Yaml.Reader
import RhythmTree.Files.FileTree
import RhythmTree.Schema.Token
import RhythmTree.Text.Utf8

/-!
# Stream files

A stream file holds a list of tokens, or a record with such a list beside a name and a description.
Files with the suffix `.json` are read as JSON, all others as YAML. The name of a stream is the
name of its file unless the record has one, and neither the name nor the description has to be a
text.
-/

namespace RhythmTree

/-- A list of tokens with a name. -/
structure NamedStream where
  name : Document
  description : Document
  /-- The file that the stream was read from. -/
  path : Path
  tokens : List Token

/-- Why a file holds no document. -/
inductive Unreadable
  /-- The file cannot be read at all. -/
  | file (failure : ReadFailure)
  | notJson
  | notYaml
  deriving DecidableEq, Repr

/-- The words for the reason. -/
def Unreadable.text : Unreadable → String
  | .file failure => failure.text
  | .notJson => "not a JSON text"
  | .notYaml => "not a YAML text"

/-- Why there is no stream. -/
inductive StreamError
  /-- The file with a name holds no document. -/
  | unreadable (file : Text) (reason : Unreadable)
  /-- The path cannot be the path of a file. -/
  | path (fault : PathFault)
  /-- Whether there is a file at the path cannot be told, because the path is too long. -/
  | longPath (path : Path)
  /-- The octets of the file are no text. -/
  | undecodable (error : Text.Utf8Error)
  /-- A scalar in the file does not mean what it should. -/
  | meaningless (fault : Document.Yaml.Fault)
  /-- The document holds no list where the tokens should be. -/
  | noTokens (file : Text)
  /-- The items of the list are no tokens. -/
  | invalidTokens (file : Text) (problems : List Schema.Problem)
  /-- The check came to an end at an error about a duration. -/
  | aborted (error : Duration.Error)
  /-- The name is a collection of a type. -/
  | collectionName (typeName : String)
  deriving Repr

namespace StreamError

/-- The message of an error. -/
def message : StreamError → Text
  | .unreadable file reason =>
    Text.ofString "Cannot read " ++ file ++ Text.ofString (": " ++ reason.text)
  | .path fault => fault.message
  | .longPath tried => Text.ofString ("[Errno 36] File name too long: " ++ tried.text.quote)
  | .undecodable error => error.message
  | .meaningless fault => fault.message
  | .noTokens file => file ++ Text.ofString " holds no token list"
  | .invalidTokens file problems =>
    file ++ Text.ofString (" holds invalid tokens: " ++
      Schema.heading Schema.streamTitle problems.length)
  | .aborted error => error.message
  | .collectionName typeName => Text.ofString ("unhashable type: '" ++ typeName ++ "'")

/-- An error that ends more than the reading of one file. -/
def isFatal : StreamError → Bool
  | .aborted _ | .collectionName _ => true
  | .meaningless fault => !fault.isOrdinary
  | _ => false

end StreamError

namespace NamedStream

/-- A file that holds JSON. -/
def isJson (path : Path) : Bool := path.suffix = Text.ofString ".json"

/-- The document that the octets of a JSON file encode. -/
def readJson (path : Path) (octets : List UInt8) : Except StreamError Document := do
  let json ← (Text.decode octets).mapError .undecodable
  match Document.Json.read? json with
  | some document => return document
  | none => .error (.unreadable path.name .notJson)

/-- The error that a fault in the text of a YAML file is. -/
def ofFault (path : Path) : Document.Yaml.Fault → StreamError
  | .undecodable error => .undecodable error
  | fault => if fault.category = .form then .unreadable path.name .notYaml else .meaningless fault

/-- The document that the octets of a YAML file encode. -/
def readYaml (path : Path) (octets : List UInt8) : Except StreamError Document :=
  (Document.Yaml.read octets).mapError (ofFault path)

/-- The document that the octets of a file encode. -/
def readDocument (path : Path) (octets : List UInt8) : Except StreamError Document :=
  if isJson path then readJson path octets else readYaml path octets

/-- The items, the name and the description in a document. -/
def parts? (path : Path) : Document → Option (List Document × Document × Document)
  | .list items => some (items, .text path.stem, .text "")
  | .record fields =>
    match Document.valueOf? "tokens" fields with
    | some (.list items) =>
      some (items, (Document.valueOf? "name" fields).getD (.text path.stem),
        (Document.valueOf? "description" fields).getD (.text ""))
    | _ => none
  | _ => none

/-- The stream in the document of a file. -/
def ofDocument (path : Path) (document : Document) : Except StreamError NamedStream :=
  match parts? path document with
  | none => .error (.noTokens path.name)
  | some (items, name, description) =>
    match Schema.tokens 0 items with
    | .ok tokens => .ok ⟨name, description, path, tokens⟩
    | .invalid problems => .error (.invalidTokens path.name problems)
    | .aborted error => .error (.aborted error)

/-- The stream in the content of a file. -/
def ofContent (path : Path) (content : Except ReadFailure (List UInt8)) :
    Except StreamError NamedStream :=
  match content with
  | .error (.path fault) => .error (.path fault)
  | .error failure => .error (.unreadable path.name (.file failure))
  | .ok octets => readDocument path octets >>= ofDocument path

/-- The stream in a file of a tree. -/
def load (files : FileTree) (path : Path) : Except StreamError NamedStream :=
  ofContent path (files.read path)

end NamedStream

end RhythmTree
