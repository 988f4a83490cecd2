import RhythmTree.Text.Numeral
import RhythmTree.Text.Quoted

/-!
# Paths

Paths as they are written: names divided by slashes, behind one or two slashes if the path is
absolute. Empty names and single dots mean nothing and are dropped; double dots are kept, because
what they mean depends on the files. The suffix of a name starts at its last dot, unless the dot
is the first or the last character. Not every text can be given to a file system: a null character
cannot, and of the surrogates that stand alone only those that stand for an octet.
-/

namespace RhythmTree

/-- A path as it is written. -/
structure Path where
  /-- The slashes in front. -/
  root : String := ""
  /-- The names between slashes. -/
  names : List Text
  deriving DecidableEq, Repr

/-- Why a path cannot be given to a file system. -/
inductive PathFault
  /-- The path holds a null character. -/
  | null
  /-- The path holds surrogates in a row that encode nothing, given by the code point of the first
  one, its position and their number. -/
  | surrogates (code position count : Nat)
  deriving DecidableEq, Repr

/-- The words for a fault. -/
def PathFault.message : PathFault → String
  | .null => "embedded null byte"
  | .surrogates code position count =>
    let place :=
      if count = 1 then
        "character '\\u" ++ String.ofList (Text.hexDigits 4 code) ++ "' in position " ++
          toString position
      else
        "characters in position " ++ toString position ++ "-" ++ toString (position + count - 1)
    "'utf-8' codec can't encode " ++ place ++ ": surrogates not allowed"

namespace Path

/-- The symbol between two names. -/
def slash : Text.Symbol := .char '/'

/-- The slashes in front of a path: two count only if there are exactly two. -/
def leadingSlashes (symbols : List Text.Symbol) : String :=
  match (symbols.takeWhile (· = slash)).length with
  | 0 => ""
  | 2 => "//"
  | _ => "/"

/-- The path that a text writes. -/
def ofText (t : Text) : Path :=
  let names := (t.symbols.splitOn slash).map Text.mk
  ⟨leadingSlashes t.symbols,
    names.filter fun name => name ≠ Text.ofString "" && name ≠ Text.ofString "."⟩

/-- The text of a path. -/
def text (p : Path) : Text :=
  if p.root = "" && p.names.isEmpty then "."
  else Text.ofString p.root ++ ⟨[slash].intercalate (p.names.map Text.symbols)⟩

/-- A path that does not start at the current directory. -/
def isAbsolute (p : Path) : Bool := p.root ≠ ""

/-- The number of octets that a file system is given for a text: one for a surrogate that stands
alone. -/
def octetCount (t : Text) : Nat :=
  (t.symbols.map fun symbol => symbol.char?.elim 1 fun c => c.utf8Size).foldl (· + ·) 0

/-- A surrogate that stands alone and for no octet. -/
def encodesNothing : Text.Symbol → Bool
  | .char _ => false
  | .half number => !(0x480 ≤ number.val && number.val < 0x500)

/-- The fault of some symbols in a row, given with their positions: surrogates encode nothing if one
of them does. -/
def faultOfRow? : List (Text.Symbol × Nat) → Option PathFault
  | [] => none
  | (first, position) :: rest =>
    if ((first, position) :: rest).any fun (symbol, _) => encodesNothing symbol then
      some (.surrogates first.code position (rest.length + 1))
    else none

/-- What keeps a path from being given to a file system. -/
def fault? (p : Path) : Option PathFault :=
  let symbols := p.text.symbols
  let rows := symbols.zipIdx.splitBy fun a b => a.1.char?.isNone = b.1.char?.isNone
  match rows.findSome? faultOfRow? with
  | some fault => some fault
  | none => if symbols.contains (.char (Char.ofNat 0)) then some .null else none

/-- The path of what stands below a path, unless the text writes an absolute path. -/
def below (p : Path) (t : Text) : Path :=
  let q := ofText t
  if q.isAbsolute then q else ⟨p.root, p.names ++ q.names⟩

/-- The last name of a path. -/
def name (p : Path) : Text := p.names.getLast?.getD default

/-- A name without its suffix, and the suffix with its dot. -/
def splitSuffix (name : Text) : Text × Text :=
  let dot : Text.Symbol := .char '.'
  match Text.splitAtFirst (· = dot) name.symbols.reverse with
  | (back, some front) =>
    if back.isEmpty || front.isEmpty then (name, default)
    else (⟨front.reverse⟩, ⟨dot :: back.reverse⟩)
  | (_, none) => (name, default)

/-- The last name without its suffix. -/
def stem (p : Path) : Text := (splitSuffix p.name).1

/-- The suffix of the last name. -/
def suffix (p : Path) : Text := (splitSuffix p.name).2

end Path

end RhythmTree
