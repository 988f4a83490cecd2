import RhythmTree.Files.Path
import RhythmTree.Text.Digit

/-!
# Command lines

What the words of a command line ask for. Flags of the program stand before the command and flags
of the command behind it, in any order with the path; a flag may be shortened as long as it stays
the only one, and no flag takes a value. After two dashes every word is an argument. Asking for
help counts as soon as it is reached; a word that no level knows counts at the end.
-/

namespace RhythmTree.CommandLine

/-- A flag of the program or of its command. -/
inductive Flag
  | help
  | debug
  | strict
  | summary
  deriving DecidableEq, Repr

/-- The full spelling of a flag. -/
def Flag.spelling : Flag → String
  | .help => "--help"
  | .debug => "--debug"
  | .strict => "--strict"
  | .summary => "--summary"

/-- What a word of a command line is. -/
inductive Word
  | argument (value : Text)
  | flag (flag : Flag)
  /-- A flag with a value, which no flag takes. -/
  | valued
  /-- A shortened flag that stands for several. -/
  | ambiguous
  /-- An option that no flag is. -/
  | unknown
  deriving DecidableEq, Repr

namespace Word

/-- The value of an argument. -/
def argument? : Word → Option Text
  | argument value => some value
  | _ => none

/-- A word that is no argument. -/
def isOption (w : Word) : Bool := w.argument?.isNone

end Word

/-- A text without the line break that may end it. -/
def withoutBreak (cs : List Char) : List Char :=
  if cs.getLast? = some '\n' then cs.dropLast else cs

/-- Digits, with a point in front of some of them or not, and perhaps a line break at the end. -/
def isNumber (body : List Char) : Bool :=
  let isDigit (c : Char) : Bool := (Text.digitValue? c).isSome
  let (front, back) := Text.splitAtFirst (· = '.') (withoutBreak body)
  match back with
  | none => !front.isEmpty && front.all isDigit
  | some digits => front.all isDigit && !digits.isEmpty && digits.all isDigit

/-- The letter for help with what follows it. More such letters, after an equals sign or not, ask
for help once more; anything else would be a value. -/
def helpWord : List Char → Word
  | [] => .flag .help
  | c :: cs =>
    let more := if c = '=' then cs else c :: cs
    if !more.isEmpty && more.all (· = 'h') then .flag .help else .valued

/-- A word with one dash, after which `body` follows. -/
def shortWord (word : Text) (body : List Char) : Word :=
  match body with
  | 'h' :: rest => helpWord rest
  | _ => if isNumber body || body.contains ' ' then .argument word else .unknown

/-- A word with two dashes at a level that knows some flags. -/
def longWord (flags : List Flag) (word : Text) : Word :=
  let (name, value) := Text.splitAtFirst (· = '=') word.display.toList
  match flags.filter fun f => name.isPrefixOf f.spelling.toList with
  | [f] => if value.isSome then .valued else .flag f
  | [] => if word.symbols.contains (.char ' ') then .argument word else .unknown
  | _ => .ambiguous

/-- What a word is at a level that knows some flags. -/
def readWord (flags : List Flag) (word : Text) : Word :=
  match word.display.toList with
  | ['-'] => .argument word
  | '-' :: '-' :: _ => longWord flags word
  | '-' :: body => shortWord word body
  | _ => .argument word

/-- Two dashes. -/
def dashes : Text := "--"

/-- The words that stand before two dashes. -/
def beforeDashes (words : List Text) : List Text := words.takeWhile (· ≠ dashes)

/-- The words at a level before two dashes, unless one is ambiguous. -/
def readWords? (flags : List Flag) (words : List Text) : Option (List Word) :=
  let read := (beforeDashes words).map (readWord flags)
  if read.contains .ambiguous then none else some read

/-- What the command is asked to do. -/
structure Request where
  /-- The file with the token stream. -/
  path : Path
  /-- Declarations with instrument types that do not exist are errors. -/
  strict : Bool := false
  /-- The summary is written instead of the score. -/
  summary : Bool := false
  /-- The whole journal is written. -/
  debug : Bool := false
  deriving DecidableEq, Repr

/-- What a command line asks for. -/
inductive Invocation
  | run (request : Request)
  | help
  /-- The command line asks for nothing. -/
  | misuse
  deriving DecidableEq, Repr

/-- The flag or value that decides before all other words are read. -/
def stop? (words : List Word) : Option Word :=
  words.find? fun w => w = .flag .help || w = .valued

/-- Two dashes follow an option that follows the path. They belong to the arguments only if no
option is between. -/
def isDetached (read : List Word) (words : List Text) : Bool :=
  words.contains dashes && (read.dropWhile Word.isOption).any Word.isOption

/-- The request of the words behind the command. -/
def ofCommandWords (debug unknown : Bool) (words : List Text) : Invocation :=
  match readWords? [.help, .strict, .summary] words with
  | none => .misuse
  | some read =>
    match stop? read with
    | some (.flag _) => .help
    | some _ => .misuse
    | none =>
      let arguments := read.filterMap Word.argument? ++ (words.dropWhile (· ≠ dashes)).drop 1
      if unknown || read.contains .unknown || isDetached read words then .misuse
      else
        match arguments with
        | [path] => .run
          { path := .ofText path
            strict := read.contains (.flag .strict)
            summary := read.contains (.flag .summary)
            debug := debug }
        | _ => .misuse

/-- The request of the words from some point before the command on. -/
def ofProgramWords (debug unknown : Bool) : List Text → Invocation
  | [] => .misuse
  | word :: rest =>
    if word = dashes then .misuse
    else
      match readWord [.help, .debug] word with
      | .argument command =>
        if command = Text.ofString "parse" then ofCommandWords debug unknown rest else .misuse
      | .flag .help => .help
      | .flag _ => ofProgramWords true unknown rest
      | .unknown => ofProgramWords debug true rest
      | _ => .misuse

/-- What a command line asks for. -/
def Invocation.ofWords (words : List Text) : Invocation :=
  if (readWords? [.help, .debug] words).isNone then .misuse else ofProgramWords false false words

end RhythmTree.CommandLine
