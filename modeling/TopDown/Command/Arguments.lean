import TopDown.Command.Run
import TopDown.Text.Decimal

/-!
# Command-line arguments

The words of a command line name one source and set options. A long option may be cut short to what
no other option begins with, and has its value after an equals sign or in the next word. Short
options may be joined, the last of them with its value; an equals sign is passed over behind the
first of them only. A value of two dashes, which can only be joined or stand after an equals sign,
takes back the setting. As a word, two dashes end the options. A word that
begins with a dash is still a source or a value if it is a lone dash, a negative number, or holds a
space and is no option. Any other command line is refused as a whole, and so is one that asks for
help: the usage answers both.
-/

namespace TopDown

inductive Switch where
  | help | string | format | out | url | debug
  deriving DecidableEq, Inhabited

namespace Switch

def all : List Switch :=
  [.help, .string, .format, .out, .url, .debug]

def longName : Switch → String
  | help => "help"
  | string => "string"
  | format => "format"
  | out => "out"
  | url => "url"
  | debug => "debug"

def shortName? : Switch → Option Char
  | help => some 'h'
  | string => some 's'
  | format => some 'f'
  | out => some 'o'
  | url => none
  | debug => some 'd'

def takesValue : Switch → Bool
  | format | out => true
  | help | string | url | debug => false

def ofShort? (c : Char) : Option Switch :=
  all.find? (·.shortName? = some c)

/-- The switches whose long name begins so. -/
def ofLong (start : List Char) : List Switch :=
  all.filter fun s => start.isPrefixOf s.longName.toList

end Switch

/-- What a word of the command line is. -/
inductive Word where
  | plain
  /-- Flags, and the last switch with its value if the word has one. -/
  | switches (flags : List Switch) (last : Switch) (value : Option String)
  | refused
  deriving DecidableEq, Inhabited

namespace Word

/-- Reads what is joined to the letter of the short option `s`: its value, or the letters of more
options. The options before it are `flags`. -/
def joined (flags : List Switch) (s : Switch) : List Char → Word
  | [] => if s.takesValue then switches flags s (some "") else refused
  | c :: rest =>
    if s.takesValue then switches flags s (some (String.ofList (c :: rest)))
    else
      match Switch.ofShort? c with
      | some next =>
        if rest.isEmpty then switches (flags ++ [s]) next none
        else joined (flags ++ [s]) next rest
      | none => refused

/-- Reads the characters behind the letter of a first short option. -/
def short (s : Switch) : List Char → Word
  | [] => switches [] s none
  | '=' :: text => joined [] s text
  | text => joined [] s text

/-- Whether the characters after a dash make up a number. -/
def isNumber (text : List Char) : Bool :=
  let digits := if text.getLast? = some '\n' then text.dropLast else text
  let whole := digits.takeWhile Text.isDecimal
  match digits.dropWhile Text.isDecimal with
  | [] => !whole.isEmpty
  | '.' :: fraction => !fraction.isEmpty && fraction.all Text.isDecimal
  | _ => false

/-- A word with a dash that is no option. -/
def other (text : List Char) : Word :=
  if isNumber text || text.contains ' ' then plain else refused

/-- Tells options from plain words. -/
def read (word : String) : Word :=
  match word.toList with
  | '-' :: '-' :: text =>
    let name := text.takeWhile (· ≠ '=')
    let value := (text.dropWhile (· ≠ '=')).tail?.map String.ofList
    match Switch.ofLong name with
    | [] => other ('-' :: text)
    | [s] => switches [] s value
    | _ => refused
  | '-' :: c :: rest =>
    match Switch.ofShort? c with
    | some s => short s rest
    | none => other (c :: rest)
  | _ => plain

end Word

/-- What the words read so far ask for. -/
structure Settings where
  source : Option String := none
  isText : Bool := false
  format : Option String := some "dot"
  out : Option String := none
  link : Bool := false
  debug : Bool := false
  deriving DecidableEq, Inhabited

namespace Settings

/-- Sets a switch that takes no value. -/
def flag (s : Settings) : Switch → Option Settings
  | .string => some { s with isText := true }
  | .url => some { s with link := true }
  | .debug => some { s with debug := true }
  | .help | .format | .out => none

/-- Sets a switch to a value, or takes the setting back. A format must be named as it is listed. -/
def option (s : Settings) (value : String) : Switch → Option Settings
  | .format =>
    if value = "--" then some { s with format := none }
    else if (Renderer.formats.lookup value).isSome then some { s with format := some value }
    else none
  | .out => some { s with out := if value = "--" then none else some value }
  | .help | .string | .url | .debug => none

def addSource (s : Settings) (source : String) : Option Settings :=
  if s.source.isNone then some { s with source := some source } else none

/-- Reads the words of a command line. Two dashes stand before a lone last source, or at the very end
right after the source. -/
def read (s : Settings) : List String → Option Settings
  | [] => some s
  | word :: rest =>
    if word = "--" then
      match rest with
      | [source] => s.addSource source
      | _ => none
    else
      match Word.read word with
      | .refused => none
      | .plain => do
        let s ← s.addSource word
        if rest = ["--"] then some s else s.read rest
      | .switches flags last (some value) => do
        let s ← flags.foldlM flag s
        (← s.option value last).read rest
      | .switches flags last none => do
        let s ← flags.foldlM flag s
        if last.takesValue then
          match rest with
          | value :: rest =>
            if value ≠ "--" ∧ Word.read value = .plain then (← s.option value last).read rest
            else none
          | [] => none
        else (← s.flag last).read rest

/-- The request that the settings make, if they name a source. -/
def request? (s : Settings) : Option Request :=
  s.source.map fun source => ⟨source, s.isText, s.format, s.out, s.link⟩

end Settings

/-- A run that a command line asks for, and whether messages of the debug level are shown. -/
structure Invocation where
  request : Request
  debug : Bool
  deriving DecidableEq, Inhabited

/-- Reads a command line; there is no answer if it is refused. -/
def Invocation.ofArguments? (words : List String) : Option Invocation := do
  let s ← ({} : Settings).read words
  return ⟨← s.request?, s.debug⟩

end TopDown
