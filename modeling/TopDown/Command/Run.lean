import TopDown.Command.FileSystem
import TopDown.Lexicon.Scan
import TopDown.Render.Link
import TopDown.Render.Renderer
import TopDown.Parser
import TopDown.Text.Lines

/-!
# Runs

A run loads a program, parses it, logs the verdict, renders the tree whether or not the program was
accepted, and writes or prints the text; last comes the link that was asked for. It ends with a
status, or it breaks off on a problem that no status stands for.
-/

namespace TopDown

/-- What a run is asked to do. -/
structure Request where
  /-- The path of the program, or its text. -/
  source : String
  isText : Bool := false
  /-- The name of the format, if one is named. -/
  format : Option String := some "dot"
  /-- Where the output is written; without a path it is printed. -/
  out : Option String := none
  link : Bool := false
  deriving DecidableEq, Inhabited

inductive Status where
  | accepted | rejected | unreadable | tooDeep
  deriving DecidableEq, Inhabited

def Status.code : Status → Nat
  | accepted => 0
  | rejected => 1
  | unreadable => 2
  | tooDeep => 3

/-- A problem that breaks a run off. -/
inductive Breakdown where
  | undecodable
  | noFormat
  | unknownFormat (e : UnknownFormat)
  | file (e : FileError)
  deriving DecidableEq

def Breakdown.message : Breakdown → String
  | undecodable => "the program is not encoded in UTF-8"
  | noFormat => "no render format is named"
  | unknownFormat e => e.message
  | file e => e.message

inductive Level where
  | debug | error
  deriving DecidableEq, Inhabited

def Level.name : Level → String
  | debug => "DEBUG"
  | error => "ERROR"

/-- What a run lets the outside see, apart from the file it writes. -/
inductive Event where
  | log (level : Level) (message : String)
  | print (text : String)
  | warn (text : String)
  deriving DecidableEq, Inhabited

structure Report where
  events : List Event
  ending : Except Breakdown Status

namespace Report

/-- The texts that were printed. -/
def output (r : Report) : String :=
  String.join (r.events.filterMap fun
    | .print text => some text
    | _ => none)

/-- The messages that were logged. -/
def logs (r : Report) : List (Level × String) :=
  r.events.filterMap fun
    | .log level message => some (level, message)
    | _ => none

/-- The warnings. -/
def warnings (r : Report) : String :=
  String.join (r.events.filterMap fun
    | .warn text => some text
    | _ => none)

/-- The warnings and the log on the error channel; messages of the debug level are shown only if
`debug` is set. -/
def errors (r : Report) (debug : Bool) : String :=
  String.join (r.events.filterMap fun
    | .warn text => some text
    | .log level message =>
      if level = .error ∨ debug then some (level.name ++ ": " ++ message ++ "\n") else none
    | .print _ => none)

end Report

namespace Run

/-- The text of a file: UTF-8, with line ends unified. -/
def decode (content : ByteArray) : Option String :=
  (String.fromUTF8? content).map fun text => String.ofList (Text.unifyLineEnds text.toList)

/-- The program text, or the report of a run that cannot load it. -/
def load {m : Type → Type} [Monad m] (fs : FileSystem m) (r : Request) :
    m (Except Report String) := do
  if r.isText then return .ok r.source
  match ← fs.read r.source with
  | .error (.refused reason path) =>
    let error := (FileError.refused reason path).message
    let message := s!"Error reading the file {r.source}: {error}"
    return .error ⟨[.log .error message], .ok .unreadable⟩
  | .error .malformed => return .error ⟨[], .error (.file .malformed)⟩
  | .ok content =>
    match decode content with
    | some text => return .ok text
    | none => return .error ⟨[], .error .undecodable⟩

/-- The status of a parsed program and the log entry about it. -/
def verdict (tree : Tree) : Option Failure → Status × Event
  | none => (.accepted, .log .debug s!"accepted: {tree.size} nodes")
  | some failure => (.rejected, .log .error failure.message)

/-- The rendered tree, in the format that the request names. -/
def rendered (tree : Tree) (format : Option String) : Except Breakdown String :=
  match format with
  | none => .error .noFormat
  | some format => (tree.render format).mapError .unknownFormat

/-- Writes or prints the output. A text is a sequence of Unicode scalar values, and UTF-8 has all of
them, so that to print never fails. -/
def deliver {m : Type → Type} [Monad m] (fs : FileSystem m) (out : Option String)
    (output : String) : m (Except FileError Event) := do
  match out.filter (!·.isEmpty) with
  | none => return .ok (.print output)
  | some path => return (← fs.write path output).map fun _ => .log .debug s!"wrote {path}"

/-- The link to the output. Only DOT text by its very name has one. -/
def linkTo (r : Request) (output : String) : List Event :=
  if r.link ∧ r.format = some "dot" then
    match Link.ofDot? output with
    | some link => [.print (link ++ "\n")]
    | none => [.warn "Output is too long for a GraphvizOnline link.\n"]
  else []

def tooDeepMessage : String := "program is nested too deeply to process"

end Run

open Run in
/-- Runs a request against a file system. -/
def Request.run {m : Type → Type} [Monad m] (fs : FileSystem m) (r : Request) : m Report := do
  match ← load fs r with
  | .error report => return report
  | .ok text =>
    match parse (Token.scan text) with
    | none => return ⟨[.log .error tooDeepMessage], .ok .tooDeep⟩
    | some (session, failure) =>
      let (status, entry) := verdict session.tree failure
      match rendered session.tree r.format with
      | .error e => return ⟨[entry], .error e⟩
      | .ok output =>
        match ← deliver fs r.out output with
        | .error e => return ⟨[entry], .error (.file e)⟩
        | .ok delivery => return ⟨entry :: delivery :: linkTo r output, .ok status⟩

end TopDown
