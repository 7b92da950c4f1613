import TopDown.Grammar.Program
import TopDown.Session

/-!
# Parsing routines

A program is parsed from the top down, by one routine for each non-terminal. A routine opens a node,
looks at the kind of the current token where there is a choice, and works below its node: it matches
terminals and calls other routines. A routine that ends with itself is a loop, in which each pass
opens a node below the last one. The first failure ends all that is under way.

Every call is one level deeper, and calls beyond the depth limit are not made. A whole program is
parsed by one call of the start symbol at the root of a new session.
-/

namespace TopDown

/-- A part of a parse: it changes the session, and has a value or fails. There is no answer if it
nests too deeply. -/
abbrev Parsing := ExceptT Failure (StateT Session Option)

namespace Parsing

def tooDeep {α : Type} : Parsing α :=
  ExceptT.mk fun _ => none

/-- A step of the session. -/
def step {α : Type} (f : Session → Session × Except Failure α) : Parsing α :=
  ExceptT.mk fun s => some (f s).swap

def currentKind : Parsing Kind :=
  return (← get).state.kind

/-- Opens the node of a non-terminal; the answer is its id. -/
def opened (parent : Nat) (n : Nonterminal) : Parsing Nat :=
  modifyGet fun s => (s.tree.size, s.attach parent (Node.nonterminal n.name))

/-- Takes an empty alternative. -/
def leaveEmpty (node : Nat) : Parsing Unit :=
  modify (·.attach node Node.empty)

/-- Matches a terminal; the answer is the consumed token. -/
def matched (node : Nat) (kind : Kind) : Parsing (Option Token) :=
  step (·.expect node kind)

def expect (node : Nat) (kind : Kind) : Parsing Unit :=
  discard (matched node kind)

/-- Declares the name of a token that was matched below `node`, if there is one. -/
def declare (node : Nat) : Option Token → Parsing Unit
  | some token => step (·.declare node token)
  | none => pure ()

/-- Fails because no alternative starts with the current token. -/
def refuse (node : Nat) (kinds : List Kind) : Parsing Unit :=
  step fun s => let (s, failure) := s.refuse node kinds; (s, .error failure)

/-- How often a loop goes on at most: each pass consumes a token, and the last one may meet the
end. -/
def passes : Parsing Nat :=
  return (← get).state.cursor.rest.length + 1

/-- What is left of a session, with the failure if there is one. -/
def outcome (part : Parsing Unit) (s : Session) : Option (Session × Option Failure) :=
  (part.run.run s).map fun
    | (.ok (), s) => (s, none)
    | (.error failure, s) => (s, some failure)

end Parsing

namespace Routine

open Parsing
open Nonterminal (first follow)

variable (call : Nonterminal → Nat → Parsing Unit)

/-! ## Statements -/

def program (parent : Nat) : Parsing Unit := do
  let node ← opened parent .program
  call .stmtList node
  expect node .endOfInput

def stmtList : (passes : Nat) → (parent : Nat) → Parsing Unit
  | 0, _ => tooDeep
  | passes + 1, parent => do
    let node ← opened parent .stmtList
    let kind ← currentKind
    if kind ∈ first .stmt then
      call .stmt node
      stmtList passes node
    else if kind ∈ follow .stmtList then
      leaveEmpty node
    else
      refuse node (first .stmt ++ follow .stmtList)

def stmt (parent : Nat) : Parsing Unit := do
  let node ← opened parent .stmt
  match ← currentKind with
  | .kwRead => call .readStmt node
  | .kwWrite => call .writeStmt node
  | .kwVar => call .varDecl node
  | .identifier => call .subrCall node
  | .kwLet =>
    expect node .kwLet
    expect node .identifier
    call .asgnStmt node
  | .kwIf => call .ifStmt node
  | .kwUntil => call .untilStmt node
  | _ => refuse node (first .stmt)

def readStmt (parent : Nat) : Parsing Unit := do
  let node ← opened parent .readStmt
  expect node .kwRead
  expect node .identifier

def writeStmt (parent : Nat) : Parsing Unit := do
  let node ← opened parent .writeStmt
  expect node .kwWrite
  call .expr node

/-- The name is declared once its terminal is in the tree. -/
def varDecl (parent : Nat) : Parsing Unit := do
  let node ← opened parent .varDecl
  expect node .kwVar
  declare node (← matched node .identifier)

def subrCall (parent : Nat) : Parsing Unit := do
  let node ← opened parent .subrCall
  expect node .identifier
  expect node .openParen
  call .argList node
  expect node .closeParen

def asgnStmt (parent : Nat) : Parsing Unit := do
  let node ← opened parent .asgnStmt
  match ← currentKind with
  | .assign =>
    expect node .assign
    call .expr node
  | .arrow =>
    expect node .arrow
    call .subrCall node
  | _ => refuse node (first .asgnStmt)

def argList (parent : Nat) : Parsing Unit := do
  let node ← opened parent .argList
  call .expr node
  call .argsTail node

def argsTail (parent : Nat) : Parsing Unit := do
  let node ← opened parent .argsTail
  let kind ← currentKind
  if kind = .comma then
    expect node .comma
    call .argList node
  else if kind ∈ follow .argsTail then
    leaveEmpty node
  else
    refuse node (.comma :: follow .argsTail)

def ifStmt (parent : Nat) : Parsing Unit := do
  let node ← opened parent .ifStmt
  expect node .kwIf
  call .condition node
  expect node .kwThen
  call .stmtList node
  call .elseStmt node
  expect node .kwEndif

def elseStmt (parent : Nat) : Parsing Unit := do
  let node ← opened parent .elseStmt
  let kind ← currentKind
  if kind = .kwElse then
    expect node .kwElse
    call .stmtList node
  else if kind ∈ follow .elseStmt then
    leaveEmpty node
  else
    refuse node (.kwElse :: follow .elseStmt)

def untilStmt (parent : Nat) : Parsing Unit := do
  let node ← opened parent .untilStmt
  expect node .kwUntil
  call .condition node
  call .stmtList node
  expect node .kwRepeat

def condition (parent : Nat) : Parsing Unit := do
  let node ← opened parent .condition
  call .expr node
  call .relOp node
  call .expr node

/-! ## Expressions -/

def expr (parent : Nat) : Parsing Unit := do
  let node ← opened parent .expr
  call .term node
  call .termTail node

def term (parent : Nat) : Parsing Unit := do
  let node ← opened parent .term
  call .factor node
  call .factorTail node

def termTail : (passes : Nat) → (parent : Nat) → Parsing Unit
  | 0, _ => tooDeep
  | passes + 1, parent => do
    let node ← opened parent .termTail
    let kind ← currentKind
    if kind ∈ first .addOp then
      call .addOp node
      call .term node
      termTail passes node
    else if kind ∈ follow .termTail then
      leaveEmpty node
    else
      refuse node (first .addOp ++ follow .termTail)

def factor (parent : Nat) : Parsing Unit := do
  let node ← opened parent .factor
  match ← currentKind with
  | .openParen =>
    expect node .openParen
    call .expr node
    expect node .closeParen
  | .identifier => expect node .identifier
  | .number => expect node .number
  | _ => refuse node (first .factor)

def factorTail : (passes : Nat) → (parent : Nat) → Parsing Unit
  | 0, _ => tooDeep
  | passes + 1, parent => do
    let node ← opened parent .factorTail
    let kind ← currentKind
    if kind ∈ first .multOp then
      call .multOp node
      call .factor node
      factorTail passes node
    else if kind ∈ follow .factorTail then
      leaveEmpty node
    else
      refuse node (first .multOp ++ follow .factorTail)

/-! ## Operators -/

/-- Every operator production is a choice between single terminals. -/
def operator (n : Nonterminal) (parent : Nat) : Parsing Unit := do
  let node ← opened parent n
  let kind ← currentKind
  if kind ∈ first n then
    expect node kind
  else
    refuse node (first n)

end Routine

open Routine in
/-- The routine of each non-terminal. -/
def Parsing.routine (call : Nonterminal → Nat → Parsing Unit) (n : Nonterminal) (parent : Nat) :
    Parsing Unit :=
  match n with
  | .program => program call parent
  | .stmtList => do stmtList call (← passes) parent
  | .stmt => stmt call parent
  | .readStmt => readStmt parent
  | .writeStmt => writeStmt call parent
  | .varDecl => varDecl parent
  | .subrCall => subrCall call parent
  | .asgnStmt => asgnStmt call parent
  | .argList => argList call parent
  | .argsTail => argsTail call parent
  | .expr => expr call parent
  | .term => term call parent
  | .termTail => do termTail call (← passes) parent
  | .factor => factor call parent
  | .factorTail => do factorTail call (← passes) parent
  | .condition => condition call parent
  | .ifStmt => ifStmt call parent
  | .elseStmt => elseStmt call parent
  | .untilStmt => untilStmt call parent
  | .addOp => operator .addOp parent
  | .multOp => operator .multOp parent
  | .relOp => operator .relOp parent

/-- A call with `depth` levels to spend. -/
def Parsing.call : (depth : Nat) → Nonterminal → (parent : Nat) → Parsing Unit
  | 0, _, _ => tooDeep
  | depth + 1, n, parent => routine (call depth) n parent

/-- The number of levels that a parse may nest. -/
def depthLimit : Nat := 1000

/-- Derives `n` below `parent`. -/
def Session.call (s : Session) (n : Nonterminal) (parent : Nat) (depth : Nat := depthLimit) :
    Option (Session × Option Failure) :=
  (Parsing.call depth n parent).outcome s

/-- Derives a program below the root. -/
def Session.program (s : Session) (depth : Nat := depthLimit) :
    Option (Session × Option Failure) :=
  s.call startSymbol 0 depth

/-- Parses a whole program; there is no answer if it nests too deeply. -/
def parse (tokens : List Token) (depth : Nat := depthLimit) : Option (Session × Option Failure) :=
  (Session.start tokens).program depth

end TopDown
