import TopDown.Grammar.Prediction

/-!
# The grammar of programs

The statement language: a program is a list of statements that read and write, declare variables,
call subroutines, assign, branch and loop, over arithmetic expressions. The grammar is LL(1), and
its lookahead sets are derived from it here.
-/

namespace TopDown

inductive Nonterminal where
  | program | stmtList | stmt | readStmt | writeStmt | varDecl | subrCall | asgnStmt
  | argList | argsTail | expr | term | termTail | factor | factorTail | condition
  | ifStmt | elseStmt | untilStmt | addOp | multOp | relOp
  deriving DecidableEq, Inhabited

namespace Nonterminal

def all : List Nonterminal :=
  [.program, .stmtList, .stmt, .readStmt, .writeStmt, .varDecl, .subrCall, .asgnStmt,
    .argList, .argsTail, .expr, .term, .termTail, .factor, .factorTail, .condition,
    .ifStmt, .elseStmt, .untilStmt, .addOp, .multOp, .relOp]

theorem mem_all (n : Nonterminal) : n ∈ all := by
  cases n <;> decide

/-- The name of the non-terminal, as tree labels show it. -/
def name : Nonterminal → String
  | program => "PROGRAM"
  | stmtList => "STMT_LIST"
  | stmt => "STMT"
  | readStmt => "READ_STMT"
  | writeStmt => "WRITE_STMT"
  | varDecl => "VAR_DECL"
  | subrCall => "SUBR_CALL"
  | asgnStmt => "ASGN_STMT"
  | argList => "ARG_LIST"
  | argsTail => "ARGS_TAIL"
  | expr => "EXPR"
  | term => "TERM"
  | termTail => "TERM_TAIL"
  | factor => "FACTOR"
  | factorTail => "FACTOR_TAIL"
  | condition => "CONDITION"
  | ifStmt => "IF_STMT"
  | elseStmt => "ELSE_STMT"
  | untilStmt => "UNTIL_STMT"
  | addOp => "ADD_OP"
  | multOp => "MULT_OP"
  | relOp => "REL_OP"

/-- The non-terminal with the given name. -/
def ofName? (name : String) : Option Nonterminal :=
  all.find? (·.name = name)

instance : Coe Nonterminal (Symbol Nonterminal) := ⟨.nonterminal⟩

end Nonterminal

instance : Coe Kind (Symbol Nonterminal) := ⟨.terminal⟩

open Nonterminal Kind in
/-- The alternatives of each non-terminal. -/
def programAlternatives : Nonterminal → List (Alternative Nonterminal)
  | program => [[stmtList, endOfInput]]
  | stmtList => [[stmt, stmtList], []]
  | stmt =>
    [[readStmt], [writeStmt], [varDecl], [subrCall], [kwLet, identifier, asgnStmt], [ifStmt],
      [untilStmt]]
  | readStmt => [[kwRead, identifier]]
  | writeStmt => [[kwWrite, expr]]
  | varDecl => [[kwVar, identifier]]
  | subrCall => [[identifier, openParen, argList, closeParen]]
  | asgnStmt => [[assign, expr], [arrow, subrCall]]
  | argList => [[expr, argsTail]]
  | argsTail => [[comma, argList], []]
  | expr => [[term, termTail]]
  | term => [[factor, factorTail]]
  | termTail => [[addOp, term, termTail], []]
  | factor => [[openParen, expr, closeParen], [identifier], [number]]
  | factorTail => [[multOp, factor, factorTail], []]
  | condition => [[expr, relOp, expr]]
  | ifStmt => [[kwIf, condition, kwThen, stmtList, elseStmt, kwEndif]]
  | elseStmt => [[kwElse, stmtList], []]
  | untilStmt => [[kwUntil, condition, stmtList, kwRepeat]]
  | addOp => [[plus], [minus]]
  | multOp => [[times], [divide]]
  | relOp => [[less], [greater], [equals]]

def programGrammar : Grammar Nonterminal where
  rules := Nonterminal.all.map fun n => (n, programAlternatives n)
  distinct := by decide

/-- The lookahead sets of the grammar of programs. -/
def programLookahead : Lookahead Nonterminal :=
  programGrammar.lookahead

namespace Nonterminal

/-- The kinds that can begin what the non-terminal derives. -/
def first (n : Nonterminal) : List Kind :=
  programLookahead.firstSet n

/-- The kinds that can come right after the non-terminal. -/
def follow (n : Nonterminal) : List Kind :=
  programLookahead.followSet n

end Nonterminal

def startSymbol : Nonterminal := .program

end TopDown
