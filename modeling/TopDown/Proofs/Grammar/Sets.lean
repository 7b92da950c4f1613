import TopDown.Grammar.Program
import TopDown.Proofs.Grammar.Lookahead

/-!
# The lookahead sets of programs

The sets of the grammar of programs written out, so that what depends on them is checked without
working them out again.
-/

namespace TopDown

namespace Kind

/-- What a statement starts with. -/
def statementStart : List Kind :=
  [identifier, kwRead, kwWrite, kwVar, kwLet, kwIf, kwUntil]

/-- What an expression starts with. -/
def expressionStart : List Kind :=
  [identifier, number, openParen]

/-- What comes after a list of statements. -/
def listEnd : List Kind :=
  [endOfInput, kwElse, kwEndif, kwRepeat]

/-- What comes after a statement. -/
def statementEnd : List Kind :=
  all.filter fun kind => (statementStart ++ listEnd).contains kind

/-- What comes after an expression. -/
def expressionEnd : List Kind :=
  all.filter fun kind =>
    (statementEnd ++ [kwThen, closeParen, comma, less, greater, equals]).contains kind

/-- What comes after a term. -/
def termEnd : List Kind :=
  all.filter fun kind => (expressionEnd ++ [plus, minus]).contains kind

/-- What comes after a factor. -/
def factorEnd : List Kind :=
  all.filter fun kind => (termEnd ++ [times, divide]).contains kind

/-- What comes after a condition. -/
def conditionEnd : List Kind :=
  all.filter fun kind => (statementStart ++ [kwThen, kwRepeat]).contains kind

end Kind

namespace Nonterminal

open Kind

/-- What the non-terminal can begin with. -/
def start : Nonterminal → List Kind
  | program => endOfInput :: statementStart
  | stmtList | stmt => statementStart
  | readStmt => [kwRead]
  | writeStmt => [kwWrite]
  | varDecl => [kwVar]
  | subrCall => [identifier]
  | asgnStmt => [assign, arrow]
  | argList | expr | term | factor | condition => expressionStart
  | argsTail => [comma]
  | termTail | addOp => [plus, minus]
  | factorTail | multOp => [times, divide]
  | ifStmt => [kwIf]
  | elseStmt => [kwElse]
  | untilStmt => [kwUntil]
  | relOp => [less, greater, equals]

/-- What can come after the non-terminal. -/
def afterwards : Nonterminal → List Kind
  | program => []
  | stmtList => listEnd
  | stmt | readStmt | writeStmt | varDecl | subrCall | asgnStmt | ifStmt | untilStmt => statementEnd
  | argList | argsTail => [closeParen]
  | expr | termTail => expressionEnd
  | term | factorTail => termEnd
  | factor => factorEnd
  | condition => conditionEnd
  | elseStmt => [kwEndif]
  | addOp | multOp | relOp => expressionStart

end Nonterminal

/-- The sets written out. -/
def programSets : Lookahead Nonterminal where
  nullable := [.stmtList, .argsTail, .termTail, .factorTail, .elseStmt]
  first := Nonterminal.all.map fun n => (n, n.start)
  follow := Nonterminal.all.map fun n => (n, n.afterwards)

theorem nullable_programGrammar : programGrammar.nullable = programSets.nullable := by
  decide +kernel

theorem begunBy_programGrammar (kind : Kind) :
    programGrammar.begunBy programSets.nullable kind =
      Nonterminal.all.filter fun n => n.start.contains kind := by
  have hall : ∀ kind ∈ Kind.all, programGrammar.begunBy programSets.nullable kind =
      Nonterminal.all.filter fun n => n.start.contains kind := by
    decide +kernel
  exact hall kind kind.mem_all

theorem first_programGrammar : programGrammar.first = programSets.first := by
  rw [Grammar.first, nullable_programGrammar]
  simp only [funext begunBy_programGrammar]
  decide +kernel

theorem followTable_programGrammar : programGrammar.followTable = programSets.follow := by
  rw [Grammar.followTable, nullable_programGrammar]
  simp only [Grammar.followedBy_eq_closure, begunBy_programGrammar]
  decide +kernel

theorem lookahead_programGrammar : programGrammar.lookahead = programSets := by
  rw [Grammar.lookahead, nullable_programGrammar, first_programGrammar,
    followTable_programGrammar]

end TopDown
