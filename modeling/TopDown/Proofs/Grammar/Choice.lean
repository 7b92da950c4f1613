import TopDown.Derivation.Production
import TopDown.Proofs.Grammar.Sets

/-!
# Choices written out

Which alternative a call of a program chooses, as tests on the current kind: most non-terminals with
a choice look for one kind that opens each alternative, an operator may be any kind of its sort, and
an empty alternative is taken on what can follow the non-terminal. An alternative that is the only
one is taken whatever the kind is. These are the alternatives that the grammar and its lookahead
sets select, and where there is no choice left the kinds that are tested are those that would select
one.
-/

namespace TopDown

namespace Nonterminal

open Kind

/-- The alternative of a non-terminal for a current token of the given kind. -/
def choice (n : Nonterminal) (kind : Kind) : Option (Alternative Nonterminal) :=
  match n with
  | program => some [stmtList, endOfInput]
  | stmtList =>
    if kind ∈ first stmt then some [stmt, stmtList]
    else if kind ∈ follow stmtList then some []
    else none
  | stmt =>
    match kind with
    | kwRead => some [readStmt]
    | kwWrite => some [writeStmt]
    | kwVar => some [varDecl]
    | identifier => some [subrCall]
    | kwLet => some [kwLet, identifier, asgnStmt]
    | kwIf => some [ifStmt]
    | kwUntil => some [untilStmt]
    | _ => none
  | readStmt => some [kwRead, identifier]
  | writeStmt => some [kwWrite, expr]
  | varDecl => some [kwVar, identifier]
  | subrCall => some [identifier, openParen, argList, closeParen]
  | asgnStmt =>
    match kind with
    | assign => some [assign, expr]
    | arrow => some [arrow, subrCall]
    | _ => none
  | argList => some [expr, argsTail]
  | argsTail =>
    if kind = comma then some [comma, argList]
    else if kind ∈ follow argsTail then some []
    else none
  | expr => some [term, termTail]
  | term => some [factor, factorTail]
  | termTail =>
    if kind ∈ first addOp then some [addOp, term, termTail]
    else if kind ∈ follow termTail then some []
    else none
  | factor =>
    match kind with
    | openParen => some [openParen, expr, closeParen]
    | identifier => some [identifier]
    | number => some [number]
    | _ => none
  | factorTail =>
    if kind ∈ first multOp then some [multOp, factor, factorTail]
    else if kind ∈ follow factorTail then some []
    else none
  | condition => some [expr, relOp, expr]
  | ifStmt => some [kwIf, condition, kwThen, stmtList, elseStmt, kwEndif]
  | elseStmt =>
    if kind = kwElse then some [kwElse, stmtList]
    else if kind ∈ follow elseStmt then some []
    else none
  | untilStmt => some [kwUntil, condition, stmtList, kwRepeat]
  | addOp | multOp | relOp => if kind ∈ first n then some [kind] else none

/-- The kinds that are tested before a choice of a non-terminal fails. -/
def tested : Nonterminal → List Kind
  | stmtList => first stmt ++ follow stmtList
  | argsTail => comma :: follow argsTail
  | termTail => first addOp ++ follow termTail
  | factorTail => first multOp ++ follow factorTail
  | elseStmt => kwElse :: follow elseStmt
  | n => first n

end Nonterminal

theorem choose?_programLanguage (n : Nonterminal) (kind : Kind) :
    programLanguage.choose? n kind = n.choice kind := by
  have hcheck : ∀ n ∈ Nonterminal.all, ∀ kind ∈ Kind.all,
      programLanguage.choose? n kind = n.choice kind := by
    unfold Language.choose? Nonterminal.choice Nonterminal.first Nonterminal.follow
      programLanguage programLookahead
    rw [lookahead_programGrammar]
    decide +kernel
  exact hcheck n n.mem_all kind kind.mem_all

theorem expected_programLanguage (n : Nonterminal) :
    programLanguage.expected n = Kind.all.filter n.tested.contains := by
  have hcheck : ∀ n ∈ Nonterminal.all,
      programLanguage.expected n = Kind.all.filter n.tested.contains := by
    unfold Language.expected Language.admits Nonterminal.tested Nonterminal.first Nonterminal.follow
      programLanguage programLookahead
    rw [lookahead_programGrammar]
    decide +kernel
  exact hcheck n n.mem_all

end TopDown
