import TopDown.Derivation.Outcome
import TopDown.Grammar.Program

/-!
# Production calls

A derivation is found from the top down: a production call looks at the kind of the current token,
chooses an alternative and works through its symbols, calling a production for each non-terminal. An
alternative that is the only one is taken without a look, so that the fault shows further down.

An alternative that ends in the non-terminal it belongs to goes on at the same depth. Every other
call is one deeper, and calls beyond a depth limit are not made.
-/

namespace TopDown

/-- A grammar with its lookahead sets, and the terminals that declare the name they match. -/
structure Language (N : Type) where
  grammar : Grammar N
  lookahead : Lookahead N
  declares : N → Kind → Bool

namespace Language

variable {N : Type} [DecidableEq N] (l : Language N)

/-- Whether `kind` selects an alternative of `n`. -/
def admits (n : N) (kind : Kind) : Bool :=
  (l.grammar.alternatives n).any (l.lookahead.selects n kind)

/-- The kinds that select an alternative of `n`. -/
def expected (n : N) : List Kind :=
  Kind.all.filter (l.admits n)

/-- The alternative of `n` for a current token of the given kind. -/
def choose? (n : N) (kind : Kind) : Option (Alternative N) :=
  match l.grammar.alternatives n with
  | [alt] => some alt
  | alts => alts.find? (l.lookahead.selects n kind)

/-- Stops at the current token. -/
def stop (fault : Fault) (s : State) : Outcome (List (Derivation N)) :=
  .failed [.error fault] s fault

/-- Matches one terminal of `host`, and declares the name if `host` does so there. -/
def terminal (host : N) (kind : Kind) (s : State) : Outcome (List (Derivation N)) :=
  if s.kind = kind then
    let leaf := .terminal kind s.cursor.lexeme
    match s.cursor.current with
    | none => .done [leaf] s.advance
    | some token =>
      if l.declares host kind then
        match s.scope.declare token with
        | .ok scope => .done [leaf] { s.advance with scope }
        | .error r => .failed [leaf, .error (.redeclared r)] s.advance (.redeclared r)
      else .done [leaf] s.advance
  else stop (.unexpected kind s.cursor.current) s

/-- Works through symbols of `host` with the calls `below`, and with `again` for a last symbol that
is `host` itself. -/
def symbols (below : N → State → Outcome (Derivation N)) (again : State → Outcome (Derivation N))
    (host : N) : List (Symbol N) → State → Outcome (List (Derivation N))
  | [], s => .done [] s
  | .terminal kind :: rest, s => (l.terminal host kind s).append (symbols below again host rest)
  | .nonterminal n :: rest, s =>
    let call := if n = host ∧ rest = [] then again else below n
    ((call s).map ([·])).append (symbols below again host rest)

/-- A production call that makes its calls with `below` and goes on at its own depth at most
`passes` times. -/
def produce (below : N → State → Outcome (Derivation N)) :
    (passes : Nat) → N → State → Outcome (Derivation N)
  | 0, _, _ => .tooDeep
  | passes + 1, n, s =>
    let children :=
      match l.choose? n s.kind with
      | none => stop (.noAlternative (l.expected n) s.cursor.current) s
      | some [] => .done [.empty] s
      | some alt => l.symbols below (produce below passes n) n alt s
    children.map (.production n)

/-- A production call with `depth` levels to spend. A pass that goes on consumes a token, so there
are no more passes than tokens, and one for the end. -/
def call : (depth : Nat) → N → State → Outcome (Derivation N)
  | 0, _, _ => .tooDeep
  | depth + 1, n, s => l.produce (call depth) (s.cursor.rest.length + 1) n s

end Language

/-- The language of programs: a variable declaration declares its identifier. -/
def programLanguage : Language Nonterminal where
  grammar := programGrammar
  lookahead := programLookahead
  declares n kind := n = .varDecl && kind = .identifier

end TopDown
