import TopDown.Grammar.Basic
import TopDown.Grammar.Closure

/-!
# Lookahead sets

A non-terminal is nullable if it derives the empty string. FIRST of a non-terminal holds the kinds
that can begin what it derives, and FOLLOW the kinds that can come right after it. Each of the three
is a closure over the non-terminals, FIRST and FOLLOW one for each kind. FOLLOW looks up every
non-terminal that is used and so asks that all of them be defined.
-/

namespace TopDown

variable {N : Type}

/-- Whether the symbols can all vanish, given the non-terminals that can. -/
def vanishes (nullable : N → Bool) (symbols : List (Symbol N)) : Bool :=
  symbols.all fun
    | .terminal _ => false
    | .nonterminal n => nullable n

/-- Whether `kind` can begin the symbols, given the non-terminals that it can begin and those that
can vanish. -/
def begins (nullable : N → Bool) (begun : N → Bool) (kind : Kind) : List (Symbol N) → Bool
  | [] => false
  | .terminal k :: _ => k = kind
  | .nonterminal n :: rest => begun n || (nullable n && begins nullable begun kind rest)

/-- The kinds that can begin the symbols, given the FIRST sets of their non-terminals. -/
def starters (nullable : N → Bool) (first : N → List Kind) (symbols : List (Symbol N)) :
    List Kind :=
  Kind.all.filter fun kind => begins nullable (fun n => (first n).contains kind) kind symbols

/-- A use of a non-terminal in an alternative of `host`, with what comes after it there. -/
structure Occurrence (N : Type) where
  name : N
  rest : List (Symbol N)
  host : N

/-- The uses of non-terminals in the symbols, from left to right. -/
def occurrencesIn (host : N) : List (Symbol N) → List (Occurrence N)
  | [] => []
  | .terminal _ :: rest => occurrencesIn host rest
  | .nonterminal n :: rest => ⟨n, rest, host⟩ :: occurrencesIn host rest

/-- A reason why a grammar has no FOLLOW sets or no prediction table. -/
inductive Defect (N : Type) where
  /-- The non-terminal is used and not defined. -/
  | undefined (name : N)
  /-- The kind selects two alternatives of the non-terminal. -/
  | conflict (name : N) (kind : Kind)
  deriving DecidableEq

namespace Grammar

variable [DecidableEq N]

/-- The non-terminals that derive the empty string, in order. -/
def nullable (g : Grammar N) : List N :=
  closure g.names fun marked n => (g.alternatives n).any (vanishes marked)

/-- The non-terminals that `kind` can begin, given those that can vanish. -/
def begunBy (g : Grammar N) (nullable : List N) (kind : Kind) : List N :=
  closure g.names fun marked n => (g.alternatives n).any (begins nullable.contains marked kind)

/-- For each kind the non-terminals it marks, turned into the kinds of each non-terminal. -/
def kindsOf (g : Grammar N) (marked : Kind → List N) : List (N × List Kind) :=
  let table := Kind.all.map fun kind => (kind, marked kind)
  g.names.map fun n => (n, table.filterMap fun (kind, names) =>
    if names.contains n then some kind else none)

/-- The FIRST sets, in order. -/
def first (g : Grammar N) : List (N × List Kind) :=
  let nullable := g.nullable
  g.kindsOf (g.begunBy nullable)

def occurrences (g : Grammar N) : List (Occurrence N) :=
  g.rules.flatMap fun (host, alts) => alts.flatMap (occurrencesIn host)

/-- The first non-terminal that is used and not defined. -/
def undefined? (g : Grammar N) : Option N :=
  (g.occurrences.map (·.name)).find? fun n => !g.names.contains n

/-- The non-terminals that `kind` can follow, given those that can vanish and those that it can
begin. -/
def followedBy (g : Grammar N) (nullable begun : List N) (kind : Kind) : List N :=
  let uses := g.occurrences.map fun o =>
    (o, begins nullable.contains begun.contains kind o.rest, vanishes nullable.contains o.rest)
  closure g.names fun marked n => uses.any fun (o, isBegun, atEnd) =>
    o.name = n && (isBegun || (atEnd && marked o.host))

/-- The FOLLOW sets of a grammar that defines what it uses, in order. -/
def followTable (g : Grammar N) : List (N × List Kind) :=
  let nullable := g.nullable
  g.kindsOf fun kind => g.followedBy nullable (g.begunBy nullable kind) kind

/-- The FOLLOW sets, in order. -/
def follow (g : Grammar N) : Except (Defect N) (List (N × List Kind)) :=
  match g.undefined? with
  | some n => .error (.undefined n)
  | none => .ok g.followTable

end Grammar

/-- The lookahead sets of a grammar, as a recogniser consults them. -/
structure Lookahead (N : Type) where
  nullable : List N
  first : List (N × List Kind)
  follow : List (N × List Kind)

namespace Lookahead

variable [DecidableEq N]

def isNullable (l : Lookahead N) (n : N) : Bool :=
  l.nullable.contains n

def firstSet (l : Lookahead N) (n : N) : List Kind :=
  (l.first.lookup n).getD []

def followSet (l : Lookahead N) (n : N) : List Kind :=
  (l.follow.lookup n).getD []

/-- Whether `kind` can begin the alternative. -/
def canBegin (l : Lookahead N) (kind : Kind) (alt : Alternative N) : Bool :=
  begins l.isNullable (fun n => (l.firstSet n).contains kind) kind alt

/-- Whether `kind` selects the alternative of `n`: it can begin the alternative, or follow `n` where
the alternative vanishes. -/
def selects (l : Lookahead N) (n : N) (kind : Kind) (alt : Alternative N) : Bool :=
  l.canBegin kind alt || (vanishes l.isNullable alt && (l.followSet n).contains kind)

end Lookahead

/-- The lookahead sets of `g`. -/
def Grammar.lookahead [DecidableEq N] (g : Grammar N) : Lookahead N :=
  ⟨g.nullable, g.first, g.followTable⟩

end TopDown
