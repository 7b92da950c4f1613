import TopDown.Derivation.Basic
import TopDown.Lexicon.Cursor

/-!
# Outcomes

A production call reads from a cursor and declares names in a scope. It is done, or it fails with
what it derived so far, or it nests too deeply; in the last case nothing else is known.
-/

namespace TopDown

/-- What a production call reads and changes. -/
structure State where
  cursor : Cursor
  scope : Scope := {}
  deriving DecidableEq

namespace State

/-- Before the first of the tokens, with nothing declared. -/
def start (tokens : List Token) : State :=
  ⟨⟨tokens, 0⟩, {}⟩

def kind (s : State) : Kind :=
  s.cursor.kind

def advance (s : State) : State :=
  { s with cursor := s.cursor.advance }

end State

inductive Outcome (α : Type) where
  | done (value : α) (state : State)
  | failed (value : α) (state : State) (fault : Fault)
  | tooDeep

namespace Outcome

variable {α β : Type}

def map (f : α → β) : Outcome α → Outcome β
  | done a s => done (f a) s
  | failed a s fault => failed (f a) s fault
  | tooDeep => tooDeep

/-- Goes on where the first part is done, and keeps what both parts derived. -/
def append (first : Outcome (List α)) (next : State → Outcome (List α)) : Outcome (List α) :=
  match first with
  | done a s => (next s).map (a ++ ·)
  | failed a s fault => failed a s fault
  | tooDeep => tooDeep

end Outcome

end TopDown
