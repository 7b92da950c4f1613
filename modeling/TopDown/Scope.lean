import TopDown.Lexicon.Token

/-!
# Scopes

A scope holds the tokens that declared a name, in the order of declaration. A name is declared once;
what declares it again is refused with the first declaration at hand.
-/

namespace TopDown

structure Scope where
  tokens : List Token := []
  distinct : (tokens.map Token.lexeme).Nodup := by decide
  deriving DecidableEq

/-- A second declaration of one name. -/
structure Redeclaration where
  first : Token
  again : Token
  deriving DecidableEq, Inhabited

namespace Redeclaration

def name (r : Redeclaration) : String :=
  r.again.lexeme

def message (r : Redeclaration) : String :=
  s!"'{r.name}' is already declared ({r.first.location})"

end Redeclaration

namespace Scope

/-- The token that declared `name`. -/
def lookup (s : Scope) (name : String) : Option Token :=
  s.tokens.find? (·.lexeme = name)

def contains (s : Scope) (name : String) : Bool :=
  (s.lookup name).isSome

def names (s : Scope) : List String :=
  s.tokens.map (·.lexeme)

def size (s : Scope) : Nat :=
  s.tokens.length

theorem lookup_eq_none_iff {s : Scope} {name : String} : s.lookup name = none ↔ name ∉ s.names := by
  simp [lookup, names]

/-- Adds the name that `token` declares. -/
def declare (s : Scope) (token : Token) : Except Redeclaration Scope :=
  match found : s.lookup token.lexeme with
  | some first => .error ⟨first, token⟩
  | none =>
    .ok
      { tokens := s.tokens ++ [token]
        distinct := by
          have fresh : token.lexeme ∉ s.names := lookup_eq_none_iff.mp found
          have apart : ∀ name ∈ s.tokens.map Token.lexeme, name ≠ token.lexeme :=
            fun _ member same => fresh (same ▸ member)
          rw [List.map_append, List.nodup_append]
          exact ⟨s.distinct, by simp, by simpa using apart⟩ }

def describe (s : Scope) : String :=
  s!"SymbolTable({Text.quotedList s.names})"

end Scope

end TopDown
