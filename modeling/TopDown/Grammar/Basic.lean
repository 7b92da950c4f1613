import TopDown.Lexicon.Kind

/-!
# Grammars

A grammar gives each of its non-terminals a list of alternatives, and each alternative is a list of
symbols; the empty one derives the empty string. The non-terminals have an order, in which sets and
tables are listed. A symbol may use a non-terminal that the grammar does not define: it has no
alternatives.
-/

namespace TopDown

/-- A symbol of a grammar whose non-terminals are the elements of `N`. -/
inductive Symbol (N : Type) where
  | terminal (kind : Kind)
  | nonterminal (name : N)
  deriving DecidableEq

abbrev Alternative (N : Type) := List (Symbol N)

structure Grammar (N : Type) where
  rules : List (N × List (Alternative N))
  distinct : (rules.map Prod.fst).Nodup

namespace Grammar

variable {N : Type}

/-- The non-terminals that the grammar defines, in order. -/
def names (g : Grammar N) : List N :=
  g.rules.map Prod.fst

variable [DecidableEq N]

def alternatives (g : Grammar N) (n : N) : List (Alternative N) :=
  (g.rules.lookup n).getD []

/-- Gives `n` the alternatives `alts`, in its old place if it was defined. -/
def define (g : Grammar N) (n : N) (alts : List (Alternative N)) : Grammar N :=
  if defined : n ∈ g.names then
    { rules := g.rules.map fun rule => if rule.1 = n then (n, alts) else rule
      distinct := by
        have same : (g.rules.map fun rule => if rule.1 = n then (n, alts) else rule).map Prod.fst
            = g.rules.map Prod.fst := by
          rw [List.map_map]
          refine List.map_congr_left fun rule _ => ?_
          by_cases h : rule.1 = n <;> simp [h]
        rw [same]
        exact g.distinct }
  else
    { rules := g.rules ++ [(n, alts)]
      distinct := by
        have fresh : ∀ m ∈ g.rules.map Prod.fst, m ≠ n := fun m hm e => defined (e ▸ hm)
        rw [List.map_append, List.nodup_append]
        exact ⟨g.distinct, by simp, by simpa using fresh⟩ }

/-- The grammar with the given rules; of two rules for one non-terminal the later counts. -/
def ofRules (rules : List (N × List (Alternative N))) : Grammar N :=
  rules.foldl (fun g rule => g.define rule.1 rule.2) ⟨[], List.nodup_nil⟩

end Grammar

end TopDown
