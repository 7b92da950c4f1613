/-!
# Closure

The sets of a grammar are least sets closed under a rule: an element belongs if the rule yields it
from elements that belong. Such a set is found in rounds, each of which adds what the rule yields
from the round before; there are no more rounds than elements.
-/

namespace TopDown

variable {α : Type} [BEq α]

/-- The members of `domain` that are marked or that the rule yields from the marked ones. -/
def closureStep (domain : List α) (rule : (α → Bool) → α → Bool) (marked : List α) : List α :=
  domain.filter fun a => marked.contains a || rule marked.contains a

/-- At most `rounds` steps from `marked`, fewer if one of them adds nothing. -/
def closureFrom (domain : List α) (rule : (α → Bool) → α → Bool) :
    (rounds : Nat) → (marked : List α) → List α
  | 0, marked => marked
  | rounds + 1, marked =>
    let next := closureStep domain rule marked
    if next.length = marked.length then marked else closureFrom domain rule rounds next

/-- The least part of `domain` that is closed under the rule. -/
def closure (domain : List α) (rule : (α → Bool) → α → Bool) : List α :=
  closureFrom domain rule domain.length []

end TopDown
