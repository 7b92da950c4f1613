import TopDown.Grammar.Lookahead
import TopDown.Text.Quoted

/-!
# Prediction

A grammar is LL(1) if one kind of lookahead decides between the alternatives of each non-terminal.
Its prediction table gives for a non-terminal and a kind the place of the alternative that the kind
selects. A grammar that is not LL(1) has a conflict; the first one in the order of the grammar is
reported.
-/

namespace TopDown

variable {N : Type} [DecidableEq N]

namespace Grammar

/-- For each alternative of `n`, the kinds that select it. -/
def selections (g : Grammar N) (l : Lookahead N) (n : N) : List (List Kind) :=
  (g.alternatives n).map fun alt => Kind.all.filter (l.selects n · alt)

end Grammar

/-- The first kind that is in one of the lists and in `seen` or an earlier list. -/
def collision? (seen : List Kind) : List (List Kind) → Option Kind
  | [] => none
  | kinds :: rest =>
    match kinds.find? seen.contains with
    | some kind => some kind
    | none => collision? (seen ++ kinds) rest

/-- The place of the list that holds each kind, for the kinds that one of them holds. -/
def places (selections : List (List Kind)) : List (Kind × Nat) :=
  Kind.all.filterMap fun kind =>
    (selections.findIdx? (·.contains kind)).map (kind, ·)

/-- The table of an LL(1) grammar: non-terminals in order, kinds in order. -/
abbrev Prediction (N : Type) := List (N × List (Kind × Nat))

/-- The place of the alternative of `n` that `kind` selects. -/
def Prediction.get? (p : Prediction N) (n : N) (kind : Kind) : Option Nat :=
  (p.lookup n).bind (·.lookup kind)

/-- The prediction table. -/
def Grammar.prediction (g : Grammar N) : Except (Defect N) (Prediction N) :=
  match g.undefined? with
  | some n => .error (.undefined n)
  | none =>
    let l := g.lookahead
    g.names.mapM fun n =>
      let selections := g.selections l n
      match collision? [] selections with
      | some kind => .error (.conflict n kind)
      | none => .ok (n, places selections)

/-- The quoted name of what is undefined, or the conflict. -/
def Defect.message : Defect String → String
  | undefined name => Text.quoted name
  | conflict name kind => s!"LL(1) conflict in <{name}> on lookahead '{kind.name}'"

end TopDown
