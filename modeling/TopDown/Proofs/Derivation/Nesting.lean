import TopDown.Proofs.Derivation.Levels
import TopDown.Proofs.Derivation.Trees

/-!
# Nesting

A path leads down a derivation from non-terminal to non-terminal. It is charged where it enters a
construct that can hold itself: parentheses, the body of a branch or a loop, a further argument. A
list of statements, a sum and a product are as long as they like without a charge, since a pass that
goes on stays on its level. So what a derivation nests without a charge has an end, the reserve of
its non-terminal, and its levels are bounded by what its paths are charged.
-/

namespace TopDown

open TopDown.Derivation

namespace Derivation

variable {N : Type}

mutual
/-- The paths down from the top of a derivation, wherever they stop. -/
def paths : Derivation N → List (List N)
  | .production n children => [n] :: (pathsOf children).map (n :: ·)
  | .terminal _ _ => []
  | .empty => []
  | .error _ => []
def pathsOf : List (Derivation N) → List (List N)
  | [] => []
  | d :: ds => d.paths ++ pathsOf ds
end

end Derivation

namespace Nonterminal

/-- What a path is charged for the way from a non-terminal to one directly below it. -/
def charge : Nonterminal → Nonterminal → Nat
  | factor, expr => 3
  | ifStmt, stmtList | untilStmt, stmtList => 3
  | elseStmt, stmtList => 4
  | argsTail, argList => 2
  | _, _ => 0

/-- What a path is charged. -/
def pathCharge : List Nonterminal → Nat
  | n :: m :: path => n.charge m + pathCharge (m :: path)
  | _ => 0

/-- Three times the levels that a non-terminal can take below its own on a path without a charge,
where each charge pays for five levels out of three. -/
def reserve : Nonterminal → Nat
  | program => 30
  | stmtList => 27
  | stmt => 24
  | asgnStmt => 21
  | subrCall | ifStmt | untilStmt => 18
  | writeStmt | argList | condition => 15
  | expr => 12
  | elseStmt => 10
  | termTail => 9
  | argsTail => 8
  | term => 6
  | factorTail => 3
  | readStmt | varDecl | factor | addOp | multOp | relOp => 0

/-- A level down is paid by the charge or by the reserve. -/
theorem reserve_le {host n : Nonterminal} {alt : Alternative Nonterminal}
    (halt : alt ∈ programGrammar.alternatives host) (hn : .nonterminal n ∈ alt) :
    3 * (if n = host then 0 else 1) + n.reserve ≤ 5 * host.charge n + host.reserve := by
  have hcheck : ∀ host ∈ all, ∀ alt ∈ programGrammar.alternatives host, ∀ n ∈ all,
      .nonterminal n ∈ alt →
        3 * (if n = host then 0 else 1) + n.reserve ≤ 5 * host.charge n + host.reserve := by
    decide +kernel
  exact hcheck host host.mem_all alt halt n n.mem_all hn

end Nonterminal

namespace Derivation

/-- No path from `host` into the derivations is charged more than the budget. -/
def WithinBudget (host : Nonterminal) (budget : Nat) (ds : List (Derivation Nonterminal)) : Prop :=
  ∀ path ∈ pathsOf ds, Nonterminal.pathCharge (host :: path) ≤ budget

variable {host n : Nonterminal} {budget : Nat} {children ds : List (Derivation Nonterminal)}

theorem withinBudget_cons_iff {d : Derivation Nonterminal} :
    WithinBudget host budget (d :: ds) ↔
      (∀ path ∈ d.paths, Nonterminal.pathCharge (host :: path) ≤ budget) ∧
        WithinBudget host budget ds := by
  rw [WithinBudget, pathsOf, List.forall_mem_append]
  rfl

/-- Below a non-terminal there is left of the budget what the way to it is not charged. -/
theorem WithinBudget.below (h : WithinBudget host budget (.production n children :: ds)) :
    host.charge n ≤ budget ∧ WithinBudget n (budget - host.charge n) children := by
  have hpaths := (withinBudget_cons_iff.mp h).1
  rw [paths, List.forall_mem_cons, List.forall_mem_map] at hpaths
  obtain ⟨hstop, hdown⟩ := hpaths
  exact ⟨hstop, fun path hpath => Nat.le_sub_of_add_le' (hdown path hpath)⟩

/-- A derivation takes the levels of its children and at most one more. -/
theorem levelsIn_production_le {alt : Alternative Nonterminal}
    (halt : alt ∈ programGrammar.alternatives host) (hn : .nonterminal n ∈ alt)
    (hbudget : host.charge n ≤ budget)
    (h : 3 * levelsBelow n children ≤ 5 * (budget - host.charge n) + n.reserve) :
    3 * (production n children).levelsIn host ≤ 5 * budget + host.reserve := by
  have hstep := Nonterminal.reserve_le halt hn
  rw [levelsIn]
  omega

end Derivation

/-- The levels of derivation trees below `host` are bounded by what the paths from `host` into the
trees are charged. -/
theorem Grammar.Trees.levelsBelow_le {host : Nonterminal} {symbols : List (Symbol Nonterminal)}
    {ds : List (Derivation Nonterminal)} {budget : Nat} (h : programGrammar.Trees symbols ds)
    (hhost : ∃ alt ∈ programGrammar.alternatives host, symbols ⊆ alt)
    (hbudget : WithinBudget host budget ds) :
    3 * levelsBelow host ds ≤ 5 * budget + host.reserve := by
  induction h generalizing host budget with
  | nil => simp
  | terminal lexeme _ ih =>
    obtain ⟨alt, halt, hsub⟩ := hhost
    rw [levelsBelow, levelsIn, Nat.zero_max]
    exact ih ⟨alt, halt, (List.cons_subset.mp hsub).2⟩ (withinBudget_cons_iff.mp hbudget).2
  | @empty n _ _ _ _ ih =>
    obtain ⟨alt, halt, hsub⟩ := hhost
    obtain ⟨hn, hsub⟩ := List.cons_subset.mp hsub
    have hcharge := hbudget.below.1
    have hleaf : 3 * levelsBelow n [.empty] ≤ 5 * (budget - host.charge n) + n.reserve := by
      simp [levelsBelow, levelsIn]
    have hfirst := levelsIn_production_le halt hn hcharge hleaf
    have hrest := ih ⟨alt, halt, hsub⟩ (withinBudget_cons_iff.mp hbudget).2
    rw [levelsBelow]
    omega
  | production hchosen _ _ _ ihc ihr =>
    obtain ⟨alt, halt, hsub⟩ := hhost
    obtain ⟨hn, hsub⟩ := List.cons_subset.mp hsub
    obtain ⟨hcharge, hbelow⟩ := hbudget.below
    have hchildren := ihc ⟨_, hchosen, List.Subset.refl _⟩ hbelow
    have hfirst := levelsIn_production_le halt hn hcharge hchildren
    have hrest := ihr ⟨alt, halt, hsub⟩ (withinBudget_cons_iff.mp hbudget).2
    rw [levelsBelow]
    omega

end TopDown
