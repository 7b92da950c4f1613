import TopDown.Proofs.Derivation.Passes
import TopDown.Proofs.Tree.Spelling

/-!
# Nodes and tokens

A run shows at most seven nodes for each token that it consumes, and a few more or less that depend
on its symbols alone. Each non-terminal has an allowance for what it derives when it is done, and a
leeway for what it has derived at any time, an error included; an alternative stays within those of
its non-terminal. So the nodes of a whole tree are linear in its tokens.
-/

namespace TopDown

open TopDown.Derivation

namespace Nonterminal

/-- The nodes beyond seven for each token that the non-terminal shows at most when it is done. -/
def allowance : Nonterminal → Int
  | program | argList => 5
  | stmtList | elseStmt | argsTail | expr | termTail | factorTail => 2
  | condition => 1
  | stmt | term => -1
  | writeStmt | asgnStmt => -2
  | factor | addOp | multOp | relOp => -4
  | untilStmt => -6
  | readStmt | varDecl | subrCall | ifStmt => -9

/-- The nodes beyond seven for each token that the non-terminal shows at most at any time. -/
def leeway : Nonterminal → Int
  | program | argList | condition => 5
  | stmtList | expr => 4
  | stmt | term | termTail | factorTail => 3
  | _ => 2

end Nonterminal

/-- What symbols that are done are allowed. A terminal shows two nodes, for a token or for the end
of all tokens. -/
def allowance : List (Symbol Nonterminal) → Int
  | [] => 0
  | .terminal kind :: rest => (if kind = .endOfInput then 2 else -5) + allowance rest
  | .nonterminal n :: rest => n.allowance + allowance rest

/-- What symbols are allowed that are done, or were stopped at one of them. -/
def leeway : List (Symbol Nonterminal) → Int
  | [] => 0
  | .terminal kind :: rest => max 1 ((if kind = .endOfInput then 2 else -5) + leeway rest)
  | .nonterminal n :: rest => max n.leeway (n.allowance + leeway rest)

theorem two_le_leeway (n : Nonterminal) : 2 ≤ n.leeway := by
  cases n <;> decide

/-- An alternative and the node above it stay within the allowance and the leeway. -/
theorem allowance_le_of_mem {n : Nonterminal} {alt : Alternative Nonterminal}
    (h : alt ∈ programGrammar.alternatives n) :
    (if alt = [] then 2 else allowance alt + 1) ≤ n.allowance ∧ leeway alt + 1 ≤ n.leeway := by
  have hcheck : ∀ n ∈ Nonterminal.all, ∀ alt ∈ programGrammar.alternatives n,
      (if alt = [] then 2 else allowance alt + 1) ≤ n.allowance ∧
        leeway alt + 1 ≤ n.leeway := by
    decide +kernel
  exact hcheck n n.mem_all alt h

/-- The number of nodes that show derivations. -/
def nodeCount (ds : List (Derivation Nonterminal)) : Int :=
  Rose.sizeOfForest (shown ds)

section

variable (ds : List (Derivation Nonterminal))

@[simp] theorem nodeCount_nil : nodeCount [] = 0 :=
  rfl

@[simp] theorem nodeCount_production (n : Nonterminal) (children : List (Derivation Nonterminal)) :
    nodeCount (.production n children :: ds) = nodeCount children + 1 + nodeCount ds := by
  simp [nodeCount, forest, toRose, Rose.sizeOfForest, Rose.size]

@[simp] theorem nodeCount_terminal (kind : Kind) (lexeme : String) :
    nodeCount (.terminal kind lexeme :: ds) = 2 + nodeCount ds := by
  simp [nodeCount, forest, toRose, Rose.sizeOfForest, Rose.size]

@[simp] theorem nodeCount_empty : nodeCount (.empty :: ds) = 1 + nodeCount ds := by
  simp [nodeCount, forest, toRose, Rose.sizeOfForest, Rose.size]

@[simp] theorem nodeCount_error (fault : Fault) :
    nodeCount (.error fault :: ds) = 1 + nodeCount ds := by
  simp [nodeCount, forest, toRose, Rose.sizeOfForest, Rose.size]

end

namespace Language

variable {host : Nonterminal} {symbols : List (Symbol Nonterminal)} {s s' : State}
  {ds : List (Derivation Nonterminal)} {ts : List Token} {fault : Option Fault}

/-- A run keeps to the allowance of its symbols if it is done, and to their leeway in any case. -/
theorem Runs.nodeCount_le (h : programLanguage.Runs host symbols s ds ts s' fault) :
    (fault = none → nodeCount ds ≤ 7 * ts.length + allowance symbols) ∧
      nodeCount ds ≤ 7 * ts.length + leeway symbols := by
  induction h with
  | nil => simp [allowance, leeway]
  | ended _ _ ih =>
    obtain ⟨hdone, hany⟩ := ih
    simp only [nodeCount_terminal, allowance, leeway, if_true]
    exact ⟨fun hnone => by have hrest := hdone hnone; omega, by omega⟩
  | @matched _ kind rest _ _ _ _ _ _ _ _ _ _ _ _ ih =>
    obtain ⟨hdone, hany⟩ := ih
    simp only [nodeCount_terminal, allowance, leeway, List.length_cons]
    exact ⟨fun hnone => by have hrest := hdone hnone; split <;> omega, by split <;> omega⟩
  | redeclared | mismatched =>
    simp only [nodeCount_terminal, nodeCount_error, nodeCount_nil, leeway, List.length_cons,
      List.length_nil]
    exact ⟨by simp, by omega⟩
  | @refused _ n =>
    have htwo := two_le_leeway n
    simp only [nodeCount_production, nodeCount_error, nodeCount_nil, leeway, List.length_nil]
    exact ⟨by simp, by omega⟩
  | vanished hchoose _ ih =>
    obtain ⟨hdone, hany⟩ := ih
    have hnode := (allowance_le_of_mem (mem_alternatives_of_choose? hchoose)).1
    rw [if_pos rfl] at hnode
    simp only [nodeCount_production, nodeCount_empty, nodeCount_nil, allowance, leeway]
    exact ⟨fun hnone => by have hrest := hdone hnone; omega, by omega⟩
  | called hchoose hne _ _ ihc ihr =>
    have hbelow := ihc.1 rfl
    obtain ⟨hdone, hany⟩ := ihr
    have hnode := (allowance_le_of_mem (mem_alternatives_of_choose? hchoose)).1
    rw [if_neg hne] at hnode
    simp only [nodeCount_production, allowance, leeway, List.length_append]
    exact ⟨fun hnone => by have hrest := hdone hnone; omega, by omega⟩
  | broken hchoose _ _ ih =>
    have hnode := (allowance_le_of_mem (mem_alternatives_of_choose? hchoose)).2
    have hbelow := ih.2
    simp only [nodeCount_production, nodeCount_nil, leeway]
    exact ⟨by simp, by omega⟩

end Language

end TopDown
