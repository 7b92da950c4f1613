import TopDown.Proofs.Derivation.Levels
import TopDown.Proofs.Derivation.Trees
import TopDown.Proofs.Grammar.Program
import TopDown.Proofs.Tree.Rose

/-!
# Lists of statements

A derivation tree of a list of statements is a chain: each link holds a statement and the next
link, and the last one is empty. What the tree is made of can be read off the statements, and a
longer chain nests no deeper than its statements do.
-/

namespace TopDown

open TopDown.Derivation

namespace Derivation

/-- The list of the given statements. -/
def chain : List (Derivation Nonterminal) → Derivation Nonterminal
  | [] => .production .stmtList [.empty]
  | d :: ds => .production .stmtList [d, chain ds]

theorem leaves_chain (ds : List (Derivation Nonterminal)) : (chain ds).leaves = leavesOf ds := by
  induction ds with
  | nil => rfl
  | cons d ds ih =>
    rw [chain, leaves, leavesOf, leavesOf, leavesOf, ih, List.append_nil]
    rfl

/-- The links of a chain are on one level. -/
theorem levelsIn_chain (ds : List (Derivation Nonterminal)) :
    (chain ds).levelsIn .stmtList = levelsBelow .stmtList ds := by
  induction ds with
  | nil => rfl
  | cons d ds ih =>
    rw [chain, levelsIn_production_self, levelsBelow, levelsBelow, ih, levelsBelow_nil,
      Nat.max_zero, levelsBelow]

theorem levelsIn_chain_of_ne {host : Nonterminal} (hhost : .stmtList ≠ host)
    (ds : List (Derivation Nonterminal)) :
    (chain ds).levelsIn host = levelsBelow .stmtList ds + 1 := by
  rw [← levelsIn_chain]
  cases ds with
  | nil => rw [chain, levelsIn_production_of_ne hhost, levelsIn_production_self]
  | cons d ds => rw [chain, levelsIn_production_of_ne hhost, levelsIn_production_self]

theorem size_chain (name : Nonterminal → String) (ds : List (Derivation Nonterminal)) :
    ((chain ds).toRose name).size = Rose.sizeOfForest (forest name ds) + ds.length + 2 := by
  induction ds with
  | nil => rfl
  | cons d ds ih =>
    simp only [chain, toRose, forest, Rose.size, Rose.sizeOfForest, ih, List.length_cons]
    omega

end Derivation

namespace Grammar

theorem Trees.length_eq {N : Type} [DecidableEq N] {g : Grammar N} {symbols : List (Symbol N)}
    {ds : List (Derivation N)} (h : g.Trees symbols ds) : ds.length = symbols.length := by
  induction h with
  | nil => rfl
  | terminal _ _ ih | empty _ _ ih | production _ _ _ _ _ ih =>
    rw [List.length_cons, List.length_cons, ih]

theorem trees_cons_iff {N : Type} [DecidableEq N] {g : Grammar N} {n : N} {rest : List (Symbol N)}
    {d : Derivation N} {ds : List (Derivation N)} :
    g.Trees (.nonterminal n :: rest) (d :: ds) ↔
      g.Trees [.nonterminal n] [d] ∧ g.Trees rest ds := by
  constructor
  · intro h
    cases h with
    | empty halt hrest => exact ⟨.empty halt .nil, hrest⟩
    | production halt hne hchildren hrest => exact ⟨.production halt hne hchildren .nil, hrest⟩
  · rintro ⟨hfirst, hrest⟩
    cases hfirst with
    | empty halt _ => exact .empty halt hrest
    | production halt hne hchildren _ => exact .production halt hne hchildren hrest

/-- A derivation tree of a list of statements is a chain of statements. -/
theorem trees_stmtList_iff {d : Derivation Nonterminal} :
    programGrammar.Trees [.nonterminal .stmtList] [d] ↔
      ∃ ds, d = chain ds ∧ ∀ stmt ∈ ds, programGrammar.Trees [.nonterminal .stmt] [stmt] := by
  constructor
  · intro h
    induction hsize : sizeOf d using Nat.strong_induction_on generalizing d with
    | h size ih =>
      obtain ⟨alt, halt, children, rest, hd, hbelow, _⟩ := h.of_nonterminal
      obtain ⟨rfl, rfl⟩ := List.cons.inj hd
      rcases List.mem_pair.mp halt with rfl | rfl
      · have htrees := (below_iff_of_ne_nil (List.cons_ne_nil _ _)).mp hbelow
        obtain ⟨stmt, link, rfl⟩ := List.length_eq_two.mp htrees.length_eq
        obtain ⟨hstmt, hlink⟩ := trees_cons_iff.mp htrees
        have hsmaller : sizeOf link < size := by
          rw [← hsize]
          simp only [production.sizeOf_spec, List.cons.sizeOf_spec]
          omega
        obtain ⟨ds, rfl, hds⟩ := ih _ hsmaller hlink rfl
        exact ⟨stmt :: ds, rfl, List.forall_mem_cons.mpr ⟨hstmt, hds⟩⟩
      · rw [below_nil_iff.mp hbelow]
        exact ⟨[], rfl, by simp⟩
  · rintro ⟨ds, rfl, hds⟩
    induction ds with
    | nil => exact .empty (by decide) .nil
    | cons stmt ds ih =>
      obtain ⟨hstmt, hrest⟩ := List.forall_mem_cons.mp hds
      exact .production (by decide) (by simp) (trees_cons_iff.mpr ⟨hstmt, ih hrest⟩) .nil

end Grammar

end TopDown
