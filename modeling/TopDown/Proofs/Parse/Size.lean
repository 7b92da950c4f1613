import TopDown.Proofs.Derivation.Size
import TopDown.Proofs.Parse.Program
import TopDown.Proofs.Tree.Graft

/-!
# The size of parse trees

The tree of a parse, whole or cut short, is linear in the tokens that the parse consumed. A pass
that goes on with its own non-terminal cannot add nodes without end, since it has consumed a token.
-/

namespace TopDown

open TopDown.Derivation

/-- The tree of a parse has at most seven nodes for each consumed token, and six. Every pass that
goes on has consumed a token, and what is left of it is the next pass. -/
theorem parse_size_le {tokens : List Token} {limit : Nat} {session : Session}
    {failure : Option Failure} (h : parse tokens limit = some (session, failure)) :
    session.tree.size ≤ 7 * session.state.cursor.consumed + 6 ∧
      ∀ depth n s ds s₁, programLanguage.GoesOn depth n s ds s₁ →
        s.cursor.consumed < s₁.cursor.consumed ∧
          ∀ passes, programLanguage.produce (programLanguage.call depth) (passes + 1) n s =
            (programLanguage.produce (programLanguage.call depth) passes n s₁).map
              fun d => Derivation.production n (ds ++ [d]) := by
  constructor
  · obtain ⟨ds, ts, fault, hrun, ⟨_, hconsumed⟩, htree, _⟩ := parse_eq_some h
    have hsize : (session.tree.size : Int) = nodeCount [.production .program ds] + 1 := by
      rw [Tree.size_congr htree, Tree.size_graft_empty, Rose.size]
      rfl
    rw [nodeCount_production, nodeCount_nil] at hsize
    have hnodes := hrun.nodeCount_le.2
    have hleeway : leeway programSymbols = 4 := by decide
    omega
  · intro depth n s ds s₁ hpass
    exact ⟨hpass.consumed_lt Language.programLanguage_progressive, hpass.produce_eq⟩

/-- The tokens of `write 1`. -/
def writeOne : List Token :=
  [⟨.kwWrite, "write", 1, 1⟩, ⟨.number, "1", 1, 7⟩]

/-- A program of one statement `write 1` is as large as that, and its list of statements goes on
after two tokens. -/
theorem parse_size_of_write :
    ∃ session, parse writeOne = some (session, none) ∧
      session.tree.size = 7 * session.state.cursor.consumed + 6 ∧
      session.tree.size ≤ 7 * session.state.cursor.consumed + 6 ∧
      ∃ ds s₁, programLanguage.GoesOn 9 .stmtList (.start writeOne) ds s₁ ∧
        0 < s₁.cursor.consumed := by
  have haccepted : (parse writeOne).map
      (fun p => (p.1.state.cursor.consumed, p.1.tree.size, p.2.isNone)) = some (2, 20, true) := by
    decide +kernel
  obtain ⟨⟨session, failure⟩, hparse, hanswer⟩ := Option.map_eq_some_iff.mp haccepted
  obtain ⟨hconsumed, hsize, hnone⟩ := by simpa only [Prod.mk.injEq] using hanswer
  obtain rfl := Option.isNone_iff_eq_none.mp hnone
  obtain ⟨hle, hpasses⟩ := parse_size_le hparse
  have hchoose : programLanguage.choose? .stmtList .kwWrite =
      some ([.nonterminal .stmt] ++ [.nonterminal .stmtList]) := by
    rw [programLanguage_eq_sets]
    decide +kernel
  have hfront : (match programLanguage.symbols (programLanguage.call 9)
      (programLanguage.call 9 .stmtList) .stmtList [.nonterminal .stmt] (.start writeOne) with
      | .done _ _ => true
      | _ => false) = true := by
    rw [programLanguage_eq_sets]
    decide +kernel
  split at hfront
  · next ds s₁ hdone =>
    have hpass : programLanguage.GoesOn 9 .stmtList (.start writeOne) ds s₁ := ⟨_, hchoose, hdone⟩
    exact ⟨session, hparse, by omega, hle, ds, s₁, hpass, (hpasses _ _ _ _ _ hpass).1⟩
  · cases hfront

end TopDown
