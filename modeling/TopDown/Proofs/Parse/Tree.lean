import TopDown.Proofs.Parse.Program
import TopDown.Proofs.Tree.Graft
import TopDown.Proofs.Tree.Spelling
import TopDown.Proofs.Tree.Terminals

/-!
# Trees of programs

The tree of a parse is the derivation that the parse found, whole or cut short at an error. All that
it says of the tokens is said once: its terminals are the consumed tokens in order, and an end of
input if the parse met it with the tokens exhausted.
-/

namespace TopDown

open TopDown.Derivation

/-- The terminal that shows a token: its lexeme below the wrapper of its kind. -/
def Token.terminal (t : Token) : Node × String :=
  (Node.wrapper t.kind, t.lexeme)

theorem map_wrapLeaf_leaf (ts : List Token) :
    (ts.map Token.leaf).map wrapLeaf = ts.map Token.terminal := by
  simp [Token.leaf, wrapLeaf, Token.terminal]

/-- The leaves of a run of the start symbol: those of the tokens it consumes, and one for the end
of input if it is done with no token that says so. -/
theorem Language.Runs.leaves_program {tokens ts : List Token} {s' : State}
    {ds : List (Derivation Nonterminal)} {fault : Option Fault}
    (h : programLanguage.Runs .program programSymbols (State.start tokens) ds ts s' fault) :
    leavesOf ds = ts.map Token.leaf ++
      if fault = none ∧ ∀ t ∈ tokens, t.kind ≠ .endOfInput then [endLeaf] else [] := by
  have htokens : tokens = ts ++ s'.cursor.rest := h.consumes.1
  cases fault with
  | none =>
    obtain ⟨body, hyields, hcases⟩ := h.of_done
    have hend := endOfInput_not_mem_of_yields hyields
    rcases hcases with ⟨rfl, hrest, hleaves⟩ | ⟨t, ht, rfl, hleaves⟩
    · have hall : ∀ t ∈ tokens, t.kind ≠ .endOfInput := by
        rw [hrest, List.append_nil] at htokens
        intro t hmem hkind
        exact hend (List.mem_map.mpr ⟨t, htokens ▸ hmem, hkind⟩)
      rw [hleaves, if_pos ⟨rfl, hall⟩]
    · have hsome : ¬ ∀ t ∈ tokens, t.kind ≠ .endOfInput := by
        intro hall
        exact hall t (by simp [htokens]) ht
      rw [hleaves, if_neg (fun hboth => hsome hboth.2), List.append_nil]
  | some f =>
    rw [h.of_failed.1, if_neg (by simp), List.append_nil]

/-- Below the root there is one program. Each production node in it spells an alternative of the
grammar, or a prefix of one if the error is below it. The error is there exactly if the parse
failed. The terminals are the consumed tokens, and an end of input if the parse was accepted without
a token for it. -/
theorem parse_tree_is_derivation {tokens : List Token} {depth : Nat} {session : Session}
    {failure : Option Failure} (h : parse tokens depth = some (session, failure)) :
    (∃ forest, session.tree.view 0 =
        .node Node.root [.node (Node.nonterminal Nonterminal.program.name) forest]) ∧
      (session.tree.view 0).preorder = session.tree.nodes ∧
      (∀ tree ∈ (session.tree.view 0).subtrees, SpellsAlternative tree) ∧
      session.tree.nodes.filter (·.role = .error) =
        (failure.map fun f => Node.error f.message).toList ∧
      (session.tree.view 0).terminals Node.root =
        (tokens.take session.state.cursor.consumed).map Token.terminal ++
          if failure = none ∧ ∀ t ∈ tokens, t.kind ≠ .endOfInput then
            [(Node.wrapper .endOfInput, "end-of-input")]
          else [] := by
  obtain ⟨ds, ts, fault, hrun, ⟨htokens, hconsumed⟩, htree, rfl⟩ := parse_eq_some h
  have htake : tokens.take session.state.cursor.consumed = ts := by simp [htokens, hconsumed]
  have hview : session.tree.view 0 = .node Node.root
      [(Derivation.production .program ds).toRose Nonterminal.name] := by
    rw [Tree.view_congr htree, Tree.view_graft_empty]
  have hnodes : session.tree.nodes =
      Node.root :: Node.nonterminal Nonterminal.program.name :: Rose.forestOnto [] (shown ds) := by
    rw [Tree.nodes_congr htree, Tree.nodes_graft]
    rfl
  refine ⟨⟨shown ds, hview⟩, ?_, ?_, ?_, ?_⟩
  · rw [hview, hnodes]
    rfl
  · have hprogram := hrun.spellsAlternative programSymbols_mem (by simp [programSymbols])
    have hspells : AllSpell [.production .program ds] :=
      allSpell_production.mpr ⟨hprogram, hrun.allSpell, allSpell_nil⟩
    rw [hview]
    intro tree htree
    rcases List.mem_cons.mp htree with rfl | hbelow
    · exact spellsAlternative_of_value fun n => by simp [Rose.value, Node.root, Node.nonterminal]
    · exact hspells tree hbelow
  · rw [hnodes]
    have herrors := hrun.errors_eq
    rw [errors] at herrors
    simp [Node.root, Node.nonterminal, herrors, Fault.toFailure, Function.comp_def]
  · have hterminals := terminalsOf_forest Nonterminal.name Node.root [.production .program ds]
    rw [leavesOf, leavesOf, List.append_nil, Derivation.leaves, hrun.leaves_program,
      List.map_append, map_wrapLeaf_leaf] at hterminals
    rw [hview, htake]
    simp only [Option.map_eq_none_iff]
    refine hterminals.trans (congrArg _ ?_)
    split <;> rfl

/-- The tree of a declaration without a name still shows its `var`. -/
theorem parse_tree_of_cut_declaration :
    ∃ session f, parse [⟨.kwVar, "var", 1, 1⟩, ⟨.number, "2", 1, 5⟩] = some (session, some f) ∧
      (∀ tree ∈ (session.tree.view 0).subtrees, SpellsAlternative tree) ∧
      (session.tree.view 0).terminals Node.root = [(Node.wrapper .kwVar, "var")] := by
  have hfails : (parse [⟨.kwVar, "var", 1, 1⟩, ⟨.number, "2", 1, 5⟩]).map
      (fun p => (p.1.state.cursor.consumed, p.2.isSome)) = some (1, true) := by
    decide +kernel
  obtain ⟨⟨session, failure⟩, hparse, hanswer⟩ := Option.map_eq_some_iff.mp hfails
  obtain ⟨hconsumed, hfailure⟩ := Prod.mk.inj hanswer
  obtain ⟨f, rfl⟩ := Option.isSome_iff_exists.mp hfailure
  obtain ⟨_, _, hspells, _, hterminals⟩ := parse_tree_is_derivation hparse
  refine ⟨session, f, hparse, hspells, ?_⟩
  rw [hterminals, hconsumed]
  simp [Token.terminal]

end TopDown
