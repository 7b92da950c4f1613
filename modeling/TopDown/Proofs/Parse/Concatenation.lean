import Mathlib.Data.List.Nodup
import TopDown.Proofs.Derivation.Complete
import TopDown.Proofs.Derivation.Statements
import TopDown.Proofs.Lexicon.Joined
import TopDown.Proofs.Lexicon.Scan
import TopDown.Proofs.Parse.Acceptance
import TopDown.Proofs.Parse.Limit
import TopDown.Proofs.Parse.Tree

/-!
# Programs in a row

Two accepted programs that share no name make up an accepted program when one is written below the
other. Its statements are those of the first and then those of the second, and since statements in a
row nest no deeper than each of them, it is within the depth limit.
-/

namespace TopDown

open TopDown.Derivation

/-! ## Statements of a tree -/

namespace Rose

/-- The nodes between the root and the statements of a program. -/
def spine : List Node :=
  [Node.root, Node.nonterminal Nonterminal.program.name, Node.nonterminal Nonterminal.stmtList.name]

mutual
/-- The statements of a program, without those that are part of another statement. -/
def statements : Rose Node → List (Rose Node)
  | .node a forest =>
    if a = Node.nonterminal Nonterminal.stmt.name then [.node a forest]
    else if a ∈ spine then statementsOf forest
    else []
def statementsOf : Forest Node → List (Rose Node)
  | [] => []
  | tree :: forest => tree.statements ++ statementsOf forest
end

theorem statements_stmt (forest : Forest Node) :
    (Rose.node (Node.nonterminal Nonterminal.stmt.name) forest).statements =
      [.node (Node.nonterminal Nonterminal.stmt.name) forest] := by
  rw [statements, if_pos rfl]

theorem statements_of_spine {a : Node} (hmem : a ∈ spine)
    (hne : a ≠ Node.nonterminal Nonterminal.stmt.name) (forest : Forest Node) :
    (Rose.node a forest).statements = statementsOf forest := by
  rw [statements, if_neg hne, if_pos hmem]

end Rose

/-- The derivation of a program with the given statements. -/
def programOf (stmts : List (Derivation Nonterminal)) : List (Derivation Nonterminal) :=
  [chain stmts, .terminal .endOfInput Kind.endOfInput.name]

/-- The derivations are derivation trees of statements. -/
def Statements (stmts : List (Derivation Nonterminal)) : Prop :=
  ∀ stmt ∈ stmts, programGrammar.Trees [.nonterminal .stmt] [stmt]

theorem statements_chain {stmts : List (Derivation Nonterminal)} (h : Statements stmts) :
    ((chain stmts).toRose Nonterminal.name).statements = shown stmts := by
  have hlink := @Rose.statements_of_spine (Node.nonterminal Nonterminal.stmtList.name) (by decide)
    (by decide)
  induction stmts with
  | nil =>
    have hleaf : (Rose.node Node.empty []).statements = [] := by
      rw [Rose.statements, if_neg (by decide), if_neg (by decide)]
    rw [chain, toRose, hlink]
    simp only [forest, toRose, Rose.statementsOf, hleaf, List.append_nil]
  | cons stmt stmts ih =>
    obtain ⟨hstmt, hrest⟩ := List.forall_mem_cons.mp h
    obtain ⟨_, _, children, _, hd, _⟩ := hstmt.of_nonterminal
    obtain ⟨rfl, _⟩ := List.cons.inj hd
    rw [chain, toRose, hlink]
    simp only [forest, Rose.statementsOf, ih hrest, List.append_nil]
    rw [toRose, Rose.statements_stmt]
    rfl

/-- A program shows its statements. -/
theorem statements_programOf {stmts : List (Derivation Nonterminal)} (h : Statements stmts) :
    (Rose.node Node.root [(Derivation.production .program (programOf stmts)).toRose
      Nonterminal.name]).statements = shown stmts := by
  have hend : ((Derivation.terminal .endOfInput Kind.endOfInput.name).toRose
      Nonterminal.name).statements = [] := by
    rw [toRose, Rose.statements, if_neg (by decide), if_neg (by decide)]
  rw [Rose.statements_of_spine (by decide) (by decide), Rose.statementsOf, Rose.statementsOf,
    toRose, Rose.statements_of_spine (by decide) (by decide)]
  simp only [programOf, forest, Rose.statementsOf, statements_chain h, hend, List.append_nil]

/-! ## Accepted tokens -/

/-- The tree of a program with the given statements. -/
def Tree.ofStatements (stmts : List (Derivation Nonterminal)) : Tree :=
  Tree.graft {} 0 ((Derivation.production .program (programOf stmts)).toRose Nonterminal.name)

theorem Tree.statements_ofStatements {stmts : List (Derivation Nonterminal)}
    (h : Statements stmts) : ((ofStatements stmts).view 0).statements = shown stmts := by
  rw [ofStatements, view_graft_empty, statements_programOf h]

theorem Tree.size_ofStatements (stmts : List (Derivation Nonterminal)) :
    (ofStatements stmts).size = Rose.sizeOfForest (shown stmts) + stmts.length + 6 := by
  rw [ofStatements, size_graft_empty, programOf, toRose]
  simp only [forest, Rose.size, Rose.sizeOfForest, size_chain, toRose]

/-- The tokens are those of the statements, which nest within the given depth. -/
structure Lists (depth : Nat) (tokens : List Token) (stmts : List (Derivation Nonterminal)) :
    Prop where
  statements : Statements stmts
  leaves : leavesOf stmts = tokens.map Token.leaf
  levels : levelsBelow .stmtList stmts + 1 < depth

theorem levelsBelow_programOf (stmts : List (Derivation Nonterminal)) :
    levelsBelow .program (programOf stmts) = levelsBelow .stmtList stmts + 1 := by
  rw [programOf, levelsBelow, levelsBelow, levelsBelow_nil, levelsIn_chain_of_ne (by decide),
    levelsIn]
  simp

theorem leavesOf_programOf (stmts : List (Derivation Nonterminal)) :
    leavesOf (programOf stmts) = leavesOf stmts ++ [endLeaf] := by
  rw [programOf, leavesOf, leavesOf, leavesOf, leaves_chain]
  rfl

/-- The trees of a program are a list of statements and an end. -/
theorem of_trees_programSymbols {ds : List (Derivation Nonterminal)}
    (h : programGrammar.Trees programSymbols ds) :
    ∃ stmts lexeme, ds = [chain stmts, .terminal .endOfInput lexeme] ∧ Statements stmts := by
  obtain ⟨list, last, rfl⟩ := List.length_eq_two.mp h.length_eq
  obtain ⟨hlist, hlast⟩ := Grammar.trees_cons_iff.mp h
  obtain ⟨stmts, rfl, hstmts⟩ := Grammar.trees_stmtList_iff.mp hlist
  cases hlast with
  | terminal lexeme _ => exact ⟨stmts, lexeme, rfl, hstmts⟩

/-- What is accepted is the program of some statements. -/
theorem lists_of_parse {tokens : List Token} (hend : .endOfInput ∉ tokens.map Token.kind)
    {depth : Nat} {session : Session} (h : parse tokens depth = some (session, none)) :
    ∃ stmts, Lists depth tokens stmts ∧ session.tree = Tree.ofStatements stmts ∧
      session.state.scope.tokens = Token.declared tokens ∧
      Token.lastKind .endOfInput tokens ≠ .kwVar := by
  obtain ⟨ds, ts, state, fault, hrun, hlevels, hanswer⟩ := parse_eq_some_iff.mp h
  obtain rfl : session = (Session.leave ds state fault).1 := congrArg Prod.fst hanswer
  obtain rfl : fault = none := Option.map_eq_none_iff.mp (congrArg Prod.snd hanswer).symm
  have hnone : ∀ t ∈ tokens, t.kind ≠ .endOfInput := fun t ht hkind =>
    hend (List.mem_map.mpr ⟨t, ht, hkind⟩)
  obtain rfl : ts = tokens := by
    have hfind : tokens.find? (·.kind = .endOfInput) = none := by simpa using hnone
    rw [hrun.body_of_done.2, Token.body_of_not_mem hend, hfind, Option.toList_none, List.append_nil]
  obtain ⟨stmts, lexeme, rfl, hstmts⟩ := of_trees_programSymbols (hrun.trees rfl)
  have hleaves := hrun.leaves_program
  rw [if_pos ⟨rfl, hnone⟩, leavesOf, leavesOf, leavesOf, leaves_chain] at hleaves
  obtain ⟨hlisted, hlast⟩ := List.append_inj' hleaves rfl
  obtain rfl : lexeme = Kind.endOfInput.name :=
    (Prod.mk.inj (List.singleton_inj.mp hlast)).2
  have hdeclares := hrun.declares ends_programSymbols nameDue_start
  refine ⟨stmts, ⟨hstmts, hlisted, ?_⟩, Session.tree_leave_none _ _,
    hrun.scope_eq_declared (by simp), hdeclares.2 rfl⟩
  rw [← levelsBelow_programOf]
  exact hlevels

theorem Statements.trees {stmts : List (Derivation Nonterminal)} (h : Statements stmts) :
    programGrammar.Trees programSymbols (programOf stmts) :=
  Grammar.trees_cons_iff.mpr ⟨Grammar.trees_stmtList_iff.mpr ⟨stmts, rfl, h⟩, .terminal _ .nil⟩

/-- Distinct names are enough for a run over the tokens of statements to find these. -/
theorem runs_of_statements {tokens : List Token} {stmts : List (Derivation Nonterminal)}
    (h : Statements stmts) (hleaves : leavesOf stmts = tokens.map Token.leaf)
    (hnames : ((Token.declared tokens).map Token.lexeme).Nodup) :
    ∃ ts s', programLanguage.Runs .program programSymbols (State.start tokens) (programOf stmts)
      ts s' none := by
  have hsees : (State.start tokens).Sees (leavesOf (programOf stmts) ++ [endLeaf]) := by
    refine ⟨2, ?_⟩
    rw [leavesOf_programOf, hleaves, List.append_assoc]
    rfl
  rcases programLanguage_predictive.finds_trees h.trees ends_programSymbols
    (fun k _ => follows_programSymbols k) (List.cons_ne_nil _ _) hsees with
    hfound | ⟨es, ts, s', r, hrun⟩
  · exact hfound
  · have htokens : tokens = ts ++ s'.cursor.rest := hrun.consumes.1
    rw [htokens, Token.declared_append, List.map_append, List.nodup_append] at hnames
    exact absurd ⟨r, rfl⟩ (hrun.nodup_declared_iff.mp hnames.1)

/-- Distinct names and statements within the depth limit are enough to be accepted. -/
theorem parse_of_lists {depth : Nat} {tokens : List Token} {stmts : List (Derivation Nonterminal)}
    (h : Lists depth tokens stmts) (hnames : ((Token.declared tokens).map Token.lexeme).Nodup) :
    ∃ session, parse tokens depth = some (session, none) ∧
      session.tree = Tree.ofStatements stmts := by
  obtain ⟨ts, s', hrun⟩ := runs_of_statements h.statements h.leaves hnames
  have hlevels : levelsBelow .program (programOf stmts) < depth := by
    rw [levelsBelow_programOf]
    exact h.levels
  exact ⟨_, parse_eq_some_iff.mpr ⟨_, ts, s', none, hrun, hlevels, rfl⟩,
    Session.tree_leave_none _ _⟩

/-! ## Programs in a row -/

theorem Lists.append {depth : Nat} {ts us : List Token} {ss rs : List (Derivation Nonterminal)}
    (h : Lists depth ts ss) (h' : Lists depth us rs) : Lists depth (ts ++ us) (ss ++ rs) where
  statements := List.forall_mem_append.mpr ⟨h.statements, h'.statements⟩
  leaves := by rw [leavesOf_append, h.leaves, h'.leaves, List.map_append]
  levels := by
    have hfirst := h.levels
    have hsecond := h'.levels
    rw [levelsBelow_append]
    omega

/-- The places of the tokens do not matter. -/
theorem Lists.raise {depth : Nat} {ts : List Token} {ss : List (Derivation Nonterminal)}
    (h : Lists depth ts ss) (count : Nat) : Lists depth (ts.map (Token.raise count)) ss where
  statements := h.statements
  leaves := by
    rw [h.leaves, List.map_map]
    rfl
  levels := h.levels

/-- Of two accepted programs that share no name, one written below the other is accepted. Its
statements are those of the one and then those of the other, and what a program has besides its
statements is there only once. -/
theorem parse_concatenates {a b : String} {depth : Nat} {sa sb : Session}
    (ha : parse (Token.scan a) depth = some (sa, none))
    (hb : parse (Token.scan b) depth = some (sb, none))
    (hnames : List.Disjoint sa.state.scope.names sb.state.scope.names) :
    ∃ s, parse (Token.scan (a ++ "\n" ++ b)) depth = some (s, none) ∧
      (s.tree.view 0).statements = (sa.tree.view 0).statements ++ (sb.tree.view 0).statements ∧
      s.tree.size + 6 = sa.tree.size + sb.tree.size := by
  obtain ⟨ss, hss, hatree, hascope, halast⟩ := lists_of_parse (Token.endOfInput_not_mem_scan a) ha
  obtain ⟨rs, hrs, hbtree, hbscope, _⟩ := lists_of_parse (Token.endOfInput_not_mem_scan b) hb
  have hlists := hss.append (hrs.raise (Text.lines (a ++ "\n").toList).length)
  rw [← Token.scan_append_newline] at hlists
  have hraised (count : Nat) : Token.declared ((Token.scan b).map (Token.raise count)) =
      sb.state.scope.tokens.map (Token.raise count) := by
    have hkind (t : Token) : (t.raise count).kind = t.kind := rfl
    rw [hbscope]
    exact Token.declaredAfter_map hkind .endOfInput (Token.scan b)
  have hdistinct : ((Token.declared (Token.scan (a ++ "\n" ++ b))).map Token.lexeme).Nodup := by
    rw [Token.scan_append_newline, Token.declared_append_of_lastKind _ halast, ← hascope, hraised,
      List.map_append, List.map_map]
    exact List.nodup_append'.mpr ⟨sa.state.scope.distinct, sb.state.scope.distinct, hnames⟩
  obtain ⟨s, hs, hstree⟩ := parse_of_lists hlists hdistinct
  refine ⟨s, hs, ?_, ?_⟩
  · rw [hstree, hatree, hbtree, Tree.statements_ofStatements hlists.statements,
      Tree.statements_ofStatements hss.statements, Tree.statements_ofStatements hrs.statements,
      shown_append]
  · rw [hstree, hatree, hbtree, Tree.size_ofStatements, Tree.size_ofStatements,
      Tree.size_ofStatements, shown_append, Rose.sizeOfForest_append, List.length_append]
    omega

/-- A program that ends in a comment can have another one below it. -/
theorem parse_concatenates_declarations :
    ∃ s, parse (Token.scan ("var x\n# y" ++ "\n" ++ "var y")) = some (s, none) ∧
      s.tree.size = 20 := by
  have hfirst : (parse (Token.scan "var x\n# y")).map
      (fun p => (p.2.isNone, p.1.state.scope.names, p.1.tree.size)) = some (true, ["x"], 13) := by
    decide +kernel
  have hsecond : (parse (Token.scan "var y")).map
      (fun p => (p.2.isNone, p.1.state.scope.names, p.1.tree.size)) = some (true, ["y"], 13) := by
    decide +kernel
  obtain ⟨⟨sa, fa⟩, ha, hanswer⟩ := Option.map_eq_some_iff.mp hfirst
  obtain ⟨⟨sb, fb⟩, hb, hanswer'⟩ := Option.map_eq_some_iff.mp hsecond
  simp only [Prod.mk.injEq, Option.isNone_iff_eq_none] at hanswer hanswer'
  obtain ⟨rfl, hnames, hsize⟩ := hanswer
  obtain ⟨rfl, hnames', hsize'⟩ := hanswer'
  have hdisjoint : List.Disjoint sa.state.scope.names sb.state.scope.names := by
    rw [hnames, hnames']
    simp
  obtain ⟨s, hs, _, hnodes⟩ := parse_concatenates ha hb hdisjoint
  exact ⟨s, hs, by omega⟩

end TopDown
