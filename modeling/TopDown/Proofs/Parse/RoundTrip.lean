import TopDown.Proofs.Derivation.Trees
import TopDown.Proofs.Lexicon.Words
import TopDown.Proofs.Parse.Acceptance
import TopDown.Proofs.Parse.Tree
import TopDown.Proofs.Tree.Levels

/-!
# Programs written out and parsed back

A derivation tree of a program is written as a text by its lexemes, in order and with blanks between
them. To scan this text gives the leaves of the tree back, and since the grammar is unambiguous, to
parse it gives the tree back.
-/

namespace TopDown

open TopDown.Derivation

/-! ## Leaves written out -/

/-- The lexeme has no blanks around it, and its kind is that of the leaf. -/
def Written (leaf : Kind × String) : Prop :=
  Text.trim leaf.2.toList = leaf.2.toList ∧ Kind.ofLexeme leaf.2 = leaf.1

instance : DecidablePred Written := fun _ => inferInstanceAs (Decidable (_ ∧ _))

theorem Written.whole {leaf : Kind × String} (h : Written leaf) (hend : leaf.1 ≠ .endOfInput)
    (hknown : leaf.1 ≠ .unrecognized) : Whole leaf.2.toList := by
  obtain ⟨htrim, hkind⟩ := h
  apply whole_of_ofLexeme htrim
  · rwa [String.ofList_toList, hkind]
  · rwa [String.ofList_toList, hkind]

/-- To scan leaves that are written out gives them back. -/
theorem map_leaf_scan {leaves : List (Kind × String)} {text : String}
    (hwritten : ∀ leaf ∈ leaves, Written leaf)
    (hknown : ∀ leaf ∈ leaves, leaf.1 ≠ .endOfInput ∧ leaf.1 ≠ .unrecognized)
    (htext : Text.Spaced (leaves.map fun leaf => leaf.2.toList) text.toList) :
    (Token.scan text).map Token.leaf = leaves := by
  have hwhole : ∀ word ∈ leaves.map fun leaf => leaf.2.toList, Whole word := by
    intro word hword
    obtain ⟨leaf, hleaf, rfl⟩ := List.mem_map.mp hword
    exact (hwritten leaf hleaf).whole (hknown leaf hleaf).1 (hknown leaf hleaf).2
  have hscan : (Token.scan text).map Token.leaf =
      (leaves.map fun leaf => leaf.2.toList).map classified :=
    map_scan_of_spaced hwhole htext
  have hclassified : ∀ leaf ∈ leaves, classified leaf.2.toList = leaf := by
    intro leaf hleaf
    rw [classified, String.ofList_toList, (hwritten leaf hleaf).2]
  rw [hscan, List.map_map]
  exact (List.map_congr_left hclassified).trans (List.map_id leaves)

/-! ## Names -/

/-- A leaf as a token that is made without a text. -/
def Token.ofLeaf (leaf : Kind × String) : Token :=
  ⟨leaf.1, leaf.2, 0, 0⟩

theorem Token.map_lexeme_declared (ts : List Token) :
    (declared ((ts.map leaf).map ofLeaf)).map lexeme = (declared ts).map lexeme := by
  have hkind (t : Token) : (ofLeaf t.leaf).kind = t.kind := rfl
  rw [List.map_map]
  exact (congrArg _ (declaredAfter_map hkind .endOfInput ts)).trans List.map_map

/-! ## Trees of programs -/

/-- No list of statements holds an unrecognized token. -/
theorem unrecognized_not_mem_of_yields {word : List Kind}
    (h : programGrammar.Yields [.nonterminal .stmtList] word) : .unrecognized ∉ word := by
  have hcheck : ∀ n ∈ Nonterminal.all, ∀ alt ∈ programGrammar.alternatives n,
      ∀ symbol ∈ alt, symbol ≠ .terminal .unrecognized := by
    decide +kernel
  apply Grammar.not_mem_of_yields (fun _ => True) ?_ h (by simp [Grammar.lacks])
  intro n _ alt halt symbol hsymbol
  cases symbol with
  | terminal kind => simpa [Grammar.lacks] using hcheck n n.mem_all alt halt _ hsymbol
  | nonterminal m => trivial

/-- The trees of a program are those of its statements with an end of input. -/
theorem of_trees_program {d : Derivation Nonterminal}
    (h : programGrammar.Trees [.nonterminal .program] [d]) :
    ∃ children, d = .production .program children ∧
      programGrammar.Trees programSymbols children := by
  obtain ⟨alt, halt, children, rest, hd, hbelow, hrest⟩ := h.of_nonterminal
  obtain ⟨rfl, rfl⟩ := List.cons.inj hd
  obtain rfl : alt = programSymbols := List.mem_singleton.mp halt
  exact ⟨children, rfl, (Grammar.below_iff_of_ne_nil (by decide)).mp hbelow⟩

/-- The kinds before the end of a program yield from the list of statements. -/
theorem yields_body {children : List (Derivation Nonterminal)} {body : List (Kind × String)}
    (h : programGrammar.Trees programSymbols children)
    (hleaves : leavesOf children = body ++ [endLeaf]) :
    programGrammar.Yields [.nonterminal .stmtList] (body.map Prod.fst) := by
  have hword : wordOf children = body.map Prod.fst ++ [.endOfInput] := by
    simp [wordOf, hleaves, endLeaf]
  obtain ⟨front, back, hsplit, hfront, hback⟩ :=
    Grammar.yields_append_iff.mp (show programGrammar.Yields
      ([.nonterminal .stmtList] ++ [.terminal .endOfInput]) (wordOf children) from h.yields)
  obtain ⟨_, rfl, hnil⟩ := Grammar.yields_terminal_iff.mp hback
  obtain rfl := Grammar.yields_nil_iff.mp hnil
  rw [hword, List.append_cancel_right_eq] at hsplit
  rwa [hsplit]

/-- A derivation tree of a program is found again in every text that has its lexemes in order with
blanks between them, if no name is declared twice and the program does not nest too deeply. -/
theorem parse_of_spaced {d : Derivation Nonterminal} {body : List (Kind × String)} {text : String}
    (htree : programGrammar.Trees [.nonterminal startSymbol] [d])
    (hleaves : d.leaves = body ++ [endLeaf]) (hwritten : ∀ leaf ∈ body, Written leaf)
    (hnames : ((Token.declared (body.map Token.ofLeaf)).map Token.lexeme).Nodup)
    (htext : Text.Spaced (body.map fun leaf => leaf.2.toList) text.toList) {depth : Nat}
    (hdepth : parse (Token.scan text) depth ≠ none) :
    ∃ session, parse (Token.scan text) depth = some (session, none) ∧
      session.tree.shape 0 = (Rose.node Node.root [d.toRose Nonterminal.name]).shape := by
  obtain ⟨children, rfl, htrees⟩ := of_trees_program htree
  rw [leaves] at hleaves
  have hyields := yields_body htrees hleaves
  have hkinds : ∀ leaf ∈ body, leaf.1 ≠ .endOfInput ∧ leaf.1 ≠ .unrecognized := by
    intro leaf hleaf
    have hmem : leaf.1 ∈ body.map Prod.fst := List.mem_map_of_mem hleaf
    exact ⟨fun hend => endOfInput_not_mem_of_yields hyields (hend ▸ hmem),
      fun hunknown => unrecognized_not_mem_of_yields hyields (hunknown ▸ hmem)⟩
  -- The tokens of the text are the leaves of the tree.
  obtain rfl := map_leaf_scan hwritten hkinds htext
  have hend : .endOfInput ∉ (Token.scan text).map Token.kind := by
    intro hmem
    obtain ⟨t, ht, hkind⟩ := List.mem_map.mp hmem
    exact Token.kind_ne_endOfInput_of_mem_scan ht hkind
  have hbody : Token.body (Token.scan text) = Token.scan text := Token.body_of_not_mem hend
  rw [Token.map_lexeme_declared] at hnames
  obtain ⟨⟨session, failure⟩, hparse⟩ := Option.ne_none_iff_exists'.mp hdepth
  obtain ⟨ds, ts, fault, hrun, _, hattachments, rfl⟩ := parse_eq_some hparse
  obtain rfl : fault = none := by
    apply hrun.done_of_body
    · rw [hbody]
      simpa [Token.leaf, Function.comp_def] using hyields
    · rwa [hbody]
  -- The parse derives a tree with the same leaves, and there is only one.
  have hfound : leavesOf ds = (Token.scan text).map Token.leaf ++ [endLeaf] := by
    have hall : ∀ t ∈ Token.scan text, t.kind ≠ .endOfInput := fun t ht =>
      Token.kind_ne_endOfInput_of_mem_scan ht
    have hnone : (Token.scan text).find? (·.kind = .endOfInput) = none := by
      simpa using hall
    have hts := hrun.body_of_done.2
    rw [hbody, hnone, Option.toList_none, List.append_nil] at hts
    rw [hrun.leaves_program, hts, if_pos ⟨rfl, hall⟩]
  obtain rfl : ds = children :=
    programLanguage_predictive.trees_unique (hrun.trees rfl) htrees ends_programSymbols
      (fun k _ => follows_programSymbols k) (fun k _ => follows_programSymbols k)
      (List.cons_ne_nil endLeaf []) (by rw [hfound, hleaves])
  refine ⟨session, hparse, ?_⟩
  rw [Tree.shape_eq, Tree.view_congr hattachments, Tree.view_graft_empty]

/-- The tree of one declaration. -/
def declarationTree : Derivation Nonterminal :=
  .production .program
    [.production .stmtList
      [.production .stmt
        [.production .varDecl [.terminal .kwVar "var", .terminal .identifier "x"]],
        .production .stmtList [.empty]],
      .terminal .endOfInput "end-of-input"]

theorem trees_declarationTree :
    programGrammar.Trees [.nonterminal startSymbol] [declarationTree] :=
  .production (by decide) (by decide)
    (.production (by decide) (by decide)
      (.production (by decide) (by decide)
        (.production (by decide) (by decide) (.terminal _ (.terminal _ .nil)) .nil)
        (.empty (by decide) .nil))
      (.terminal _ .nil))
    .nil

/-- A declaration that is spread over two lines has the tree of the declaration. -/
theorem parse_of_spaced_declaration :
    programGrammar.Trees [.nonterminal startSymbol] [declarationTree] ∧
      Text.Spaced [['v', 'a', 'r'], ['x']] "var\r\n  x ".toList ∧
      ∃ session, parse (Token.scan "var\r\n  x ") = some (session, none) ∧
        session.tree.shape 0 =
          [(0, "Parse Tree"), (1, "<PROGRAM>"), (2, "<STMT_LIST>"), (3, "<STMT>"),
            (4, "<VAR_DECL>"), (5, "<var>"), (6, "var"), (5, "<identifier>"), (6, "x"),
            (3, "<STMT_LIST>"), (4, "EMPTY"), (2, "<end-of-input>"), (3, "end-of-input")] := by
  have hwritten : ∀ leaf ∈ [(Kind.kwVar, "var"), (Kind.identifier, "x")], Written leaf := by
    decide +kernel
  have htext : Text.Spaced [['v', 'a', 'r'], ['x']] "var\r\n  x ".toList :=
    .word (by decide) (.blank (by decide) (.blank (by decide) (.blank (by decide)
      (.word (by decide) .nil))))
  have hanswers : parse (Token.scan "var\r\n  x ") ≠ none := by
    decide +kernel
  obtain ⟨session, hparse, hshape⟩ :=
    parse_of_spaced trees_declarationTree rfl hwritten (by decide +kernel) htext hanswers
  refine ⟨trees_declarationTree, htext, session, hparse, hshape.trans ?_⟩
  decide +kernel

end TopDown
