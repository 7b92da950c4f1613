import TopDown.Proofs.Derivation.Nesting
import TopDown.Proofs.Parse.Concatenation

/-!
# Programs that nest within the depth limit

Only what nests costs levels. A program is parsed however many statements and operators it has, if
no path of its derivation is charged more than half the depth limit.
-/

namespace TopDown

open TopDown.Derivation

/-- The tokens are a list of statements, and this is their derivation tree. -/
structure StatementTree (tokens : List Token) (d : Derivation Nonterminal) : Prop where
  tree : programGrammar.Trees [.nonterminal .stmtList] [d]
  leaves : d.leaves = tokens.map Token.leaf

namespace StatementTree

variable {tokens : List Token} {d e : Derivation Nonterminal}

theorem exists_of_generates (h : programGrammar.Generates .stmtList (tokens.map Token.kind)) :
    ∃ d, StatementTree tokens d := by
  have hkinds : (tokens.map Token.leaf).map Prod.fst = tokens.map Token.kind := by
    rw [List.map_map]
    rfl
  obtain ⟨ds, htrees, hleaves⟩ := (Grammar.generates_iff_yields.mp h).exists_trees hkinds
  obtain ⟨d, rfl⟩ := List.length_eq_one_iff.mp htrees.length_eq
  refine ⟨d, htrees, ?_⟩
  simpa [leavesOf] using hleaves

/-- It is the chain of some statements with these tokens. -/
theorem exists_statements (h : StatementTree tokens d) :
    ∃ stmts, d = chain stmts ∧ Statements stmts ∧ leavesOf stmts = tokens.map Token.leaf := by
  obtain ⟨stmts, rfl, hstmts⟩ := Grammar.trees_stmtList_iff.mp h.tree
  exact ⟨stmts, rfl, hstmts, (leaves_chain stmts).symm.trans h.leaves⟩

/-- Tokens have one derivation tree. -/
theorem unique (h : StatementTree tokens d) (h' : StatementTree tokens e) : e = d := by
  obtain ⟨stmts, rfl, hstmts, hleaves⟩ := h.exists_statements
  obtain ⟨stmts', rfl, hstmts', hleaves'⟩ := h'.exists_statements
  have hsame := programLanguage_predictive.trees_unique hstmts'.trees hstmts.trees
    ends_programSymbols (fun k _ => follows_programSymbols k) (fun k _ => follows_programSymbols k)
    (List.cons_ne_nil endLeaf [])
    (by rw [leavesOf_programOf, leavesOf_programOf, hleaves, hleaves'])
  exact (List.cons.inj hsame).1

end StatementTree

/-- Nothing is charged for the way into a program. -/
theorem withinBudget_programOf {stmts : List (Derivation Nonterminal)} {budget : Nat}
    (h : ∀ path ∈ (chain stmts).paths, Nonterminal.pathCharge path ≤ budget) :
    WithinBudget .program budget (programOf stmts) := by
  have hfree (path : List Nonterminal) :
      Nonterminal.pathCharge (.program :: path) = Nonterminal.pathCharge path := by
    cases path <;> simp [Nonterminal.pathCharge, Nonterminal.charge]
  intro path hpath
  rw [hfree]
  apply h
  simpa [programOf, pathsOf, paths] using hpath

/-- Statements that are charged 500 at most take fewer than 844 levels. -/
theorem Statements.levelsBelow_lt {stmts : List (Derivation Nonterminal)} (h : Statements stmts)
    (hcharge : ∀ path ∈ (chain stmts).paths, Nonterminal.pathCharge path ≤ 500) :
    levelsBelow .program (programOf stmts) < 844 := by
  have hlevels := h.trees.levelsBelow_le ⟨_, programSymbols_mem, List.Subset.refl _⟩
    (withinBudget_programOf hcharge)
  have hreserve : Nonterminal.reserve .program = 30 := rfl
  omega

/-- Tokens that are generated from the list of statements have one derivation tree. If no path of it
is charged more than 500 and no name is declared twice, then they are parsed wherever 844 levels may
be nested. -/
theorem parse_of_charge {tokens : List Token}
    (hgenerates : programGrammar.Generates .stmtList (tokens.map Token.kind))
    (hnames : ((Token.declared tokens).map Token.lexeme).Nodup) :
    ∃ d, StatementTree tokens d ∧ (∀ e, StatementTree tokens e → e = d) ∧
      ((∀ path ∈ d.paths, Nonterminal.pathCharge path ≤ 500) →
        (∀ depth, 844 ≤ depth → ∃ session, parse tokens depth = some (session, none)) ∧
        ∃ e s', programLanguage.call 844 startSymbol (State.start tokens) = .done e s') := by
  obtain ⟨d, hd⟩ := StatementTree.exists_of_generates hgenerates
  refine ⟨d, hd, fun e => hd.unique, fun hcharge => ?_⟩
  obtain ⟨stmts, rfl, hstmts, hleaves⟩ := hd.exists_statements
  obtain ⟨ts, s', hrun⟩ := runs_of_statements hstmts hleaves hnames
  have hlevels := hstmts.levelsBelow_lt hcharge
  have hprogram : programLanguage.Runs .program [.nonterminal .program] (State.start tokens)
      [.production .program (programOf stmts)] ts s' none := hrun.program
  have hcall {depth : Nat} (hdepth : 844 ≤ depth) :
      programLanguage.call depth startSymbol (State.start tokens) =
        .settled (.production .program (programOf stmts)) s' none :=
    (Language.call_eq_settled_iff Language.programLanguage_progressive
      Language.programLanguage_endsRecursive).mpr
      ⟨_, ts, rfl, Nat.lt_of_lt_of_le hlevels hdepth, hprogram⟩
  exact ⟨fun _ hdepth => ⟨_, parse_of_call (hcall hdepth)⟩, _, s', hcall (Nat.le_refl _)⟩

/-- A loop whose body calls a subroutine with a second argument in parentheses. -/
def loopTokens : List Token :=
  Token.scan "until (a) < 1 f(b, (2)) repeat"

/-- The loop is charged for its body, the second argument and the parentheses in it, and parsed. -/
theorem parse_of_charge_loop :
    ∃ d, StatementTree loopTokens d ∧ (d.paths.map Nonterminal.pathCharge).max? = some 8 ∧
      ∃ session, parse loopTokens = some (session, none) := by
  have hcall : (match programLanguage.call 20 .stmtList (.start loopTokens) with
      | .done d s' => decide ((d.paths.map Nonterminal.pathCharge).max? = some 8 ∧
        (∀ path ∈ d.paths, Nonterminal.pathCharge path ≤ 500) ∧ s'.cursor.rest = [])
      | _ => false) = true := by
    rw [programLanguage_eq_sets]
    decide +kernel
  split at hcall
  · next d s' hdone =>
    obtain ⟨hmax, hcharge, hrest⟩ := of_decide_eq_true hcall
    have hsettled : programLanguage.call 20 .stmtList (.start loopTokens) = .settled d s' none :=
      hdone
    have hcalls : ∀ n, programLanguage.RunsAs n (programLanguage.call 20 n) :=
      Language.runs_of_call 20
    obtain ⟨ts, hrun⟩ := hcalls .stmtList .program (.start loopTokens) d s' none hsettled
    obtain ⟨hleaves, back, hyields, hback⟩ := hrun.of_statements
    have hts : loopTokens = ts := by
      rw [← List.append_nil ts, ← hrest]
      exact hrun.consumes.1
    obtain rfl := hback rfl
    rw [List.append_nil, ← hts] at hyields
    have hd : StatementTree loopTokens d := by
      refine ⟨hrun.trees rfl, ?_⟩
      rw [hts, ← hleaves, leavesOf, leavesOf, List.append_nil]
    obtain ⟨e, _, hunique, hparse⟩ :=
      parse_of_charge (Grammar.generates_iff_yields.mpr hyields) (by decide +kernel)
    obtain rfl := hunique d hd
    exact ⟨d, hd, hmax, (hparse hcharge).1 depthLimit (by decide)⟩
  · cases hcall

end TopDown
