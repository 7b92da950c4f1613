import TopDown.Proofs.Derivation.Call
import TopDown.Proofs.Derivation.Declarations
import TopDown.Proofs.Parse.Routines

/-!
# Runs of a program

A call of a session is a run, and its tree shows what the run derived. A run of the start symbol
works through a list of statements and an end of input. If it is done then the tokens before the end
yield from the list. If it fails then those that it consumed begin a word of the list, and together
with the kind that it stopped at they begin none, unless a second declaration stopped it.
-/

namespace TopDown

open TopDown.Derivation

namespace Session

/-- A call that does not nest too deeply is a run from the state of the session, and grafts what the
run derived. -/
theorem call_eq_some {s s' : Session} {n : Nonterminal} {parent depth : Nat}
    {failure : Option Failure} (h : s.call n parent depth = some (s', failure)) :
    ∃ d ts fault, programLanguage.Runs n [.nonterminal n] s.state [d] ts s'.state fault ∧
      s'.tree.attachments = (s.tree.graft parent (d.toRose Nonterminal.name)).attachments ∧
      failure = fault.map fun f => f.toFailure s'.tree.lastParent := by
  have hruns {d : Derivation Nonterminal} {state : State} {fault : Option Fault}
      (hcall : programLanguage.call depth n s.state = .settled d state fault) :
      ∃ ts, programLanguage.Runs n [.nonterminal n] s.state [d] ts state fault :=
    Language.runs_of_call depth n n s.state d state fault hcall
  rw [call_eq_graft] at h
  cases hcall : programLanguage.call depth n s.state with
  | done d state =>
    rw [hcall] at h
    obtain ⟨rfl, rfl⟩ := Prod.mk.inj (Option.some.inj h)
    obtain ⟨ts, hrun⟩ := @hruns d state none hcall
    exact ⟨d, ts, none, hrun, rfl, rfl⟩
  | failed d state f =>
    rw [hcall] at h
    obtain ⟨rfl, rfl⟩ := Prod.mk.inj (Option.some.inj h)
    obtain ⟨ts, hrun⟩ := @hruns d state (some f) hcall
    exact ⟨d, ts, some f, hrun, rfl, rfl⟩
  | tooDeep =>
    rw [hcall] at h
    cases h

end Session

/-- A failure is a mismatch unless it is about a second declaration. -/
theorem Fault.cause_eq_mismatch_iff {f : Fault} {node : Nat} :
    (f.toFailure node).cause = .mismatch ↔ ¬ ∃ r, f = .redeclared r := by
  cases f with
  | redeclared r =>
    constructor
    · intro hcause
      cases hcause
    · intro hnone
      exact absurd ⟨r, rfl⟩ hnone
  | unexpected | noAlternative => simp [toFailure]

theorem Fault.cause_eq_redeclaration_iff {f : Fault} {node : Nat} :
    (f.toFailure node).cause = .redeclaration ↔ ∃ r, f = .redeclared r := by
  cases f with
  | redeclared r => simp [toFailure]
  | unexpected | noAlternative => simp [toFailure]

/-- What a program consists of. -/
def programSymbols : List (Symbol Nonterminal) :=
  [.nonterminal .stmtList, .terminal .endOfInput]

theorem programSymbols_mem : programSymbols ∈ programGrammar.alternatives .program := by
  simp [alternatives_programGrammar, programAlternatives, programSymbols]

theorem ends_programSymbols : programGrammar.Ends .program programSymbols :=
  Grammar.ends_of_mem programSymbols_mem

theorem yields_programSymbols {word : List Kind}
    (h : programGrammar.Yields [.nonterminal .stmtList] word) :
    programGrammar.Yields programSymbols (word ++ [.endOfInput]) :=
  Grammar.yields_append_iff.mpr ⟨word, [.endOfInput], rfl, h, .terminal .nil⟩

theorem not_nameDue_programSymbols : ¬ NameDue .program programSymbols := by
  decide

/-- Anything may come after a program, which ends in a terminal. -/
theorem follows_programSymbols (kind : Kind) : programLanguage.Follows programSymbols kind := by
  have hcheck : ∀ tail ∈ programSymbols.tails, vanishes programLanguage.lookahead.isNullable
      tail.tail = true → ∀ n ∈ Nonterminal.all, tail.head? ≠ some (.nonterminal n) := by
    decide +kernel
  intro n rest huse hend
  exact absurd rfl (hcheck _ ((List.mem_tails _ _).mpr huse) hend n n.mem_all)

/-- At the start no name is due. -/
theorem nameDue_start : Kind.endOfInput = .kwVar ↔ NameDue .program programSymbols :=
  iff_of_false (by decide) not_nameDue_programSymbols

namespace Language

variable {host : Nonterminal} {s s' : State} {ds : List (Derivation Nonterminal)} {ts : List Token}
  {fault : Option Fault}

/-- The next token after those that are consumed is the one that the run stops at. -/
theorem Runs.getElem?_length {tokens : List Token} {symbols : List (Symbol Nonterminal)}
    (h : programLanguage.Runs host symbols (State.start tokens) ds ts s' fault) :
    tokens[ts.length]? = s'.cursor.current := by
  have htokens : tokens = ts ++ s'.cursor.rest := h.consumes.1
  rw [htokens, List.getElem?_append_right (Nat.le_refl _), Nat.sub_self]
  exact List.head?_eq_getElem?.symm

theorem Runs.of_program (h : programLanguage.Runs host [.nonterminal .program] s ds ts s' fault) :
    ∃ children, ds = [.production .program children] ∧
      programLanguage.Runs .program programSymbols s children ts s' fault := by
  have honly : programLanguage.choose? .program s.kind = some programSymbols := rfl
  obtain ⟨children, rfl, hcases⟩ := h.of_call
  refine ⟨children, rfl, ?_⟩
  rcases hcases with ⟨hchoose, _⟩ | ⟨hchoose, _⟩ | ⟨alt, hchoose, _, hrun⟩
  · cases honly.symm.trans hchoose
  · cases honly.symm.trans hchoose
  · obtain rfl := Option.some.inj (honly.symm.trans hchoose)
    exact hrun

/-- Statements consume tokens that yield from the list of statements, or begin to. -/
theorem Runs.of_statements {d : Derivation Nonterminal}
    (h : programLanguage.Runs host [.nonterminal .stmtList] s [d] ts s' fault) :
    leavesOf [d] = ts.map Token.leaf ∧
      ∃ back, programGrammar.Yields [.nonterminal .stmtList] (ts.map Token.kind ++ back) ∧
        (fault = none → back = []) := by
  have hsymbols : ∀ symbol ∈ [Symbol.nonterminal Nonterminal.stmtList],
      Grammar.lacks (· ≠ .program) .endOfInput symbol := by
    simp [Grammar.lacks]
  obtain ⟨back, hyields, hdone⟩ := h.yields programGrammar_productive
  rw [h.wordOf_eq hsymbols] at hyields
  exact ⟨h.leaves_eq (h.endOfInput_not_mem hsymbols), back, hyields, hdone⟩

/-- A run that is done has consumed the tokens of a list of statements, and then met the end of all
tokens or consumed a token that says so. -/
theorem Runs.of_done (h : programLanguage.Runs .program programSymbols s ds ts s' none) :
    ∃ body, programGrammar.Yields [.nonterminal .stmtList] (body.map Token.kind) ∧
      ((ts = body ∧ s'.cursor.rest = [] ∧ leavesOf ds = ts.map Token.leaf ++ [endLeaf]) ∨
        ∃ t, t.kind = .endOfInput ∧ ts = body ++ [t] ∧ leavesOf ds = ts.map Token.leaf) := by
  rcases h.of_cons with ⟨d, es, body, s₁, us, hcall, hrest, rfl, rfl⟩ | ⟨_, _, hfault, _⟩
  · obtain ⟨hleaves, back, hyields, hdone⟩ := hcall.of_statements
    obtain rfl := hdone rfl
    rw [List.append_nil] at hyields
    refine ⟨body, hyields, ?_⟩
    rw [leavesOf, leavesOf, List.append_nil] at hleaves
    cases hrest with
    | ended hs hnil =>
      cases hnil
      refine Or.inl ⟨List.append_nil body, hs, ?_⟩
      rw [leavesOf, hleaves, List.append_nil]
      rfl
    | @matched _ _ _ _ _ t _ _ _ _ _ _ hkind _ hnil =>
      cases hnil
      refine Or.inr ⟨t, hkind, rfl, ?_⟩
      simp [leavesOf, Derivation.leaves, hleaves, Token.leaf, hkind]
  · cases hfault

/-- A run that fails has consumed the beginning of a list of statements. -/
theorem Runs.of_failed {f : Fault}
    (h : programLanguage.Runs .program programSymbols s ds ts s' (some f)) :
    leavesOf ds = ts.map Token.leaf ∧
      ∃ back, programGrammar.Yields [.nonterminal .stmtList] (ts.map Token.kind ++ back) := by
  rcases h.of_cons with ⟨d, es, body, s₁, us, hcall, hrest, rfl, rfl⟩ | ⟨d, _, _, rfl, hcall⟩
  · obtain ⟨hleaves, back, hyields, _⟩ := hcall.of_statements
    rw [leavesOf, leavesOf, List.append_nil] at hleaves
    cases hrest with
    | ended _ hnil => cases hnil
    | matched _ _ _ hnil => cases hnil
    | redeclared _ hkind henter =>
      rw [enter_programLanguage, if_neg (by simp)] at henter
      cases henter
    | mismatched =>
      refine ⟨?_, back, by rwa [List.append_nil]⟩
      simp [leavesOf, Derivation.leaves, hleaves]
  · obtain ⟨hleaves, back, hyields, _⟩ := hcall.of_statements
    exact ⟨hleaves, back, hyields⟩

/-- A run that fails has met no end of input. -/
theorem Runs.wordOf_eq_of_failed {f : Fault}
    (h : programLanguage.Runs .program programSymbols s ds ts s' (some f)) :
    wordOf ds = ts.map Token.kind := by
  rw [wordOf, h.of_failed.1, List.map_map]
  rfl

/-- If the consumed kinds and the one that the run stops at begin a list of statements with an end
of input, then only a second declaration can have stopped the run. -/
theorem Runs.redeclared_of_yields {f : Fault} {word : List Kind}
    (h : programLanguage.Runs .program programSymbols s ds ts s' (some f))
    (hword : programGrammar.Yields [.nonterminal .stmtList] word)
    (hseen : ts.map Token.kind ++ [s'.kind] <+: word ++ [.endOfInput]) :
    ∃ r, f = .redeclared r := by
  have hsees : wordOf ds ++ [s'.kind] <+: (word ++ [.endOfInput]) ++ [] := by
    rwa [h.wordOf_eq_of_failed, List.append_nil]
  have hforced := h.forced programLanguage_predictive ends_programSymbols
    (yields_programSymbols hword) (by simp) hsees
  exact (hforced.2 f rfl).1

end Language

/-- A parse is a run over all the tokens, and its tree shows what the run derived. -/
theorem parse_eq_some {tokens : List Token} {depth : Nat} {session : Session}
    {failure : Option Failure} (h : parse tokens depth = some (session, failure)) :
    ∃ ds ts fault,
      programLanguage.Runs .program programSymbols (State.start tokens) ds ts session.state fault ∧
      (tokens = ts ++ session.state.cursor.rest ∧ session.state.cursor.consumed = ts.length) ∧
      session.tree.attachments = (Tree.graft {} 0
        ((Derivation.production .program ds).toRose Nonterminal.name)).attachments ∧
      failure = fault.map fun f => f.toFailure session.tree.lastParent := by
  obtain ⟨d, ts, fault, hcall, htree, hfailure⟩ := Session.call_eq_some h
  obtain ⟨ds, hd, hrun⟩ := hcall.of_program
  obtain rfl := List.singleton_inj.mp hd
  obtain ⟨hrest, hcount⟩ := hrun.consumes
  have hconsumed : session.state.cursor.consumed = 0 + ts.length := hcount
  exact ⟨ds, ts, fault, hrun, ⟨hrest, by omega⟩, htree, hfailure⟩

end TopDown
