import TopDown.Proofs.Lexicon.Scan
import TopDown.Proofs.Parse.Program

/-!
# Accepted programs

A parse accepts exactly the programs of the grammar that declare no name twice. It reads up to the
first end-of-input token, or to the end of all tokens if there is none; what comes after that token
does not matter.
-/

namespace TopDown

open TopDown.Derivation

/-! ## The body of a program -/

/-- The tokens before the first one that says end-of-input. -/
def Token.body (tokens : List Token) : List Token :=
  tokens.takeWhile (·.kind ≠ .endOfInput)

theorem Token.body_append {ts : List Token} (hts : .endOfInput ∉ ts.map Token.kind)
    (tokens : List Token) : Token.body (ts ++ tokens) = ts ++ Token.body tokens := by
  apply List.takeWhile_append_of_pos
  intro t ht
  rw [decide_eq_true_eq]
  intro hkind
  exact hts (List.mem_map.mpr ⟨t, ht, hkind⟩)

/-- What the cursor shows is the next kind of the body, or the end of it. -/
theorem State.kind_prefix_body (s : State) :
    [s.kind] <+: (Token.body s.cursor.rest).map Token.kind ++ [.endOfInput] := by
  cases hrest : s.cursor.rest with
  | nil =>
    rw [kind_of_rest_eq_nil hrest]
    exact List.prefix_rfl
  | cons t left =>
    rw [kind_of_rest_eq_cons hrest]
    by_cases ht : t.kind = .endOfInput
    · simp [Token.body, ht]
    · simp [Token.body, ht]

/-- Without an end-of-input token the body is all there is. -/
theorem Token.body_of_not_mem {tokens : List Token} (h : .endOfInput ∉ tokens.map Token.kind) :
    Token.body tokens = tokens := by
  simpa [Token.body] using Token.body_append h []

/-! ## Names -/

/-- An end-of-input token declares no name. -/
theorem Token.declared_append_find? (ts tokens : List Token) :
    Token.declared (ts ++ (tokens.find? (·.kind = .endOfInput)).toList) = Token.declared ts := by
  cases hfind : tokens.find? (·.kind = .endOfInput) with
  | none => rw [Option.toList_none, List.append_nil]
  | some t =>
    have ht : t.kind = .endOfInput := by simpa using List.find?_some hfind
    simp [Token.declared_append, Token.declaredAfter, ht]

namespace Language

variable {tokens ts : List Token} {s' : State} {ds : List (Derivation Nonterminal)}
  {fault : Option Fault}

/-- A run that no second declaration stops has declared what its tokens say. -/
theorem Runs.scope_eq_declared
    (h : programLanguage.Runs .program programSymbols (State.start tokens) ds ts s' fault)
    (hnone : ¬ ∃ r, fault = some (.redeclared r)) : s'.scope.tokens = Token.declared ts := by
  have hrejected : fault.elim [] Fault.rejected = [] := by
    rcases fault with _ | f
    · rfl
    · cases f with
      | redeclared r => exact absurd ⟨r, rfl⟩ hnone
      | unexpected | noAlternative => rfl
  have hscope := (h.declares ends_programSymbols nameDue_start).1
  rw [hrejected, List.append_nil] at hscope
  exact hscope

/-- The names that a run declares are distinct until a second declaration stops it. -/
theorem Runs.nodup_declared_iff
    (h : programLanguage.Runs .program programSymbols (State.start tokens) ds ts s' fault) :
    ((Token.declared ts).map Token.lexeme).Nodup ↔ ¬ ∃ r, fault = some (.redeclared r) := by
  constructor
  · rintro hnodup ⟨r, rfl⟩
    have hscope : s'.scope.tokens ++ [r.again] = Token.declared ts :=
      (h.declares ends_programSymbols nameDue_start).1
    obtain ⟨hmem, hsame⟩ := h.first_mem_scope rfl
    rw [← hscope, List.map_append, List.nodup_append] at hnodup
    exact hnodup.2.2 _ (List.mem_map_of_mem hmem) r.again.lexeme (by simp) hsame
  · intro hnone
    rw [← h.scope_eq_declared hnone]
    exact s'.scope.distinct

/-! ## Acceptance -/

/-- A run that is done has consumed the body and the first end-of-input token if there is one, and
the body is a list of statements. -/
theorem Runs.body_of_done
    (h : programLanguage.Runs .program programSymbols (State.start tokens) ds ts s' none) :
    programGrammar.Yields [.nonterminal .stmtList] ((Token.body tokens).map Token.kind) ∧
      ts = Token.body tokens ++ (tokens.find? (·.kind = .endOfInput)).toList := by
  have htokens : tokens = ts ++ s'.cursor.rest := h.consumes.1
  obtain ⟨body, hyields, hcases⟩ := h.of_done
  have hend := endOfInput_not_mem_of_yields hyields
  have hfind : body.find? (·.kind = .endOfInput) = none := by
    simpa using hend
  rcases hcases with ⟨rfl, hrest, _⟩ | ⟨t, ht, rfl, _⟩
  · rw [hrest, List.append_nil] at htokens
    rw [htokens, Token.body_of_not_mem hend, hfind]
    exact ⟨hyields, (List.append_nil ts).symm⟩
  · have hbody : Token.body tokens = body := by
      rw [htokens, List.append_assoc, Token.body_append hend]
      simp [Token.body, ht]
    have hfirst : tokens.find? (·.kind = .endOfInput) = some t := by
      rw [htokens, List.append_assoc, List.find?_append, hfind]
      simp [ht]
    rw [hbody, hfirst]
    exact ⟨hyields, rfl⟩

/-- If the body is a list of statements, then a second declaration in the body stops a run that
fails. -/
theorem Runs.redeclared_of_body {f : Fault}
    (h : programLanguage.Runs .program programSymbols (State.start tokens) ds ts s' (some f))
    (hyields :
      programGrammar.Yields [.nonterminal .stmtList] ((Token.body tokens).map Token.kind)) :
    (∃ r, f = .redeclared r) ∧ ts <+: Token.body tokens := by
  have htokens : tokens = ts ++ s'.cursor.rest := h.consumes.1
  obtain ⟨_, back, hback⟩ := h.of_failed
  have hend : Kind.endOfInput ∉ ts.map Token.kind := by
    intro hmem
    exact endOfInput_not_mem_of_yields hback (List.mem_append_left back hmem)
  have hbody : Token.body tokens = ts ++ Token.body s'.cursor.rest := by
    rw [htokens, Token.body_append hend]
  have hseen : ts.map Token.kind ++ [s'.kind] <+:
      (Token.body tokens).map Token.kind ++ [.endOfInput] := by
    rw [hbody, List.map_append, List.append_assoc, List.prefix_append_right_inj]
    exact s'.kind_prefix_body
  refine ⟨h.redeclared_of_yields hyields hseen, ?_⟩
  rw [hbody]
  exact List.prefix_append ts _

/-- If the body is a list of statements that declares no name twice, then no run fails. -/
theorem Runs.done_of_body
    (h : programLanguage.Runs .program programSymbols (State.start tokens) ds ts s' fault)
    (hyields : programGrammar.Yields [.nonterminal .stmtList] ((Token.body tokens).map Token.kind))
    (hnames : ((Token.declared (Token.body tokens)).map Token.lexeme).Nodup) : fault = none := by
  cases fault with
  | none => rfl
  | some f =>
    obtain ⟨⟨r, rfl⟩, more, hmore⟩ := h.redeclared_of_body hyields
    rw [← hmore, Token.declared_append, List.map_append, List.nodup_append] at hnames
    exact absurd ⟨r, rfl⟩ (h.nodup_declared_iff.mp hnames.1)

end Language

/-- A parse succeeds exactly if the kinds of the body generate from the list of statements and no
two declarations of the body share a name. It has then consumed the body and the first end-of-input
token if there is one; a program text is consumed whole. -/
theorem parse_accepts_iff {tokens : List Token} {depth : Nat} {session : Session}
    {failure : Option Failure} (h : parse tokens depth = some (session, failure)) :
    (failure = none ↔
        programGrammar.Generates .stmtList ((Token.body tokens).map Token.kind) ∧
          ((Token.declared (Token.body tokens)).map Token.lexeme).Nodup) ∧
      (failure = none →
        tokens.take session.state.cursor.consumed =
            Token.body tokens ++ (tokens.find? (·.kind = .endOfInput)).toList ∧
          session.state.cursor.rest = tokens.drop session.state.cursor.consumed) ∧
      ∀ text, tokens = Token.scan text → failure = none → session.state.cursor.rest = [] := by
  obtain ⟨ds, ts, fault, hrun, ⟨htokens, hconsumed⟩, _, rfl⟩ := parse_eq_some h
  have hnames := hrun.nodup_declared_iff
  rw [Grammar.generates_iff_yields]
  cases fault with
  | none =>
    obtain ⟨hyields, hts⟩ := hrun.body_of_done
    have hdeclared : Token.declared ts = Token.declared (Token.body tokens) := by
      rw [hts, Token.declared_append_find?]
    have hnodup : ((Token.declared ts).map Token.lexeme).Nodup := hnames.mpr (by simp)
    rw [hdeclared] at hnodup
    have htake : tokens.take session.state.cursor.consumed = ts := by simp [htokens, hconsumed]
    have hdrop : session.state.cursor.rest = tokens.drop session.state.cursor.consumed := by
      simp [htokens, hconsumed]
    refine ⟨iff_of_true rfl ⟨hyields, hnodup⟩, fun _ => ⟨htake.trans hts, hdrop⟩, ?_⟩
    intro text htext _
    have hend : .endOfInput ∉ tokens.map Token.kind := by
      intro hmem
      obtain ⟨t, ht, hkind⟩ := List.mem_map.mp hmem
      exact Token.kind_ne_endOfInput_of_mem_scan (htext ▸ ht) hkind
    -- The body is all there is, so that the consumed tokens are at least as many.
    have hlength := congrArg List.length hts
    have hall := congrArg List.length htokens
    rw [Token.body_of_not_mem hend] at hlength
    rw [List.length_append] at hlength hall
    exact List.eq_nil_of_length_eq_zero (by omega)
  | some f =>
    refine ⟨iff_of_false (by simp) ?_, by simp, by simp⟩
    intro hlanguage
    obtain ⟨hyields, hnodup⟩ := hlanguage
    obtain ⟨⟨r, rfl⟩, more, hmore⟩ := hrun.redeclared_of_body hyields
    rw [← hmore, Token.declared_append, List.map_append, List.nodup_append] at hnodup
    exact hnames.mp hnodup.1 ⟨r, rfl⟩

/-- A declaration alone is accepted, so it is a list of statements. -/
theorem parse_accepts_declaration :
    ∃ session, parse [⟨.kwVar, "var", 1, 1⟩, ⟨.identifier, "x", 1, 5⟩] = some (session, none) ∧
      programGrammar.Generates .stmtList [.kwVar, .identifier] := by
  have haccepted : (parse [⟨.kwVar, "var", 1, 1⟩, ⟨.identifier, "x", 1, 5⟩]).map Prod.snd =
      some none := by
    decide +kernel
  obtain ⟨⟨session, failure⟩, hparse, hfailure⟩ := Option.map_eq_some_iff.mp haccepted
  obtain rfl : failure = none := hfailure
  have haccepts := (parse_accepts_iff hparse).1.mp rfl
  exact ⟨session, hparse, haccepts.1⟩

end TopDown
