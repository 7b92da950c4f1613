import TopDown.Proofs.Derivation.Places
import TopDown.Proofs.Parse.Acceptance
import TopDown.Proofs.Parse.Failure
import TopDown.Proofs.Parse.ViablePrefix

/-!
# Second declarations

A parse rejects a second declaration exactly where the tokens make one: in the first place where an
identifier comes directly after `var`, an earlier declaration has the same lexeme, and the tokens up
to there begin a list of statements. Whatever the outcome, the scope holds the names that the
consumed tokens declare, each with its first declaration.
-/

namespace TopDown

open TopDown.Derivation

theorem Grammar.Viable.of_prefix {N : Type} [DecidableEq N] {g : Grammar N} {n : N}
    {front word : List Kind} (h : g.Viable n word) (hfront : front <+: word) : g.Viable n front := by
  obtain ⟨more, hmore⟩ := h
  obtain ⟨back, rfl⟩ := hfront
  exact ⟨back ++ more, by rwa [← List.append_assoc]⟩

/-- In the place `i` a name is declared that was declared before, and the tokens up to there begin a
list of statements. -/
def Token.RedeclaresAt (tokens : List Token) (i : Nat) : Prop :=
  ∃ t, DeclaresAt tokens i t ∧ (∃ j u, j < i ∧ DeclaresAt tokens j u ∧ u.lexeme = t.lexeme) ∧
    programGrammar.Viable .stmtList ((tokens.take (i + 1)).map kind)

/-- Where no name is declared twice there is no second declaration. -/
theorem Token.not_redeclaresAt_of_nodup {tokens : List Token} {n i : Nat}
    (hnames : ((declared (tokens.take n)).map lexeme).Nodup) (hi : i < n) :
    ¬ RedeclaresAt tokens i := by
  rintro ⟨t, ht, ⟨j, u, hj, hu, hsame⟩, _⟩
  have ht' : DeclaresAt (tokens.take n) i t := declaresAt_take_iff.mpr ⟨hi, ht⟩
  have hu' : DeclaresAt (tokens.take n) j u := declaresAt_take_iff.mpr ⟨by omega, hu⟩
  exact hu'.lexeme_ne hnames ht' hj hsame

/-- The message names the lexeme and the place of the first declaration. -/
theorem Redeclaration.message_fault (r : Redeclaration) :
    let t := r.again
    let u := r.first
    (Fault.redeclared r).message =
      s!"semantic error: '{t.lexeme}' is already declared (line {u.line}, col {u.column})" := by
  intro t u
  have hassoc (a b x c d l e k z : String) :
      a ++ (b ++ x ++ c ++ (d ++ l ++ e ++ k) ++ z) =
        a ++ b ++ x ++ (c ++ d) ++ l ++ e ++ k ++ z := by
    simp only [String.append_assoc]
  have hopen : "semantic error: " ++ "'" = "semantic error: '" := by decide
  have hplace : "' is already declared (" ++ "line " = "' is already declared (line " := by
    decide +kernel
  have hmessage := hassoc "semantic error: " "'" t.lexeme "' is already declared (" "line "
    (toString u.line) ", col " (toString u.column) ")"
  rw [hopen, hplace] at hmessage
  exact hmessage

namespace Language

variable {tokens ts : List Token} {s' : State} {ds : List (Derivation Nonterminal)}
  {fault : Option Fault} {r : Redeclaration}

/-- A run that a second declaration stops has consumed the tokens up to this declaration and declared
what they say but for it. -/
theorem Runs.place_of_redeclared
    (h : programLanguage.Runs .program programSymbols (State.start tokens) ds ts s' fault)
    (hf : fault = some (.redeclared r)) :
    ∃ i, ts.length = i + 1 ∧ ts = tokens.take (i + 1) ∧ Token.DeclaresAt tokens i r.again ∧
      s'.scope.tokens = Token.declared (tokens.take i) ∧
      Token.declared ts = Token.declared (tokens.take i) ++ [r.again] := by
  obtain ⟨front, rfl, hlast, hkind⟩ := h.of_redeclared ends_programSymbols nameDue_start hf
  have htokens : tokens = front ++ r.again :: s'.cursor.rest := by
    rw [List.append_cons]
    exact h.consumes.1
  have hfront : tokens.take front.length = front := by simp [htokens]
  have hall : tokens.take (front.length + 1) = front ++ [r.again] := by
    rw [List.take_add_one, hfront]
    simp [htokens]
  have hplace : Token.DeclaresAt tokens front.length r.again :=
    Token.declaresAt_iff.mpr ⟨front, s'.cursor.rest, htokens, rfl, hlast, hkind⟩
  have hdeclared := Token.declared_concat hlast hkind
  have hscope : s'.scope.tokens ++ fault.elim [] Fault.rejected =
      Token.declared (front ++ [r.again]) :=
    (h.declares ends_programSymbols nameDue_start).1
  rw [hf, hdeclared] at hscope
  refine ⟨front.length, by simp, hall.symm, hplace, ?_, ?_⟩
  · rw [hfront]
    exact List.append_cancel_right hscope
  · rw [hfront, hdeclared]

/-- The scope holds the first declaration of each name. -/
theorem Runs.scope_eq_firsts
    (h : programLanguage.Runs .program programSymbols (State.start tokens) ds ts s' fault) :
    s'.scope.tokens = Token.firsts (Token.declared ts) := by
  by_cases hredeclared : ∃ r, fault = some (.redeclared r)
  · obtain ⟨r, hf⟩ := hredeclared
    obtain ⟨i, _, _, _, hscope, hdeclared⟩ := h.place_of_redeclared hf
    obtain ⟨hmem, hsame⟩ := h.first_mem_scope hf
    have hthere : r.again.lexeme ∈ s'.scope.tokens.map Token.lexeme :=
      hsame ▸ List.mem_map_of_mem hmem
    rw [hdeclared, ← hscope, Token.firsts_concat_of_mem s'.scope.distinct hthere]
  · rw [← h.scope_eq_declared hredeclared, Token.firsts_of_nodup s'.scope.distinct]

/-- If the consumed tokens and the next one begin a list of statements, then only a second
declaration can have stopped the run. -/
theorem Runs.redeclared_of_viable {t : Token}
    (h : programLanguage.Runs .program programSymbols (State.start tokens) ds ts s' fault)
    (hnext : tokens[ts.length]? = some t)
    (hviable : programGrammar.Viable .stmtList ((ts ++ [t]).map Token.kind)) :
    ∃ r, fault = some (.redeclared r) := by
  obtain ⟨more, hmore⟩ := hviable
  rw [Grammar.generates_iff_yields] at hmore
  have hend := endOfInput_not_mem_of_yields hmore
  have hrest : s'.cursor.rest.head? = some t := h.getElem?_length.symm.trans hnext
  cases fault with
  | none =>
    obtain ⟨body, _, ⟨_, hnil, _⟩ | ⟨u, hu, rfl, _⟩⟩ := h.of_done
    · simp [hnil] at hrest
    · exact absurd (by simp [hu]) hend
  | some f =>
    obtain ⟨left, hleft⟩ := List.head?_eq_some_iff.mp hrest
    obtain ⟨r, rfl⟩ : ∃ r, f = .redeclared r := by
      apply h.redeclared_of_yields hmore
      rw [State.kind_of_rest_eq_cons hleft, List.map_append, List.append_assoc _ more]
      exact List.prefix_append _ _
    exact ⟨r, rfl⟩

/-- A run that no second declaration stops has found none in the tokens. -/
theorem Runs.not_redeclaresAt
    (h : programLanguage.Runs .program programSymbols (State.start tokens) ds ts s' fault)
    (hnone : ¬ ∃ r, fault = some (.redeclared r)) (i : Nat) : ¬ Token.RedeclaresAt tokens i := by
  have htokens : tokens = ts ++ s'.cursor.rest := h.consumes.1
  have htake : tokens.take ts.length = ts := by simp [htokens]
  intro hredeclares
  by_cases hi : i < ts.length
  · have hnames := h.nodup_declared_iff.mpr hnone
    rw [← htake] at hnames
    exact Token.not_redeclaresAt_of_nodup hnames hi hredeclares
  · -- The next token is still within the tokens that begin a list of statements.
    obtain ⟨t, ⟨v, _, _, _, ht, _⟩, _, hviable⟩ := hredeclares
    obtain ⟨hlt, _⟩ := List.getElem?_eq_some_iff.mp ht
    have hnext : tokens[ts.length]? = some tokens[ts.length] :=
      List.getElem?_eq_getElem (by omega)
    have hfront : (ts ++ [tokens[ts.length]]).map Token.kind <+:
        (tokens.take (i + 1)).map Token.kind := by
      have hshort : ts ++ [tokens[ts.length]] = tokens.take (ts.length + 1) := by
        rw [List.take_add_one, hnext, htake]
        rfl
      rw [hshort]
      exact (List.take_prefix_take_left (by omega)).map Token.kind
    exact hnone (h.redeclared_of_viable hnext (hviable.of_prefix hfront))

/-- A run that a second declaration stops has found the first one in the tokens. -/
theorem Runs.redeclaresAt
    (h : programLanguage.Runs .program programSymbols (State.start tokens) ds ts s' fault)
    (hf : fault = some (.redeclared r)) :
    ∃ i, ts.length = i + 1 ∧ Token.DeclaresAt tokens i r.again ∧ Token.RedeclaresAt tokens i ∧
      ∀ j < i, ¬ Token.RedeclaresAt tokens j := by
  obtain ⟨i, hlength, rfl, hagain, hscope, _⟩ := h.place_of_redeclared hf
  refine ⟨i, hlength, hagain, ⟨r.again, hagain, ?_, ?_⟩, ?_⟩
  · obtain ⟨hmem, hsame⟩ := h.first_mem_scope hf
    rw [hscope] at hmem
    obtain ⟨j, hj⟩ := Token.mem_declared_iff.mp hmem
    obtain ⟨hlt, hfirst⟩ := Token.declaresAt_take_iff.mp hj
    exact ⟨j, r.first, hlt, hfirst, hsame⟩
  · subst hf
    obtain ⟨_, back, hback⟩ := h.of_failed
    exact ⟨back, Grammar.generates_iff_yields.mpr hback⟩
  · have hnames := s'.scope.distinct
    rw [hscope] at hnames
    exact fun j hj => Token.not_redeclaresAt_of_nodup hnames hj

/-- The name that is declared again was first declared where its fault says. -/
theorem Runs.firstDeclares
    (h : programLanguage.Runs .program programSymbols (State.start tokens) ds ts s' fault)
    (hf : fault = some (.redeclared r)) :
    Token.FirstDeclares tokens r.again.lexeme r.first := by
  obtain ⟨i, _, _, hagain, hscope, _⟩ := h.place_of_redeclared hf
  have hfound : (Token.declared (tokens.take i)).find? (·.lexeme = r.again.lexeme) =
      some r.first := by
    rw [← hscope]
    exact h.lookup_redeclared hf
  obtain ⟨after, hafter⟩ := hagain.declared_eq
  apply Token.firstDeclares_of_find?
  rw [hafter, List.find?_append, hfound]
  rfl

end Language

/-- In the first place where the tokens declare a name again, a parse stops with the error of this
declaration, which is noticed at the node of the declaration and names the first one. Without such a
place no parse ends in this way. The scope always holds the names that the consumed tokens declare,
in order and each with its first declaration. -/
theorem parse_redeclares_at_first {tokens : List Token} {depth : Nat} {session : Session}
    {failure : Option Failure} (h : parse tokens depth = some (session, failure)) :
    (∀ i, Token.RedeclaresAt tokens i → (∀ j < i, ¬ Token.RedeclaresAt tokens j) →
        ∃ f t u, failure = some f ∧ f.cause = .redeclaration ∧
          session.state.cursor.consumed = i + 1 ∧ tokens[i]? = some t ∧ f.token = some t ∧
          session.tree.node? f.node = some (Node.nonterminal "VAR_DECL") ∧
          Token.FirstDeclares tokens t.lexeme u ∧
          f.message =
            s!"semantic error: '{t.lexeme}' is already declared (line {u.line}, col {u.column})") ∧
      ((∀ i, ¬ Token.RedeclaresAt tokens i) →
        ∀ f, failure = some f → f.cause ≠ .redeclaration) ∧
      session.state.scope.tokens =
        Token.firsts (Token.declared (tokens.take session.state.cursor.consumed)) := by
  obtain ⟨ds, ts, fault, hrun, ⟨htokens, hconsumed⟩, htree, rfl⟩ := parse_eq_some h
  have htake : tokens.take session.state.cursor.consumed = ts := by simp [htokens, hconsumed]
  refine ⟨?_, ?_, ?_⟩
  · intro i hi hleast
    obtain ⟨r, rfl⟩ : ∃ r, fault = some (.redeclared r) := by
      by_contra hnone
      exact hrun.not_redeclaresAt hnone i hi
    obtain ⟨k, hlength, ⟨_, _, _, _, hagain, _⟩, hk, hbefore⟩ := hrun.redeclaresAt rfl
    obtain rfl : i = k := by
      rcases Nat.lt_trichotomy i k with hlt | heq | hlt
      · exact absurd hi (hbefore i hlt)
      · exact heq
      · exact absurd hk (hleast k hlt)
    obtain ⟨n, hends, hdeclaration⟩ := hrun.endsIn_of_program htree
    obtain rfl := hdeclaration ⟨r, rfl⟩
    exact ⟨_, r.again, r.first, rfl, rfl, hconsumed.trans hlength, hagain, rfl, hends.parent,
      hrun.firstDeclares rfl, r.message_fault⟩
  · intro hnone f hf
    obtain ⟨fault, rfl, rfl⟩ := Option.map_eq_some_iff.mp hf
    intro hcause
    obtain ⟨r, rfl⟩ := Fault.cause_eq_redeclaration_iff.mp hcause
    obtain ⟨i, _, _, hi, _⟩ := hrun.redeclaresAt rfl
    exact hnone i hi
  · rw [htake]
    exact hrun.scope_eq_firsts

/-- Of two declarations of one name the second is rejected, and the scope keeps the first. -/
theorem parse_rejects_second_declaration :
    ∃ session f,
      parse [⟨.kwVar, "var", 1, 1⟩, ⟨.identifier, "x", 1, 5⟩, ⟨.kwVar, "var", 2, 1⟩,
          ⟨.identifier, "x", 2, 5⟩] = some (session, some f) ∧
        f.cause = .redeclaration ∧ session.state.cursor.consumed = 4 ∧
        f.token = some ⟨.identifier, "x", 2, 5⟩ ∧
        session.state.scope.tokens = [⟨.identifier, "x", 1, 5⟩] := by
  have hviable : programGrammar.Generates .stmtList [.kwVar, .identifier, .kwVar, .identifier] := by
    have hname : programGrammar.Yields [.nonterminal .varDecl] [.kwVar, .identifier] :=
      .nonterminal (by decide) (.terminal (.terminal .nil)) .nil
    have hnone : programGrammar.Yields [.nonterminal .stmtList] [] :=
      .nonterminal (by decide) .nil .nil
    have hone : programGrammar.Yields [.nonterminal .stmt, .nonterminal .stmtList]
        [.kwVar, .identifier] :=
      .nonterminal (by decide) hname hnone
    have htwo : programGrammar.Yields [.nonterminal .stmt, .nonterminal .stmtList]
        [.kwVar, .identifier, .kwVar, .identifier] :=
      .nonterminal (by decide) hname (.nonterminal (by decide) hone .nil)
    exact Grammar.generates_iff_yields.mpr (.nonterminal (by decide) htwo .nil)
  have hplace : Token.RedeclaresAt [⟨.kwVar, "var", 1, 1⟩, ⟨.identifier, "x", 1, 5⟩,
      ⟨.kwVar, "var", 2, 1⟩, ⟨.identifier, "x", 2, 5⟩] 3 :=
    ⟨_, ⟨_, rfl, by decide, rfl, rfl, rfl⟩,
      ⟨1, _, by decide, ⟨_, rfl, by decide, rfl, rfl, rfl⟩, rfl⟩, [], hviable⟩
  have hfirst (j : Nat) (hj : j < 3) : ¬ Token.RedeclaresAt [⟨.kwVar, "var", 1, 1⟩,
      ⟨.identifier, "x", 1, 5⟩, ⟨.kwVar, "var", 2, 1⟩, ⟨.identifier, "x", 2, 5⟩] j :=
    Token.not_redeclaresAt_of_nodup (by decide) hj
  have hanswers : (parse [⟨.kwVar, "var", 1, 1⟩, ⟨.identifier, "x", 1, 5⟩, ⟨.kwVar, "var", 2, 1⟩,
      ⟨.identifier, "x", 2, 5⟩]).isSome = true := by
    decide +kernel
  obtain ⟨⟨session, failure⟩, hparse⟩ := Option.isSome_iff_exists.mp hanswers
  obtain ⟨hredeclared, _, hscope⟩ := parse_redeclares_at_first hparse
  obtain ⟨f, t, u, rfl, hcause, hconsumed, hat, htoken, _⟩ := hredeclared 3 hplace hfirst
  obtain rfl := Option.some.inj hat
  refine ⟨session, f, hparse, hcause, hconsumed, htoken, ?_⟩
  rw [hscope, hconsumed]
  rfl

end TopDown
