import TopDown.Proofs.Parse.Program

/-!
# Viable prefixes

A parse that meets a mismatch stops at the first token that cannot be there: what it has consumed
still begins a list of statements of the grammar, with the token that it stops at it begins none.
-/

namespace TopDown

/-- The word begins one that the non-terminal generates. -/
def Grammar.Viable {N : Type} [DecidableEq N] (g : Grammar N) (n : N) (word : List Kind) : Prop :=
  ∃ more, g.Generates n (word ++ more)

/-- The consumed tokens are viable, the token that does not fit makes them not so, and they are no
whole list of statements if there is no such token or if it says end-of-input. The failure is about
this token. -/
theorem parse_stops_at_first_misfit {tokens : List Token} {depth : Nat} {session : Session}
    {f : Failure} {c : Nat} (h : parse tokens depth = some (session, some f))
    (hcause : f.cause = .mismatch) (hc : session.state.cursor.consumed = c) :
    programGrammar.Viable .stmtList ((tokens.take c).map Token.kind) ∧
      (∀ t, tokens[c]? = some t →
        ¬ programGrammar.Viable .stmtList ((tokens.take c).map Token.kind ++ [t.kind])) ∧
      ((∀ t, tokens[c]? = some t → t.kind = .endOfInput) →
        ¬ programGrammar.Generates .stmtList ((tokens.take c).map Token.kind)) ∧
      f.token = tokens[c]? := by
  obtain ⟨ds, ts, fault, hrun, ⟨htokens, hconsumed⟩, _, hfailure⟩ := parse_eq_some h
  obtain ⟨f', rfl, rfl⟩ := Option.map_eq_some_iff.mp hfailure.symm
  obtain rfl : ts.length = c := hconsumed.symm.trans hc
  have htake : tokens.take ts.length = ts := by simp [htokens]
  have hat : tokens[ts.length]? = session.state.cursor.current := by
    rw [htokens, List.getElem?_append_right (Nat.le_refl _), Nat.sub_self]
    exact List.head?_eq_getElem?.symm
  have hmismatch := Fault.cause_eq_mismatch_iff.mp hcause
  obtain ⟨_, back, hback⟩ := hrun.of_failed
  simp only [Grammar.Viable, Grammar.generates_iff_yields, htake, hat]
  refine ⟨⟨back, hback⟩, ?_, ?_, ?_⟩
  · rintro t ht ⟨more, hyields⟩
    obtain ⟨left, hleft⟩ := List.head?_eq_some_iff.mp ht
    apply hmismatch
    apply hrun.redeclared_of_yields hyields
    rw [State.kind_of_rest_eq_cons hleft, List.append_assoc _ more]
    exact List.prefix_append _ _
  · intro hend hyields
    have hkind : session.state.kind = .endOfInput := by
      cases hleft : session.state.cursor.rest with
      | nil => exact State.kind_of_rest_eq_nil hleft
      | cons t left =>
        rw [State.kind_of_rest_eq_cons hleft]
        exact hend t (by simp [Cursor.current, hleft])
    apply hmismatch
    apply hrun.redeclared_of_yields hyields
    rw [hkind]
  · rcases hrun.token_of_fault rfl with hredeclared | htoken
    · exact absurd hredeclared hmismatch
    · exact htoken

/-- A number after `var` is the first token that does not fit. -/
theorem parse_stops_after_var :
    ∃ session f, parse [⟨.kwVar, "var", 1, 1⟩, ⟨.number, "2", 1, 5⟩, ⟨.number, "3", 1, 7⟩] =
        some (session, some f) ∧ f.cause = .mismatch ∧ session.state.cursor.consumed = 1 ∧
      programGrammar.Viable .stmtList [.kwVar] ∧
      ¬ programGrammar.Viable .stmtList [.kwVar, .number] ∧
      f.token = some ⟨.number, "2", 1, 5⟩ := by
  have hfails :
      (parse [⟨.kwVar, "var", 1, 1⟩, ⟨.number, "2", 1, 5⟩, ⟨.number, "3", 1, 7⟩]).map
        (fun p => (p.1.state.cursor.consumed, p.2.map (·.cause))) = some (1, some .mismatch) := by
    decide +kernel
  obtain ⟨⟨session, failure⟩, hparse, hanswer⟩ := Option.map_eq_some_iff.mp hfails
  obtain ⟨hconsumed, hfailure⟩ := Prod.mk.inj hanswer
  obtain ⟨f, rfl, hcause⟩ := Option.map_eq_some_iff.mp hfailure
  obtain ⟨hviable, hmisfit, _, htoken⟩ := parse_stops_at_first_misfit hparse hcause hconsumed
  exact ⟨session, f, hparse, hcause, hconsumed, hviable, hmisfit _ rfl, htoken⟩

end TopDown
