import TopDown.Proofs.Derivation.Call
import TopDown.Proofs.Grammar.First

/-!
# Expected kinds

What a fault expects are the kinds that the run would have gone on with at this place; the one that
it met is not among them. The places before it in the symbols have taken empty alternatives without
a token, and those do not turn an expected kind away: where a kind is awaited further on in an
alternative, it selects the alternative, and it follows what comes before it.
-/

namespace TopDown

open TopDown.Derivation

namespace Language

/-- Whether the symbols take the kind at once, or after some that vanish. -/
def awaits {N : Type} [DecidableEq N] (l : Language N) (kind : Kind) : List (Symbol N) → Bool
  | [] => false
  | .terminal k :: _ => k = kind
  | .nonterminal n :: rest =>
    l.admits n kind || (l.lookahead.isNullable n && l.awaits kind rest)

/-! ## Facts of the grammar of programs -/

section

variable {host n : Nonterminal} {alt : Alternative Nonterminal}
  {rest : List (Symbol Nonterminal)} {kind : Kind}

theorem rest_eq_nil_of_ends (h : programGrammar.Ends host (.terminal .endOfInput :: rest)) :
    rest = [] := by
  have hcheck : ∀ n ∈ Nonterminal.all, ∀ alt ∈ programGrammar.alternatives n, ∀ tail ∈ alt.tails,
      tail.head? = some (.terminal .endOfInput) → tail.tail = [] := by
    decide +kernel
  obtain ⟨alt, halt, hsuffix⟩ := h
  exact hcheck host host.mem_all alt halt _ ((List.mem_tails _ _).mpr hsuffix) rfl

/-- No alternative calls the start symbol. -/
theorem ne_program_of_ends (h : programGrammar.Ends host (.nonterminal n :: rest)) :
    n ≠ .program := by
  have hcheck : ∀ n ∈ Nonterminal.all, ∀ alt ∈ programGrammar.alternatives n,
      .nonterminal .program ∉ alt := by
    decide +kernel
  obtain ⟨alt, halt, hsuffix⟩ := h
  rintro rfl
  exact hcheck host host.mem_all alt halt (hsuffix.subset List.mem_cons_self)

/-- Only the empty alternative vanishes. -/
theorem not_vanishes_of_ne_nil (halt : alt ∈ programGrammar.alternatives n) (hne : alt ≠ []) :
    vanishes programLanguage.lookahead.isNullable alt = false := by
  have hcheck : ∀ n ∈ Nonterminal.all, ∀ alt ∈ programGrammar.alternatives n, alt ≠ [] →
      vanishes programLanguage.lookahead.isNullable alt = false := by
    decide +kernel
  exact hcheck n n.mem_all alt halt hne

theorem expected_ne_nil (n : Nonterminal) : programLanguage.expected n ≠ [] := by
  have hcheck : ∀ n ∈ Nonterminal.all, programLanguage.expected n ≠ [] := by
    rw [programLanguage_eq_sets]
    decide +kernel
  exact hcheck n n.mem_all

/-- A kind that an alternative awaits selects an alternative. -/
theorem admits_of_awaits (hn : n ≠ .program) (halt : alt ∈ programGrammar.alternatives n)
    (h : programLanguage.awaits kind alt = true) : programLanguage.admits n kind = true := by
  have hcheck : ∀ n ∈ Nonterminal.all, n ≠ .program → ∀ alt ∈ programGrammar.alternatives n,
      ∀ kind ∈ Kind.all, programLanguage.awaits kind alt = true →
        programLanguage.admits n kind = true := by
    rw [programLanguage_eq_sets]
    decide +kernel
  exact hcheck n n.mem_all hn alt halt kind kind.mem_all h

/-- A kind that is awaited after a non-terminal that can vanish follows it. -/
theorem mem_followSet_of_awaits (hhost : programGrammar.Ends host (.nonterminal n :: rest))
    (hnullable : programLanguage.lookahead.isNullable n = true)
    (h : programLanguage.awaits kind rest = true) :
    kind ∈ programLanguage.lookahead.followSet n := by
  have hcheck : ∀ o ∈ programGrammar.occurrences,
      programLanguage.lookahead.isNullable o.name = true → ∀ kind ∈ Kind.all,
        programLanguage.awaits kind o.rest = true →
          kind ∈ programLanguage.lookahead.followSet o.name := by
    rw [programLanguage_eq_sets]
    decide +kernel
  exact hcheck ⟨n, rest, host⟩ (Grammar.mem_occurrences_iff.mpr hhost) hnullable kind kind.mem_all h

/-- A kind that is awaited after a non-terminal follows the alternatives of it. It need not follow
the non-terminal: after the condition of a loop an end of input is awaited, since it ends a list of
statements. -/
theorem follows_of_awaits (hhost : programGrammar.Ends host (.nonterminal n :: rest))
    (halt : alt ∈ programGrammar.alternatives n)
    (h : programLanguage.awaits kind rest = true) : programLanguage.Follows alt kind := by
  have hcheck : ∀ o ∈ programGrammar.occurrences, ∀ kind ∈ Kind.all,
      programLanguage.awaits kind o.rest = true → ∀ o' ∈ programGrammar.occurrences,
        o'.host = o.name → vanishes programLanguage.lookahead.isNullable o'.rest = true →
          kind ∈ programLanguage.lookahead.followSet o'.name := by
    rw [programLanguage_eq_sets]
    decide +kernel
  intro m after huse hend
  exact hcheck ⟨n, rest, host⟩ (Grammar.mem_occurrences_iff.mpr hhost) kind kind.mem_all h
    ⟨m, after, n⟩ (Grammar.mem_occurrences_iff.mpr ⟨alt, halt, huse⟩) rfl hend

end

/-! ## Runs that consume nothing -/

variable {host n : Nonterminal} {alt : Alternative Nonterminal}
  {symbols : List (Symbol Nonterminal)} {s s' : State} {ds : List (Derivation Nonterminal)}
  {ts : List Token} {fault : Option Fault} {f : Fault} {kind : Kind}

/-- A call that is done without a token has chosen the empty alternative. -/
theorem Runs.ne_nil_of_done (hn : n ≠ .program)
    (h : programLanguage.Runs n alt s ds ts s' none) (halt : alt ∈ programGrammar.alternatives n)
    (hne : alt ≠ []) : ts ≠ [] := by
  rintro rfl
  have hvanishes := h.vanishes_of_still (lacks_endOfInput hn halt)
  rw [not_vanishes_of_ne_nil halt hne] at hvanishes
  cases hvanishes

/-- A call that fails without a token had no other alternative than the one it has chosen. -/
theorem Runs.only_of_still (hn : n ≠ .program)
    (h : programLanguage.Runs n alt s ds [] s' (some f))
    (hchoose : programLanguage.choose? n s.kind = some alt) (hne : alt ≠ []) :
    programGrammar.alternatives n = [alt] := by
  rcases selects_of_choose? hchoose with hselects | honly
  · have halt := mem_alternatives_of_choose? hchoose
    rw [Lookahead.selects, not_vanishes_of_ne_nil halt hne, Bool.false_and,
      Bool.or_false] at hselects
    have hbegin : programGrammar.lookahead.canBegin s.kind alt = true := hselects
    obtain ⟨form, hderives⟩ := Grammar.canBegin_iff_starts.mp hbegin
    obtain ⟨word, hword⟩ := programGrammar_productive.yields form
    have hyields : programGrammar.Yields alt (s.kind :: word) :=
      hderives.yields (.terminal hword)
    obtain ⟨rfl, hnot⟩ := h.still rfl
    have hseen : wordOf ds ++ [s'.kind] <+: (s'.kind :: word) ++ [] := by
      rw [h.wordOf_eq (lacks_endOfInput hn halt)]
      simp
    obtain ⟨⟨r, rfl⟩, _⟩ := (h.forced programLanguage_predictive (Grammar.ends_of_mem halt) hyields
      (by simp) hseen).2 f rfl
    exact absurd ⟨r, rfl⟩ hnot
  · exact honly

/-- A fault that is not about a second declaration expects some kinds, and not the current one. -/
theorem Runs.expects (h : programLanguage.Runs host symbols s ds ts s' fault)
    (hfault : fault = some f) (hf : ¬ ∃ r, f = .redeclared r) :
    f.expected ≠ [] ∧ s'.kind ∉ f.expected := by
  induction h with
  | nil => cases hfault
  | ended _ _ ih | matched _ _ _ _ ih | vanished _ _ ih | called _ _ _ _ _ ih | broken _ _ _ ih =>
    exact ih hfault
  | redeclared =>
    cases hfault
    exact absurd ⟨_, rfl⟩ hf
  | mismatched hkind =>
    cases hfault
    simpa [Fault.expected] using hkind
  | @refused host n rest s hchoose =>
    cases hfault
    refine ⟨expected_ne_nil n, fun hmem => ?_⟩
    obtain ⟨alt, halt, hselects⟩ := List.any_eq_true.mp (List.mem_filter.mp hmem).2
    have hsome := programLanguage_predictive.choose?_of_selects halt hselects
    cases hchoose.symm.trans hsome

/-- A run that fails without a token awaits what its fault expects. -/
theorem Runs.awaits (h : programLanguage.Runs host symbols s ds ts s' fault)
    (hhost : programGrammar.Ends host symbols) (hfault : fault = some f) (hts : ts = [])
    (hkind : kind ∈ f.expected) : programLanguage.awaits kind symbols = true := by
  induction h with
  | nil => cases hfault
  | ended _ hrest =>
    obtain rfl := rest_eq_nil_of_ends hhost
    cases hrest
    cases hfault
  | matched => cases hts
  | redeclared => cases hts
  | mismatched =>
    cases hfault
    simpa [Language.awaits, Fault.expected, eq_comm] using hkind
  | refused =>
    cases hfault
    simp [Language.awaits, (List.mem_filter.mp hkind).2]
  | @vanished host n rest s s' ds ts fault hchoose _ ih =>
    have hnullable : programLanguage.lookahead.isNullable n = true :=
      Grammar.nullableClosed_nullable n [] (mem_alternatives_of_choose? hchoose) rfl
    simp [Language.awaits, hnullable, ih hhost.tail hfault hts]
  | called hchoose hne hcall =>
    have halt := mem_alternatives_of_choose? hchoose
    exact absurd (List.append_eq_nil_iff.mp hts).1
      (hcall.ne_nil_of_done (ne_program_of_ends hhost) halt hne)
  | broken hchoose _ _ ih =>
    have halt := mem_alternatives_of_choose? hchoose
    have hadmits := admits_of_awaits (ne_program_of_ends hhost) halt
      (ih (Grammar.ends_of_mem halt) hfault hts)
    simp [Language.awaits, hadmits]

end Language

end TopDown
