import TopDown.Proofs.Derivation.Word
import TopDown.Proofs.Grammar.Program

/-!
# Single calls

A run of one call is a choice and then a run of the chosen alternative. What fault a run ends with
says where it ended: unless it is about a second declaration, it is about the current token.
-/

namespace TopDown

open TopDown.Derivation

namespace Language

variable {N : Type} [DecidableEq N] {l : Language N} {host n : N} {kind : Kind}
  {rest symbols : List (Symbol N)} {s s' : State} {ds : List (Derivation N)} {ts : List Token}
  {fault : Option Fault}

/-- An alternative that the kind does not select is chosen only if there is no other. -/
theorem selects_of_choose? {alt : Alternative N} (h : l.choose? n kind = some alt) :
    l.lookahead.selects n kind alt = true ∨ l.grammar.alternatives n = [alt] := by
  unfold choose? at h
  split at h
  · next only hone =>
    obtain rfl := Option.some.inj h
    exact Or.inr hone
  · exact Or.inl (List.find?_some h)

/-- The only alternative is chosen whatever the kind. -/
theorem choose?_of_single {alt : Alternative N} (h : l.grammar.alternatives n = [alt])
    (kind : Kind) : l.choose? n kind = some alt := by
  rw [choose?, h]

/-- A call refuses the current token, or takes an empty alternative, or works through the
alternative that it has chosen. -/
theorem Runs.of_call (h : l.Runs host [.nonterminal n] s ds ts s' fault) :
    ∃ children, ds = [.production n children] ∧
      ((l.choose? n s.kind = none ∧ ts = [] ∧ s' = s ∧
          ∃ f, f = .noAlternative (l.expected n) s.cursor.current ∧ fault = some f ∧
            children = [.error f]) ∨
        (l.choose? n s.kind = some [] ∧ ts = [] ∧ s' = s ∧ fault = none ∧ children = [.empty]) ∨
        ∃ alt, l.choose? n s.kind = some alt ∧ alt ≠ [] ∧ l.Runs n alt s children ts s' fault) := by
  cases h with
  | refused hchoose => exact ⟨_, rfl, Or.inl ⟨hchoose, rfl, rfl, _, rfl, rfl, rfl⟩⟩
  | vanished hchoose hnil =>
    cases hnil
    exact ⟨_, rfl, Or.inr (Or.inl ⟨hchoose, rfl, rfl, rfl, rfl⟩)⟩
  | called hchoose halt hcall hnil =>
    cases hnil
    rw [List.append_nil]
    exact ⟨_, rfl, Or.inr (Or.inr ⟨_, hchoose, halt, hcall⟩)⟩
  | broken hchoose halt hcall => exact ⟨_, rfl, Or.inr (Or.inr ⟨_, hchoose, halt, hcall⟩)⟩

/-- A run that starts with a call is done with the call and goes on, or the call fails. -/
theorem Runs.of_cons (h : l.Runs host (.nonterminal n :: rest) s ds ts s' fault) :
    (∃ d es ts₁ s₁ us, l.Runs host [.nonterminal n] s [d] ts₁ s₁ none ∧
        l.Runs host rest s₁ es us s' fault ∧ ds = d :: es ∧ ts = ts₁ ++ us) ∨
      ∃ d f, fault = some f ∧ ds = [d] ∧ l.Runs host [.nonterminal n] s [d] ts s' (some f) := by
  cases h with
  | refused hchoose => exact Or.inr ⟨_, _, rfl, rfl, .refused hchoose⟩
  | vanished hchoose hrest =>
    exact Or.inl ⟨_, _, [], s, ts, .vanished hchoose .nil, hrest, rfl, rfl⟩
  | @called _ _ _ _ _ _ _ _ _ ts us _ hchoose halt hcall hrest =>
    refine Or.inl ⟨_, _, ts, _, us, ?_, hrest, rfl, rfl⟩
    simpa using Runs.called hchoose halt hcall .nil
  | broken hchoose halt hcall => exact Or.inr ⟨_, _, rfl, rfl, .broken hchoose halt hcall⟩

/-- A run that starts with a call works through the alternative that the call chooses, and goes on
if this is done. -/
theorem Runs.of_chosen {alt : Alternative N}
    (h : l.Runs host (.nonterminal n :: rest) s ds ts s' fault)
    (hchoose : l.choose? n s.kind = some alt) (hne : alt ≠ []) :
    (∃ children es ts₁ s₁ us, ds = .production n children :: es ∧ ts = ts₁ ++ us ∧
        l.Runs n alt s children ts₁ s₁ none ∧ l.Runs host rest s₁ es us s' fault) ∨
      ∃ children f, ds = [.production n children] ∧ fault = some f ∧
        l.Runs n alt s children ts s' (some f) := by
  cases h with
  | refused hnone => cases hnone.symm.trans hchoose
  | vanished hempty =>
    obtain rfl := Option.some.inj (hempty.symm.trans hchoose)
    exact absurd rfl hne
  | called hchosen _ hcall hrest =>
    obtain rfl := Option.some.inj (hchosen.symm.trans hchoose)
    exact Or.inl ⟨_, _, _, _, _, rfl, rfl, hcall, hrest⟩
  | broken hchosen _ hcall =>
    obtain rfl := Option.some.inj (hchosen.symm.trans hchoose)
    exact Or.inr ⟨_, _, rfl, rfl, hcall⟩

/-- A fault that is not about a second declaration is about the token that the run stops at. -/
theorem Runs.token_of_fault (h : l.Runs host symbols s ds ts s' fault) {f : Fault}
    (hf : fault = some f) : (∃ r, f = .redeclared r) ∨ f.token = s'.cursor.current := by
  induction h with
  | nil => cases hf
  | ended _ _ ih => exact ih hf
  | matched _ _ _ _ ih => exact ih hf
  | redeclared =>
    cases hf
    exact Or.inl ⟨_, rfl⟩
  | mismatched =>
    cases hf
    exact Or.inr rfl
  | refused =>
    cases hf
    exact Or.inr rfl
  | vanished _ _ ih => exact ih hf
  | called _ _ _ _ _ ih => exact ih hf
  | broken _ _ _ ih => exact ih hf

/-- A run that consumes nothing leaves the state as it was, and declares no name again. -/
theorem Runs.still (h : l.Runs host symbols s ds ts s' fault) (hts : ts = []) :
    s' = s ∧ ¬ ∃ r, fault = some (.redeclared r) := by
  induction h with
  | nil => simp
  | ended _ _ ih => exact ih hts
  | matched => cases hts
  | redeclared => cases hts
  | mismatched => simp
  | refused => simp
  | vanished _ _ ih => exact ih hts
  | called _ _ _ _ ihc ihr =>
    obtain ⟨hfirst, hrest⟩ := List.append_eq_nil_iff.mp hts
    obtain ⟨rfl, _⟩ := ihc hfirst
    exact ihr hrest
  | broken _ _ _ ih => exact ih hts

/-- Of symbols something is derived, if only an error. -/
theorem Runs.derivations_ne_nil (h : l.Runs host symbols s ds ts s' fault) (hne : symbols ≠ []) :
    ds ≠ [] := by
  cases h with
  | nil => exact absurd rfl hne
  | _ => simp

/-- Without an end of input in its word, a run derives the leaves of the tokens it consumes. -/
theorem Runs.leaves_eq (h : l.Runs host symbols s ds ts s' fault)
    (hend : .endOfInput ∉ wordOf ds) : leavesOf ds = ts.map Token.leaf := by
  obtain ⟨ends, hleaves, _⟩ := h.leaves
  have hnone : ends = 0 := by
    by_contra hne
    apply hend
    simp [wordOf, hleaves, endLeaf, hne]
  simpa [hnone] using hleaves

/-! ## Programs -/

/-- No run but that of a whole program meets an end of input. -/
theorem Runs.endOfInput_not_mem {host : Nonterminal} {symbols : List (Symbol Nonterminal)}
    {ds : List (Derivation Nonterminal)}
    (h : programLanguage.Runs host symbols s ds ts s' fault)
    (hsymbols : ∀ symbol ∈ symbols, Grammar.lacks (· ≠ .program) .endOfInput symbol) :
    .endOfInput ∉ wordOf ds := by
  obtain ⟨back, hyields, _⟩ := h.yields programGrammar_productive
  intro hmem
  exact endOfInput_not_mem_of_lacks hyields hsymbols (List.mem_append_left back hmem)

/-- The word of such a run is that of its tokens. -/
theorem Runs.wordOf_eq {host : Nonterminal} {symbols : List (Symbol Nonterminal)}
    {ds : List (Derivation Nonterminal)}
    (h : programLanguage.Runs host symbols s ds ts s' fault)
    (hsymbols : ∀ symbol ∈ symbols, Grammar.lacks (· ≠ .program) .endOfInput symbol) :
    wordOf ds = ts.map Token.kind := by
  rw [wordOf, h.leaves_eq (h.endOfInput_not_mem hsymbols), List.map_map]
  rfl

/-- The symbols of such a run vanish if it is done and consumes nothing. -/
theorem Runs.vanishes_of_still {host : Nonterminal} {symbols : List (Symbol Nonterminal)}
    {ds : List (Derivation Nonterminal)}
    (h : programLanguage.Runs host symbols s ds [] s' none)
    (hsymbols : ∀ symbol ∈ symbols, Grammar.lacks (· ≠ .program) .endOfInput symbol) :
    vanishes programLanguage.lookahead.isNullable symbols = true := by
  obtain ⟨back, hyields, hdone⟩ := h.yields programGrammar_productive
  rw [hdone rfl, List.append_nil, h.wordOf_eq hsymbols] at hyields
  exact Grammar.vanishes_of_yields_nil hyields

end Language

end TopDown
