import TopDown.Proofs.Derivation.Expected
import TopDown.Proofs.Derivation.Levels
import TopDown.Proofs.Parse.Locality

/-!
# Resumed runs

A run that fails at a token has made its last choices on this token: it may have taken empty
alternatives since it consumed the one before. With an expected kind in the place of this token all
choices are the same, up to the place of the error, and there the kind is taken: the run that has it
ahead derives the same, but for the error, and goes on at this place.
-/

namespace TopDown

open TopDown.Derivation

namespace State

theorem kind_facing_eq (s : State) (ahead : List Token) :
    (s.facing ahead).kind = Token.firstKind ahead :=
  kind_eq_firstKind _

end State

namespace Language

variable {host n : Nonterminal} {symbols : List (Symbol Nonterminal)} {s s' : State}
  {ds : List (Derivation Nonterminal)} {ts ahead : List Token} {fault : Option Fault}

/-! ## Runs that are done, before another token -/

/-- A run that consumes a token meets it in the same way, whatever comes after. -/
theorem Runs.kind_facing (h : programLanguage.Runs host symbols s ds ts s' fault) (hts : ts ≠ [])
    (ahead : List Token) : (s.facing (ts ++ ahead)).kind = s.kind := by
  rw [State.kind_facing_eq, s.kind_eq_firstKind, h.consumes.1]
  cases ts with
  | nil => exact absurd rfl hts
  | cons t ts => rfl

/-- A run that is done does not see what comes after the tokens that are consumed next. -/
theorem Runs.facing_before {us left : List Token}
    (h : programLanguage.Runs host symbols s ds ts s' none) (hus : us ≠ [])
    (hleft : s'.cursor.rest = us ++ left) (ahead : List Token) :
    programLanguage.Runs host symbols (s.facing (ts ++ (us ++ ahead))) ds ts
      (s'.facing (us ++ ahead)) none := by
  refine h.facing (Or.inr ?_)
  rw [hleft, List.head?_append_of_ne_nil _ hus, List.head?_append_of_ne_nil _ hus]

/-- Where the rest of the symbols consumes nothing it vanishes, so that what may come after the
symbols follows the non-terminal before. -/
theorem Runs.mem_followSet {rest : List (Symbol Nonterminal)} {kind : Kind}
    (h : programLanguage.Runs host rest s ds [] s' none)
    (hhost : programGrammar.Ends host (.nonterminal n :: rest)) (hn : host ≠ .program)
    (hkind : programLanguage.Follows (.nonterminal n :: rest) kind) :
    kind ∈ programLanguage.lookahead.followSet n :=
  hkind n rest List.suffix_rfl (h.vanishes_of_still (lacks_of_ends hn hhost.tail))

/-- A run that is done is done in the same way before any token that may follow its symbols. -/
theorem Runs.replay (h : programLanguage.Runs host symbols s ds ts s' fault)
    (hdone : fault = none) (hhost : programGrammar.Ends host symbols) (hn : host ≠ .program)
    (hahead : programLanguage.Follows symbols (Token.firstKind ahead)) :
    programLanguage.Runs host symbols (s.facing (ts ++ ahead)) ds ts (s'.facing ahead) none := by
  induction h with
  | nil => exact .nil
  | ended => exact absurd rfl (lacks_of_ends hn hhost _ List.mem_cons_self)
  | matched _ hkind henter _ ih =>
    exact .matched rfl hkind henter (ih hdone hhost.tail hn hahead.tail)
  | redeclared | mismatched | refused | broken => cases hdone
  | @vanished host n rest s s' ds ts fault hchoose hrest ih =>
    subst hdone
    refine .vanished ?_ (ih rfl hhost.tail hn hahead.tail)
    by_cases hts : ts = []
    · subst hts
      have hfollows := hrest.mem_followSet hhost hn hahead
      rw [List.nil_append, State.kind_facing_eq]
      apply programLanguage_predictive.choose?_of_selects (mem_alternatives_of_choose? hchoose)
      simp [Lookahead.selects, vanishes, hfollows]
    · rwa [hrest.kind_facing hts]
  | @called host n alt rest s s₁ s' ds es ts us fault hchoose hne hcall hrest ihc ihr =>
    subst hdone
    have halt := mem_alternatives_of_choose? hchoose
    have hname := ne_program_of_ends hhost
    have hts := hcall.ne_nil_of_done hname halt hne
    rw [List.append_assoc]
    refine .called (by rwa [hcall.kind_facing hts]) hne ?_ (ihr rfl hhost.tail hn hahead.tail)
    by_cases hus : us = []
    · subst hus
      have hfollows := hrest.mem_followSet hhost hn hahead
      exact ihc rfl (Grammar.ends_of_mem halt) hname
        (programLanguage_predictive.follows_alternative halt hfollows)
    · exact hcall.facing_before hus hrest.consumes.1 ahead

/-! ## Runs that fail, before an expected token -/

/-- The second derivations are the first with `mend` in the place of the error that ends them, and
perhaps with more after it. -/
inductive Resumes {N : Type} (mend : List (Derivation N)) :
    List (Derivation N) → List (Derivation N) → Prop
  | here {f : Fault} : Resumes mend [.error f] mend
  | next {d : Derivation N} {ds es : List (Derivation N)} (h : Resumes mend ds es) :
      Resumes mend (d :: ds) (d :: es)
  | inside {n : N} {ds es rest : List (Derivation N)} (h : Resumes mend ds es) :
      Resumes mend [.production n ds] (.production n es :: rest)

/-- A call on a kind that selects an alternative has children that do not end in an error, unless it
has consumed a token. -/
theorem Runs.of_admitted {rest : List (Symbol Nonterminal)}
    (h : programLanguage.Runs host (.nonterminal n :: rest) s ds ts s' fault) (hn : n ≠ .program)
    (hadmits : programLanguage.admits n s.kind = true)
    (hchoice : ∀ alt, programGrammar.alternatives n ≠ [alt]) :
    ∃ children es last, ds = .production n children :: es ∧ children.getLast? = some last ∧
      (ts = [] → ∀ f, last ≠ .error f) := by
  cases h with
  | refused hnone =>
    obtain ⟨alt, halt, hselects⟩ := List.any_eq_true.mp hadmits
    cases hnone.symm.trans (programLanguage_predictive.choose?_of_selects halt hselects)
  | vanished => exact ⟨_, _, _, rfl, rfl, by simp⟩
  | called hchoose hne hcall =>
    have hts := hcall.ne_nil_of_done hn (mem_alternatives_of_choose? hchoose) hne
    exact ⟨_, _, _, rfl, List.getLast?_eq_some_getLast (hcall.derivations_ne_nil hne),
      by simp [hts]⟩
  | broken hchoose hne hcall =>
    refine ⟨_, _, _, rfl, List.getLast?_eq_some_getLast (hcall.derivations_ne_nil hne), ?_⟩
    rintro rfl
    exact absurd (hcall.only_of_still hn hchoose hne) (hchoice _)

/-- What vanishes on the token that the rest fails at, vanishes on an expected kind in its place. -/
theorem Runs.choose?_facing {rest : List (Symbol Nonterminal)} {f : Fault}
    (h : programLanguage.Runs host rest s ds ts s' (some f))
    (hhost : programGrammar.Ends host (.nonterminal n :: rest))
    (hahead : Token.firstKind ahead ∈ f.expected)
    (hchoose : programLanguage.choose? n s.kind = some []) :
    programLanguage.choose? n (s.facing (ts ++ ahead)).kind = some [] := by
  by_cases hts : ts = []
  · subst hts
    have halt := mem_alternatives_of_choose? hchoose
    have hnullable : programLanguage.lookahead.isNullable n = true :=
      Grammar.nullableClosed_nullable n [] halt rfl
    have hawaits := h.awaits hhost.tail rfl rfl hahead
    have hfollows := mem_followSet_of_awaits hhost hnullable hawaits
    rw [List.nil_append, State.kind_facing_eq]
    apply programLanguage_predictive.choose?_of_selects halt
    simp [Lookahead.selects, vanishes, hfollows]
  · rwa [h.kind_facing hts]

/-- What is done before the rest fails, is done in the same way with an expected kind in the place
of the token that it fails at. -/
theorem Runs.replay_before {alt rest : List (Symbol Nonterminal)} {s₁ : State}
    {es : List (Derivation Nonterminal)} {us : List Token} {f : Fault}
    (hcall : programLanguage.Runs n alt s ds ts s₁ none)
    (hrest : programLanguage.Runs host rest s₁ es us s' (some f))
    (hhost : programGrammar.Ends host (.nonterminal n :: rest))
    (halt : alt ∈ programGrammar.alternatives n) (hahead : Token.firstKind ahead ∈ f.expected) :
    programLanguage.Runs n alt (s.facing (ts ++ (us ++ ahead))) ds ts (s₁.facing (us ++ ahead))
      none := by
  by_cases hus : us = []
  · subst hus
    have hawaits := hrest.awaits hhost.tail rfl rfl hahead
    exact hcall.replay rfl (Grammar.ends_of_mem halt) (ne_program_of_ends hhost)
      (follows_of_awaits hhost halt hawaits)
  · exact hcall.facing_before hus hrest.consumes.1 ahead

/-- With an expected kind in the place of the token that a run fails at, a run derives the same up
to the error. What it has there instead does not end in an error, unless the run has gone on to
consume a token. -/
theorem Runs.resumes (h : programLanguage.Runs host symbols s ds ts s' fault)
    (hhost : programGrammar.Ends host symbols) {f : Fault} (hfault : fault = some f)
    (hahead : Token.firstKind ahead ∈ f.expected) {es : List (Derivation Nonterminal)}
    {us : List Token} {s'' : State} {fault' : Option Fault}
    (h' : programLanguage.Runs host symbols (s.facing (ts ++ ahead)) es us s'' fault') :
    ∃ mend more last, us = ts ++ more ∧ Resumes mend ds es ∧ mend.getLast? = some last ∧
      (more = [] → ∀ f, last ≠ .error f) := by
  induction h generalizing ahead es us s'' fault' with
  | nil => cases hfault
  | ended _ hrest =>
    obtain rfl := rest_eq_nil_of_ends hhost
    cases hrest
    cases hfault
  | @matched host kind rest s s' t left scope ds ts fault hs hkind henter hrest ih =>
    cases h' with
    | ended hs' => cases hs'
    | matched hs' _ henter' hrest' =>
      obtain ⟨rfl, rfl⟩ := List.cons.inj hs'
      obtain rfl := Except.ok.inj (henter.symm.trans henter')
      obtain ⟨mend, more, last, rfl, hresumes, hlast⟩ := ih hhost.tail hfault hahead hrest'
      exact ⟨mend, more, last, rfl, hresumes.next, hlast⟩
    | redeclared hs' _ henter' =>
      obtain ⟨rfl, rfl⟩ := List.cons.inj hs'
      cases henter.symm.trans henter'
    | mismatched hkind' => exact absurd hkind hkind'
  | redeclared =>
    cases hfault
    cases hahead
  | @mismatched host kind rest s hkind =>
    cases hfault
    have hfirst : Token.firstKind ahead = kind := List.mem_singleton.mp hahead
    cases h' with
    | ended _ hrest' =>
      obtain rfl := rest_eq_nil_of_ends hhost
      cases hrest'
      exact ⟨_, [], _, rfl, .here, rfl, by simp⟩
    | matched =>
      exact ⟨_, _, _, rfl, .here, List.getLast?_eq_some_getLast (List.cons_ne_nil _ _), by simp⟩
    | redeclared => exact ⟨_, _, _, rfl, .here, rfl, by simp⟩
    | mismatched hkind' => exact absurd ((State.kind_facing_eq s ahead).trans hfirst) hkind'
  | @refused host n rest s hchoose =>
    cases hfault
    have hadmits : programLanguage.admits n (s.facing ahead).kind = true := by
      rw [s.kind_facing_eq]
      exact (List.mem_filter.mp hahead).2
    have hchoice (alt : Alternative Nonterminal) : programGrammar.alternatives n ≠ [alt] :=
      fun honly => by cases hchoose.symm.trans (choose?_of_single honly s.kind)
    obtain ⟨children, rest, last, rfl, hlast⟩ :=
      h'.of_admitted (ne_program_of_ends hhost) hadmits hchoice
    exact ⟨children, us, last, rfl, .inside .here, hlast⟩
  | @vanished host n rest s s' ds ts fault hchoose hrest ih =>
    subst hfault
    have hchoose' := hrest.choose?_facing hhost hahead hchoose
    cases h' with
    | refused hnone => cases hnone.symm.trans hchoose'
    | vanished _ hrest' =>
      obtain ⟨mend, more, last, hus, hresumes, hlast⟩ := ih hhost.tail rfl hahead hrest'
      exact ⟨mend, more, last, hus, hresumes.next, hlast⟩
    | called hchosen hne | broken hchosen hne =>
      obtain rfl := Option.some.inj (hchosen.symm.trans hchoose')
      exact absurd rfl hne
  | @called host n alt rest s s₁ s' ds es' ts us' fault hchoose hne hcall hrest ihc ihr =>
    subst hfault
    have halt := mem_alternatives_of_choose? hchoose
    rw [List.append_assoc] at h'
    have hchoose' : programLanguage.choose? n (s.facing (ts ++ (us' ++ ahead))).kind =
        some alt := by
      rwa [hcall.kind_facing (hcall.ne_nil_of_done (ne_program_of_ends hhost) halt hne)]
    have hcall' := hcall.replay_before hrest hhost halt hahead
    rcases h'.of_chosen hchoose' hne with
      ⟨children, es, us₁, s₂, us₂, rfl, rfl, hdone, hrest'⟩ | ⟨children, f', rfl, rfl, hfails⟩
    · obtain ⟨rfl, rfl, rfl, _⟩ := hdone.unique programLanguage_progressive
        programLanguage_endsRecursive hcall' (Grammar.ends_of_mem halt)
      obtain ⟨mend, more, last, rfl, hresumes, hlast⟩ := ihr hhost.tail rfl hahead hrest'
      exact ⟨mend, more, last, (List.append_assoc _ _ _).symm, hresumes.next, hlast⟩
    · obtain ⟨_, _, _, hnone⟩ := hfails.unique programLanguage_progressive
        programLanguage_endsRecursive hcall' (Grammar.ends_of_mem halt)
      cases hnone
  | @broken host n alt rest s s' ds ts f' hchoose hne hcall ih =>
    have halt := mem_alternatives_of_choose? hchoose
    have hchoose' : programLanguage.choose? n (s.facing (ts ++ ahead)).kind = some alt := by
      by_cases hts : ts = []
      · subst hts
        have honly := hcall.only_of_still (ne_program_of_ends hhost) hchoose hne
        exact choose?_of_single honly _
      · rwa [hcall.kind_facing hts]
    rcases h'.of_chosen hchoose' hne with
      ⟨children, es, us₁, s₂, us₂, rfl, rfl, hdone, _⟩ | ⟨children, f'', rfl, rfl, hfails⟩
    · obtain ⟨mend, more, last, rfl, hresumes, hlast, hsound⟩ :=
        ih (Grammar.ends_of_mem halt) hfault hahead hdone
      refine ⟨mend, _, last, List.append_assoc _ _ _, hresumes.inside, hlast, fun hmore => ?_⟩
      exact hsound (List.append_eq_nil_iff.mp hmore).1
    · obtain ⟨mend, more, last, hus, hresumes, hlast⟩ :=
        ih (Grammar.ends_of_mem halt) hfault hahead hfails
      exact ⟨mend, more, last, hus, hresumes.inside, hlast⟩

end Language

end TopDown
