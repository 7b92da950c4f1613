import TopDown.Proofs.Derivation.Expected
import TopDown.Proofs.Parse.Acceptance
import TopDown.Proofs.Parse.Limit
import TopDown.Proofs.Parse.Message

/-!
# Trailing tokens

What comes after a whole program does not fit there, wherever the parse notices it: in an expression
that could go on, in a list of statements, or in the program itself. At each of these places the end
of all tokens would have fitted, so that a message about such a token names end-of-input.
-/

namespace TopDown

open TopDown.Derivation

namespace Language

variable {host n : Nonterminal} {alt : Alternative Nonterminal}
  {symbols rest : List (Symbol Nonterminal)} {s s₁ s' : State}
  {ds es : List (Derivation Nonterminal)} {ts us : List Token} {fault : Option Fault} {f : Fault}
  {word first second front back : List Kind}

/-- Nothing that a call derives holds an end of input. -/
theorem endOfInput_not_mem_of_alternative (hn : n ≠ .program)
    (halt : alt ∈ programGrammar.alternatives n) (h : programGrammar.Yields alt word) :
    .endOfInput ∉ word :=
  endOfInput_not_mem_of_lacks h (lacks_endOfInput hn halt)

/-- Before an end of input a call yields nothing. -/
theorem eq_nil_of_prefix (hn : n ≠ .program) (halt : alt ∈ programGrammar.alternatives n)
    (h : programGrammar.Yields alt first) (hseen : [.endOfInput] <+: first ++ back) :
    first = [] := by
  cases first with
  | nil => rfl
  | cons k first =>
    obtain rfl := (List.cons_prefix_cons.mp hseen).1
    exact absurd List.mem_cons_self (endOfInput_not_mem_of_alternative hn halt h)

/-- A run starts with the first kind of its word. -/
theorem Runs.head_of_word (h : programLanguage.Runs host symbols s ds ts s' fault)
    (hne : wordOf ds ≠ []) (hseen : wordOf ds <+: word) : word.head? = some s.kind := by
  obtain ⟨more, rfl⟩ := hseen
  have hhead := h.head
  rw [List.head?_append_of_ne_nil _ hne] at hhead ⊢
  exact hhead

/-- A call does not stop before a kind that a word of its alternative goes on with. -/
theorem Runs.not_short {extra : List Kind} (h : programLanguage.Runs n alt s ds ts s₁ none)
    (halt : alt ∈ programGrammar.alternatives n)
    (hword : programGrammar.Yields alt (wordOf ds ++ extra))
    (hkind : ∀ k ∈ extra.head?, k = s₁.kind) : extra = [] := by
  cases extra with
  | nil => rfl
  | cons k extra =>
    have hseen : wordOf ds ++ [s₁.kind] <+: (wordOf ds ++ k :: extra) ++ [] := by
      simp [hkind k rfl]
    have hsame := (h.forced programLanguage_predictive (Grammar.ends_of_mem halt) hword (by simp)
      hseen).1 rfl
    simp at hsame

/-- A call does not go on after a word of its alternative with a kind that may follow there. -/
theorem Runs.not_long {extra : List Kind} (h : programLanguage.Runs n alt s ds ts s₁ none)
    (halt : alt ∈ programGrammar.alternatives n) (hfirst : programGrammar.Yields alt first)
    (hword : wordOf ds = first ++ extra)
    (hfollows : ∀ k ∈ extra.head?, programLanguage.Follows alt k) : extra = [] := by
  cases extra with
  | nil => rfl
  | cons k extra =>
    have hafter : ∀ k' ∈ (k :: extra ++ [s₁.kind]).head?, programLanguage.Follows alt k' :=
      fun k' hk' => hfollows k' hk'
    have hseen : wordOf ds ++ [s₁.kind] <+: first ++ (k :: extra ++ [s₁.kind]) := by
      rw [hword, List.append_assoc]
    have hsame := (h.forced programLanguage_predictive (Grammar.ends_of_mem halt) hfirst hafter
      hseen).1 rfl
    rw [hword] at hsame
    simp at hsame

/-- A call that is done has found the word that its alternative yields, if what the run sees agrees
with this word and the end of input comes later. -/
theorem Runs.forced_before (hn : n ≠ .program)
    (hcall : programLanguage.Runs n alt s ds ts s₁ none)
    (hrest : programLanguage.Runs host rest s₁ es us s' fault)
    (halt : alt ∈ programGrammar.alternatives n) (hfirst : programGrammar.Yields alt first)
    (hafter : ∀ k ∈ back.head?, programLanguage.Follows alt k)
    (hseen : wordOf ds ++ (wordOf es ++ [.endOfInput]) <+: first ++ back) : first = wordOf ds := by
  rcases List.prefix_or_prefix_of_prefix ((List.prefix_append _ _).trans hseen)
    (List.prefix_append first back) with hshort | hlong
  · obtain ⟨extra, rfl⟩ := hshort
    rw [List.append_assoc, List.prefix_append_right_inj] at hseen
    have hkind : ∀ k ∈ extra.head?, k = s₁.kind := by
      intro k hk
      obtain ⟨later, rfl⟩ := List.head?_eq_some_iff.mp hk
      by_cases hword : wordOf es = []
      · rw [hword, List.nil_append, List.cons_append, List.cons_prefix_cons] at hseen
        have hmem : Kind.endOfInput ∈ wordOf ds ++ k :: later := by simp [hseen.1]
        exact absurd hmem (endOfInput_not_mem_of_alternative hn halt hfirst)
      · exact Option.some.inj (hrest.head_of_word hword ((List.prefix_append _ _).trans hseen))
    rw [hcall.not_short halt hfirst hkind, List.append_nil]
  · obtain ⟨extra, hextra⟩ := hlong
    have hfollows : ∀ k ∈ extra.head?, programLanguage.Follows alt k := by
      intro k hk
      obtain ⟨later, rfl⟩ := List.head?_eq_some_iff.mp hk
      rw [← hextra, List.append_assoc, List.prefix_append_right_inj] at hseen
      obtain ⟨more, rfl⟩ := hseen
      exact hafter k rfl
    rw [← hextra, hcall.not_long halt hfirst hextra.symm hfollows, List.append_nil]

/-- Where the tokens that a run has consumed yield from its symbols with an end of input after them,
an end of input is among what the run expects. -/
theorem Runs.expects_end (h : programLanguage.Runs host symbols s ds ts s' fault)
    (hhost : programGrammar.Ends host symbols) (hfault : fault = some f)
    (hf : ¬ ∃ r, f = .redeclared r) (hfront : programGrammar.Yields symbols front)
    (hback : ∀ k ∈ back.head?, programLanguage.Follows symbols k)
    (hseen : wordOf ds ++ [.endOfInput] <+: front ++ back) : .endOfInput ∈ f.expected := by
  induction h generalizing front back with
  | nil => cases hfault
  | ended _ hrest =>
    obtain rfl := rest_eq_nil_of_ends hhost
    cases hrest
    cases hfault
  | matched _ _ _ _ ih =>
    obtain ⟨front, rfl, hrest⟩ := Grammar.yields_terminal_iff.mp hfront
    rw [wordOf_terminal, List.cons_append, List.cons_append, List.cons_prefix_cons] at hseen
    exact ih hhost.tail hfault hrest (fun k hk => (hback k hk).tail) hseen.2
  | redeclared =>
    cases hfault
    exact absurd ⟨_, rfl⟩ hf
  | mismatched =>
    cases hfault
    obtain ⟨front, rfl, _⟩ := Grammar.yields_terminal_iff.mp hfront
    simp only [wordOf_error, wordOf_nil, List.nil_append, List.cons_append,
      List.cons_prefix_cons] at hseen
    simp [Fault.expected, hseen.1]
  | @refused host n rest s =>
    cases hfault
    obtain ⟨alt, halt, first, second, rfl, hfirst, hsecond⟩ :=
      Grammar.yields_nonterminal_iff.mp hfront
    have hk : (first ++ (second ++ back)).head? = some .endOfInput := by
      obtain ⟨more, hmore⟩ := hseen
      rw [← List.append_assoc, ← hmore]
      simp
    have hselects := (programLanguage_predictive.selects_of_yields hhost halt hfirst hsecond hback
      hk).1
    exact List.mem_filter.mpr ⟨Kind.mem_all _, List.any_eq_true.mpr ⟨alt, halt, hselects⟩⟩
  | @vanished host n rest s s' ds ts fault hchoose hrest ih =>
    obtain ⟨alt, halt, first, second, rfl, hfirst, hsecond⟩ :=
      Grammar.yields_nonterminal_iff.mp hfront
    rw [wordOf_production, wordOf_empty, wordOf_nil, List.nil_append, List.append_assoc] at hseen
    have hempty : first = [] := by
      by_cases hword : wordOf ds = []
      · rw [hword, List.nil_append] at hseen
        exact eq_nil_of_prefix (ne_program_of_ends hhost) halt hfirst hseen
      · have hk := hrest.head_of_word hword ((List.prefix_append _ _).trans hseen)
        obtain ⟨rfl, _⟩ := programLanguage_predictive.eq_of_choose? hchoose hhost halt hfirst hsecond
          hback hk
        exact Grammar.yields_nil_iff.mp hfirst
    subst hempty
    exact ih hhost.tail hfault hsecond (fun k h => (hback k h).tail) hseen
  | @called host n alt rest s s₁ s' ds es ts us fault hchoose hne hcall hrest ihc ihr =>
    obtain ⟨other, hother, first, second, rfl, hfirst, hsecond⟩ :=
      Grammar.yields_nonterminal_iff.mp hfront
    have hname := ne_program_of_ends hhost
    have halt := mem_alternatives_of_choose? hchoose
    rw [wordOf_production, List.append_assoc, List.append_assoc] at hseen
    have hword : wordOf ds ≠ [] := by
      rw [hcall.wordOf_eq (lacks_endOfInput hname halt)]
      simpa using hcall.ne_nil_of_done hname halt hne
    have hk := hcall.head_of_word hword ((List.prefix_append _ _).trans hseen)
    obtain ⟨rfl, hafter⟩ := programLanguage_predictive.eq_of_choose? hchoose hhost hother hfirst
      hsecond hback hk
    obtain rfl := hcall.forced_before hname hrest halt hfirst hafter hseen
    rw [List.prefix_append_right_inj] at hseen
    exact ihr hhost.tail hfault hsecond (fun k h => (hback k h).tail) hseen
  | @broken host n alt rest s s' ds ts f' hchoose hne hcall ih =>
    obtain ⟨other, hother, first, second, rfl, hfirst, hsecond⟩ :=
      Grammar.yields_nonterminal_iff.mp hfront
    have hname := ne_program_of_ends hhost
    have halt := mem_alternatives_of_choose? hchoose
    rw [wordOf_production, wordOf_nil, List.append_nil, List.append_assoc] at hseen
    by_cases hword : wordOf ds = []
    · -- A call that has not consumed a token had no choice, and its alternative does not vanish.
      rw [hword, List.nil_append] at hseen
      obtain rfl := eq_nil_of_prefix hname hother hfirst hseen
      rw [hcall.wordOf_eq (lacks_endOfInput hname halt), List.map_eq_nil_iff] at hword
      subst hword
      rw [hcall.only_of_still hname hchoose hne, List.mem_singleton] at hother
      subst hother
      have hvanishes := Grammar.vanishes_of_yields_nil hfirst
      cases hvanishes.symm.trans (not_vanishes_of_ne_nil halt hne)
    · have hk := hcall.head_of_word hword ((List.prefix_append _ _).trans hseen)
      obtain ⟨rfl, hafter⟩ := programLanguage_predictive.eq_of_choose? hchoose hhost hother hfirst
        hsecond hback hk
      exact ih (Grammar.ends_of_mem halt) hfault hfirst hafter hseen

end Language

/-- If a parse stops right after the tokens of a whole program, at a token, then it is this token
that does not fit, and the message names end-of-input among the kinds that were expected. -/
theorem parse_expects_end_after_program {p r : List Token} {t : Token} {depth depth' : Nat}
    {session session' : Session} {f : Failure} (hp : .endOfInput ∉ p.map Token.kind)
    (haccepted : parse p depth = some (session, none))
    (h : parse (p ++ t :: r) depth' = some (session', some f))
    (hconsumed : session'.state.cursor.consumed = p.length) :
    f.cause = .mismatch ∧ f.token = some t ∧ (∃ kinds, f.Expects kinds) ∧
      ∀ kinds, f.Expects kinds → .endOfInput ∈ kinds := by
  obtain ⟨_, ts₀, fault₀, hrun₀, _, _, hfault₀⟩ := parse_eq_some haccepted
  obtain rfl := Option.map_eq_none_iff.mp hfault₀.symm
  obtain ⟨hyields, hts₀⟩ := hrun₀.body_of_done
  have hfind : p.find? (·.kind = .endOfInput) = none := by
    simpa using hp
  rw [Token.body_of_not_mem hp] at hyields hts₀
  rw [hfind, Option.toList_none, List.append_nil] at hts₀
  subst hts₀
  have hnodup := hrun₀.nodup_declared_iff.mpr (by simp)
  obtain ⟨ds, ts, fault, hrun, ⟨htokens, hlength⟩, _, hfailure⟩ := parse_eq_some h
  obtain ⟨fault, rfl, rfl⟩ := Option.map_eq_some_iff.mp hfailure.symm
  obtain ⟨rfl, hrest⟩ := List.append_inj htokens (hconsumed.symm.trans hlength)
  have hnot : ¬ ∃ r, fault = .redeclared r := by
    have hnone := hrun.nodup_declared_iff.mp hnodup
    simpa using hnone
  have hseen : wordOf ds ++ [.endOfInput] <+: (ts₀.map Token.kind ++ [.endOfInput]) ++ [] := by
    rw [hrun.wordOf_eq_of_failed, List.append_nil]
  have hend : .endOfInput ∈ fault.expected :=
    hrun.expects_end ends_programSymbols rfl hnot (yields_programSymbols hyields) (by simp) hseen
  have htoken : fault.token = some t := by
    rw [(hrun.token_of_fault rfl).resolve_left hnot, Cursor.current, ← hrest]
    rfl
  have hexpects := Fault.expects hnot session'.tree.lastParent
  refine ⟨Fault.cause_eq_mismatch_iff.mpr hnot, htoken, ⟨_, hexpects⟩, fun kinds hkinds => ?_⟩
  rw [hkinds.unique hexpects]
  exact hend

/-- A parenthesis after `write 1` is met where the number could be multiplied, and the message names
end-of-input all the same. -/
theorem parse_expects_end_after_write :
    ∃ session f,
      parse [⟨.kwWrite, "write", 1, 1⟩, ⟨.number, "1", 1, 7⟩, ⟨.openParen, "(", 1, 8⟩] =
          some (session, some f) ∧
        f.token = some ⟨.openParen, "(", 1, 8⟩ ∧
        ∃ kinds, f.Expects kinds ∧ .endOfInput ∈ kinds := by
  have haccepted : (parse [⟨.kwWrite, "write", 1, 1⟩, ⟨.number, "1", 1, 7⟩]).map Prod.snd =
      some none := by
    rw [parse_eq_sets]
    decide +kernel
  have hfails :
      (parse [⟨.kwWrite, "write", 1, 1⟩, ⟨.number, "1", 1, 7⟩, ⟨.openParen, "(", 1, 8⟩]).map
        (fun p => (p.1.state.cursor.consumed, p.2.isSome)) = some (2, true) := by
    rw [parse_eq_sets]
    decide +kernel
  obtain ⟨⟨session, failure⟩, hparse, hdone⟩ := Option.map_eq_some_iff.mp haccepted
  obtain rfl : failure = none := hdone
  obtain ⟨⟨session', failure⟩, hparse', hanswer⟩ := Option.map_eq_some_iff.mp hfails
  obtain ⟨hconsumed, hsome⟩ := Prod.mk.inj hanswer
  obtain ⟨f, rfl⟩ := Option.isSome_iff_exists.mp hsome
  obtain ⟨_, htoken, ⟨kinds, hkinds⟩, hend⟩ :=
    parse_expects_end_after_program (by decide) hparse hparse' hconsumed
  exact ⟨session', f, hparse', htoken, kinds, hkinds, hend kinds hkinds⟩

end TopDown
