import TopDown.Proofs.Derivation.Call
import TopDown.Proofs.Derivation.Declarations

/-!
# Phrases

A call of any non-terminal but the start symbol consumes one phrase: if it is done, then the tokens
that it has consumed are generated by the non-terminal. And if some tokens ahead are, and what comes
after them may follow the non-terminal, then one kind of lookahead is enough to stop neither before
their end nor after it. Only a name that is declared already can get in the way.
-/

namespace TopDown

open TopDown.Derivation

/-- The tokens ahead begin with the kind that the cursor shows, and the end comes after them. -/
theorem State.kind_prefix (s : State) :
    [s.kind] <+: s.cursor.rest.map Token.kind ++ [.endOfInput] := by
  cases hrest : s.cursor.rest with
  | nil =>
    rw [kind_of_rest_eq_nil hrest]
    exact List.prefix_rfl
  | cons t left =>
    rw [kind_of_rest_eq_cons hrest]
    simp

/-- Of more tokens fewer names are declared. -/
theorem Token.declared_prefix {ts us : List Token} (h : ts <+: us) :
    declared ts <+: declared us := by
  obtain ⟨more, rfl⟩ := h
  rw [declared_append]
  exact List.prefix_append _ _

namespace Language

variable {n : Nonterminal} {alt : Alternative Nonterminal} {s s' : State}
  {ds : List (Derivation Nonterminal)} {ts w r : List Token} {fault : Option Fault}

/-- What may come after a phrase and the end of all tokens. -/
theorem head?_followed
    (hr : Token.firstKind r ∈ programLookahead.followSet n) :
    ∀ k ∈ (r.map Token.kind ++ [Kind.endOfInput]).head?,
      k ∈ programLanguage.lookahead.followSet n := by
  intro k hk
  cases r with
  | nil =>
    obtain rfl := Option.some.inj hk
    exact hr
  | cons t r =>
    obtain rfl := Option.some.inj hk
    exact hr

/-- The call chooses an alternative that yields the phrase ahead. -/
theorem choose?_of_generates (hs : s.cursor.rest = w ++ r)
    (hw : programGrammar.Generates n (w.map Token.kind))
    (hr : Token.firstKind r ∈ programLookahead.followSet n) :
    ∃ alt, programLanguage.choose? n s.kind = some alt ∧
      programGrammar.Yields alt (w.map Token.kind) := by
  obtain ⟨alt, halt, hyields⟩ :=
    Grammar.yields_singleton_iff.mp (Grammar.generates_iff_yields.mp hw)
  have hk : (w.map Token.kind ++ (r.map Token.kind ++ [Kind.endOfInput])).head? = some s.kind := by
    obtain ⟨more, hmore⟩ := s.kind_prefix
    rw [← List.append_assoc, ← List.map_append, ← hs, ← hmore]
    rfl
  have hselects := programLanguage_predictive.selects_of_word hyields (head?_followed hr) hk
  exact ⟨alt, programLanguage_predictive.choose?_of_selects halt hselects, hyields⟩

/-- A run of an alternative that yields the phrase ahead consumes the phrase, unless a second
declaration stops it within the phrase. -/
theorem Runs.takes (hn : n ≠ .program) (h : programLanguage.Runs n alt s ds ts s' fault)
    (halt : alt ∈ programGrammar.alternatives n) (hs : s.cursor.rest = w ++ r)
    (hw : programGrammar.Yields alt (w.map Token.kind))
    (hr : Token.firstKind r ∈ programLookahead.followSet n) :
    (fault = none → ts = w) ∧ ∀ f, fault = some f → (∃ r, f = .redeclared r) ∧ ts <+: w := by
  have hword : wordOf ds = ts.map Token.kind := h.wordOf_eq (lacks_endOfInput hn halt)
  have hrest := h.consumes.1
  have hseen : wordOf ds ++ [s'.kind] <+:
      w.map Token.kind ++ (r.map Token.kind ++ [.endOfInput]) := by
    rw [hword, ← List.append_assoc, ← List.map_append, ← hs, hrest, List.map_append,
      List.append_assoc, List.prefix_append_right_inj]
    exact s'.kind_prefix
  have hfollows : ∀ k ∈ (r.map Token.kind ++ [Kind.endOfInput]).head?,
      programLanguage.Follows alt k :=
    fun k hk => programLanguage_predictive.follows_alternative halt (head?_followed hr k hk)
  obtain ⟨hdone, hfault⟩ :=
    h.forced programLanguage_predictive (Grammar.ends_of_mem halt) hw hfollows hseen
  rw [hword] at hdone hfault
  have hsplit : w ++ r = ts ++ s'.cursor.rest := hs.symm.trans hrest
  constructor
  · intro hnone
    have hlength : w.length = ts.length := by
      simpa using congrArg List.length (hdone hnone)
    exact (List.append_inj_left hsplit hlength).symm
  · intro f hf
    obtain ⟨hredeclared, hprefix⟩ := hfault f hf
    refine ⟨hredeclared, ?_⟩
    have hle : ts.length ≤ w.length := by
      simpa using hprefix.length_le
    have hwhole : w <+: w ++ r := List.prefix_append w r
    have hfront : ts <+: w ++ r := hsplit ▸ List.prefix_append ts s'.cursor.rest
    exact List.prefix_of_prefix_length_le hfront hwhole hle

/-- No second declaration stops a run among tokens that declare new names only. -/
theorem Runs.not_redeclared {r : Redeclaration}
    (h : programLanguage.Runs n alt s ds ts s' (some (.redeclared r)))
    (halt : alt ∈ programGrammar.alternatives n) (hts : ts <+: w)
    (hdistinct : ((Token.declared w).map Token.lexeme).Nodup)
    (hnew : ∀ t ∈ Token.declared w, t.lexeme ∉ s.scope.names) : False := by
  have hprevious : Kind.endOfInput = .kwVar ↔ NameDue n alt :=
    iff_of_false (by decide) (not_nameDue_of_mem halt)
  have hscope : s'.scope.tokens ++ [r.again] = s.scope.tokens ++ Token.declared ts :=
    (h.declares (Grammar.ends_of_mem halt) hprevious).1
  obtain ⟨hfirst, hsame⟩ := h.first_mem_scope rfl
  obtain ⟨more, hmore⟩ := Token.declared_prefix hts
  have hall : (s'.scope.tokens ++ [r.again] ++ more).map Token.lexeme =
      s.scope.names ++ (Token.declared w).map Token.lexeme := by
    rw [hscope, List.append_assoc, hmore, List.map_append]
    rfl
  have hnodup : (s.scope.names ++ (Token.declared w).map Token.lexeme).Nodup := by
    refine List.nodup_append.mpr ⟨s.scope.distinct, hdistinct, ?_⟩
    intro name hname other hother hequal
    obtain ⟨t, ht, rfl⟩ := List.mem_map.mp hother
    exact hnew t ht (hequal ▸ hname)
  rw [← hall, List.map_append] at hnodup
  have hearlier := (List.nodup_append.mp hnodup).1
  rw [List.map_append, List.nodup_append] at hearlier
  exact hearlier.2.2 _ (List.mem_map_of_mem hfirst) r.again.lexeme (by simp) hsame

end Language

/-- A call that is done has consumed tokens that its non-terminal generates. Where tokens ahead are
generated, what comes after them follows the non-terminal and the names that they declare are new
and distinct, the call is done and has consumed just these tokens. -/
theorem call_consumes_phrase {depth : Nat} {n : Nonterminal} {s s' : State}
    {d : Derivation Nonterminal} {fault : Option Fault} (hn : n ≠ .program)
    (h : programLanguage.call depth n s = .settled d s' fault) :
    (fault = none →
      ∃ ts, s.cursor.rest = ts ++ s'.cursor.rest ∧
        s'.cursor.consumed = s.cursor.consumed + ts.length ∧
        programGrammar.Generates n (ts.map Token.kind)) ∧
      ∀ w r, s.cursor.rest = w ++ r → programGrammar.Generates n (w.map Token.kind) →
        Token.firstKind r ∈ programLookahead.followSet n →
        ((Token.declared w).map Token.lexeme).Nodup →
        (∀ t ∈ Token.declared w, t.lexeme ∉ s.scope.names) →
        fault = none ∧ s'.cursor = ⟨r, s.cursor.consumed + w.length⟩ := by
  obtain ⟨ts, hrun⟩ := Language.runs_of_call depth n n s d s' fault h
  obtain ⟨hrest, hconsumed⟩ := hrun.consumes
  constructor
  · rintro rfl
    refine ⟨ts, hrest, hconsumed, ?_⟩
    obtain ⟨back, hyields, hdone⟩ := hrun.yields programGrammar_productive
    rw [hdone rfl, List.append_nil, hrun.wordOf_eq (by simp [Grammar.lacks, hn])] at hyields
    exact Grammar.generates_iff_yields.mpr hyields
  · intro w r hs hw hr hdistinct hnew
    obtain ⟨alt, hchoose, hyields⟩ := Language.choose?_of_generates hs hw hr
    have halt := Language.mem_alternatives_of_choose? hchoose
    have htaken : fault = none ∧ ts = w := by
      obtain ⟨children, _, hcases⟩ := hrun.of_call
      rcases hcases with ⟨hnone, _⟩ | ⟨hempty, rfl, _, hfault, _⟩ | ⟨other, hother, _, hbelow⟩
      · cases hnone.symm.trans hchoose
      · obtain rfl := Option.some.inj (hempty.symm.trans hchoose)
        have hnil := Grammar.yields_nil_iff.mp hyields
        exact ⟨hfault, (List.map_eq_nil_iff.mp hnil).symm⟩
      · obtain rfl := Option.some.inj (hother.symm.trans hchoose)
        obtain ⟨hdone, hfails⟩ := hbelow.takes hn halt hs hyields hr
        cases fault with
        | none => exact ⟨rfl, hdone rfl⟩
        | some f =>
          obtain ⟨⟨r, rfl⟩, hprefix⟩ := hfails f rfl
          exact (hbelow.not_redeclared halt hprefix hdistinct hnew).elim
    obtain ⟨hfault, rfl⟩ := htaken
    have hleft : r = s'.cursor.rest := List.append_cancel_left (hs.symm.trans hrest)
    refine ⟨hfault, ?_⟩
    rw [hleft, ← hconsumed]

/-- `+ 2` is generated, since a call consumes it where nothing comes after it, and so a call
consumes just as much where `)` comes after it. -/
theorem call_consumes_sum :
    ∃ d s', programLanguage.call 4 .termTail
        (.start [⟨.plus, "+", 1, 1⟩, ⟨.number, "2", 1, 3⟩, ⟨.closeParen, ")", 1, 4⟩]) =
          .settled d s' none ∧
      s'.cursor = ⟨[⟨.closeParen, ")", 1, 4⟩], 2⟩ := by
  have hdone : (match programLanguage.call 4 .termTail
        (.start [⟨.plus, "+", 1, 1⟩, ⟨.number, "2", 1, 3⟩]),
      programLanguage.call 4 .termTail
        (.start [⟨.plus, "+", 1, 1⟩, ⟨.number, "2", 1, 3⟩, ⟨.closeParen, ")", 1, 4⟩]) with
      | .done _ s', .done _ _ => s'.cursor.rest.isEmpty
      | _, _ => false) = true := by
    rw [programLanguage_eq_sets]
    decide +kernel
  split at hdone
  · next _ s₁ d s' hfirst hcall =>
    have hgenerates : programGrammar.Generates .termTail [.plus, .number] := by
      obtain ⟨ts, hrest, _, hgenerates⟩ :=
        (@call_consumes_phrase 4 _ _ _ _ none (by decide) hfirst).1 rfl
      obtain rfl : _ = ts := by simpa [List.isEmpty_iff.mp hdone] using hrest
      exact hgenerates
    have hfollow : Kind.closeParen ∈ programLookahead.followSet .termTail := by
      unfold programLookahead
      rw [lookahead_programGrammar]
      decide +kernel
    have hphrase := (@call_consumes_phrase 4 _ _ _ _ none (by decide) hcall).2
      [⟨.plus, "+", 1, 1⟩, ⟨.number, "2", 1, 3⟩] [⟨.closeParen, ")", 1, 4⟩] rfl hgenerates hfollow
      (by decide) (by decide)
    exact ⟨d, s', hcall, hphrase.2⟩
  · cases hdone

end TopDown
