import TopDown.Proofs.Derivation.Word
import TopDown.Proofs.Grammar.Prediction

/-!
# Forced choices

With a prediction table, one kind of lookahead decides every choice: if what a run sees agrees with
some word that its symbols yield and with what comes after it, then each choice of the run is the
one that yields this word. So a run that is done has found the word itself, and no run stops at a
token that some word could go on with. That the run takes an empty alternative on a kind in FOLLOW,
whatever the context, is no harm: such a kind still does not fit at the place where the run then
stops.
-/

namespace TopDown

open TopDown.Derivation

/-- In a grammar with a prediction table every non-terminal that is used is defined. -/
theorem Grammar.mem_names_of_use {N : Type} [DecidableEq N] {g : Grammar N} {table : Prediction N}
    (h : g.prediction = .ok table) {host n : N} {alt rest : List (Symbol N)}
    (halt : alt ∈ g.alternatives host) (huse : .nonterminal n :: rest <:+ alt) : n ∈ g.names := by
  cases hundefined : g.undefined? with
  | some m => simp [Grammar.prediction, hundefined] at h
  | none =>
    have huses := undefined_eq_none_iff.mp hundefined
    exact huses ⟨n, rest, host⟩ (mem_occurrences_iff.mpr ⟨alt, halt, huse⟩)

/-- The symbols are the end of an alternative of the non-terminal. -/
def Grammar.Ends {N : Type} [DecidableEq N] (g : Grammar N) (host : N) (symbols : List (Symbol N)) :
    Prop :=
  ∃ alt ∈ g.alternatives host, symbols <:+ alt

theorem Grammar.Ends.tail {N : Type} [DecidableEq N] {g : Grammar N} {host : N} {symbol : Symbol N}
    {rest : List (Symbol N)} (h : g.Ends host (symbol :: rest)) : g.Ends host rest := by
  obtain ⟨alt, halt, hsuffix⟩ := h
  exact ⟨alt, halt, (List.suffix_cons symbol rest).trans hsuffix⟩

theorem Grammar.ends_of_mem {N : Type} [DecidableEq N] {g : Grammar N} {n : N} {alt : Alternative N}
    (halt : alt ∈ g.alternatives n) : g.Ends n alt :=
  ⟨alt, halt, List.suffix_rfl⟩

namespace Language

variable {N : Type} [DecidableEq N]

/-- One kind of lookahead decides: the language consults the sets of its own grammar, and the
grammar has a prediction table. -/
structure Predictive (l : Language N) : Prop where
  lookahead_eq : l.lookahead = l.grammar.lookahead
  table : ∃ table, l.grammar.prediction = .ok table

/-- Where all that comes after a non-terminal in the symbols can vanish, the kind follows it. -/
def Follows (l : Language N) (symbols : List (Symbol N)) (kind : Kind) : Prop :=
  ∀ n rest, .nonterminal n :: rest <:+ symbols → vanishes l.lookahead.isNullable rest = true →
    kind ∈ l.lookahead.followSet n

theorem Follows.tail {l : Language N} {symbol : Symbol N} {rest : List (Symbol N)} {kind : Kind}
    (h : l.Follows (symbol :: rest) kind) : l.Follows rest kind :=
  fun n after huse hend => h n after (huse.trans (List.suffix_cons symbol rest)) hend

variable {l : Language N} {host n : N} {alt rest : List (Symbol N)} {kind : Kind}
  {first second back : List Kind}

namespace Predictive

theorem choose?_of_selects (hl : l.Predictive) (halt : alt ∈ l.grammar.alternatives n)
    (hsel : l.lookahead.selects n kind alt = true) : l.choose? n kind = some alt := by
  unfold choose?
  split
  · next only hone =>
    rw [hone, List.mem_singleton] at halt
    rw [halt]
  · obtain ⟨table, htable⟩ := hl.table
    cases hfind : (l.grammar.alternatives n).find? (l.lookahead.selects n kind) with
    | none => simpa [hsel] using List.find?_eq_none.mp hfind alt halt
    | some other =>
      have hmem := List.mem_of_find?_eq_some hfind
      have hother := List.find?_some hfind
      rw [hl.lookahead_eq] at hsel hother
      rw [Grammar.eq_of_selects htable hmem halt hother hsel]

/-- What comes after a use of a non-terminal follows it. -/
theorem follows_use (hl : l.Predictive)
    (hhost : l.grammar.Ends host (.nonterminal n :: rest))
    (hsecond : l.grammar.Yields rest second)
    (hback : ∀ k ∈ back.head?, l.Follows (.nonterminal n :: rest) k)
    (hk : (second ++ back).head? = some kind) : kind ∈ l.lookahead.followSet n := by
  obtain ⟨table, htable⟩ := hl.table
  obtain ⟨whole, hwhole, huse⟩ := hhost
  have hn := Grammar.mem_names_of_use htable hwhole huse
  cases second with
  | nil =>
    apply hback kind hk n rest List.suffix_rfl
    rw [hl.lookahead_eq]
    exact Grammar.vanishes_of_yields_nil hsecond
  | cons k second =>
    obtain rfl : k = kind := Option.some.inj hk
    rw [hl.lookahead_eq]
    exact Grammar.mem_followSet hwhole huse hn (Or.inl (Grammar.canBegin_of_yields hsecond))

theorem follows_alternative (hl : l.Predictive) (halt : alt ∈ l.grammar.alternatives n)
    (hk : kind ∈ l.lookahead.followSet n) : l.Follows alt kind := by
  obtain ⟨table, htable⟩ := hl.table
  intro m after huse hend
  have hm := Grammar.mem_names_of_use htable halt huse
  rw [hl.lookahead_eq] at hend hk ⊢
  exact Grammar.mem_followSet halt huse hm (Or.inr ⟨hend, hk⟩)

/-- The lookahead selects the alternative that the word ahead comes from, if what comes after the
word follows the non-terminal. -/
theorem selects_of_word (hl : l.Predictive) (hfirst : l.grammar.Yields alt first)
    {after : List Kind} (hafter : ∀ k ∈ after.head?, k ∈ l.lookahead.followSet n)
    (hk : (first ++ after).head? = some kind) : l.lookahead.selects n kind alt = true := by
  simp only [Lookahead.selects, Bool.or_eq_true, Bool.and_eq_true, List.contains_iff_mem]
  cases first with
  | nil =>
    refine Or.inr ⟨?_, hafter kind hk⟩
    rw [hl.lookahead_eq]
    exact Grammar.vanishes_of_yields_nil hfirst
  | cons k first =>
    obtain rfl : k = kind := Option.some.inj hk
    left
    rw [hl.lookahead_eq]
    exact Grammar.canBegin_of_yields hfirst

/-- The lookahead selects the alternative that the word ahead comes from, and what comes after this
alternative follows it. -/
theorem selects_of_yields (hl : l.Predictive)
    (hhost : l.grammar.Ends host (.nonterminal n :: rest))
    (halt : alt ∈ l.grammar.alternatives n) (hfirst : l.grammar.Yields alt first)
    (hsecond : l.grammar.Yields rest second)
    (hback : ∀ k ∈ back.head?, l.Follows (.nonterminal n :: rest) k)
    (hk : (first ++ (second ++ back)).head? = some kind) :
    l.lookahead.selects n kind alt = true ∧
      ∀ k ∈ (second ++ back).head?, l.Follows alt k := by
  have hfollow (k : Kind) (h : (second ++ back).head? = some k) :
      k ∈ l.lookahead.followSet n := hl.follows_use hhost hsecond hback h
  exact ⟨hl.selects_of_word hfirst hfollow hk,
    fun k h => hl.follows_alternative halt (hfollow k h)⟩

/-- The lookahead chooses the alternative that the word ahead comes from, and what comes after this
alternative follows it. -/
theorem choose?_of_yields (hl : l.Predictive)
    (hhost : l.grammar.Ends host (.nonterminal n :: rest))
    (halt : alt ∈ l.grammar.alternatives n) (hfirst : l.grammar.Yields alt first)
    (hsecond : l.grammar.Yields rest second)
    (hback : ∀ k ∈ back.head?, l.Follows (.nonterminal n :: rest) k)
    (hk : (first ++ (second ++ back)).head? = some kind) :
    l.choose? n kind = some alt ∧ ∀ k ∈ (second ++ back).head?, l.Follows alt k := by
  obtain ⟨hselects, hfollows⟩ := hl.selects_of_yields hhost halt hfirst hsecond hback hk
  exact ⟨hl.choose?_of_selects halt hselects, hfollows⟩

/-- What was chosen is the alternative that yields the word ahead. -/
theorem eq_of_choose? {other : Alternative N} (hl : l.Predictive)
    (hchoose : l.choose? n kind = some alt)
    (hhost : l.grammar.Ends host (.nonterminal n :: rest))
    (hother : other ∈ l.grammar.alternatives n) (hfirst : l.grammar.Yields other first)
    (hsecond : l.grammar.Yields rest second)
    (hback : ∀ k ∈ back.head?, l.Follows (.nonterminal n :: rest) k)
    (hk : (first ++ (second ++ back)).head? = some kind) :
    other = alt ∧ ∀ k ∈ (second ++ back).head?, l.Follows alt k := by
  obtain ⟨hsome, hafter⟩ := hl.choose?_of_yields hhost hother hfirst hsecond hback hk
  obtain rfl := Option.some.inj (hsome.symm.trans hchoose)
  exact ⟨rfl, hafter⟩

end Predictive

variable {symbols : List (Symbol N)} {s s' : State} {ds : List (Derivation N)} {ts : List Token}
  {fault : Option Fault} {word front : List Kind}

theorem Runs.head_of_seen (h : l.Runs host symbols s ds ts s' fault)
    (hseen : wordOf ds ++ [s'.kind] <+: word) : word.head? = some s.kind := by
  obtain ⟨more, rfl⟩ := hseen
  rw [List.head?_append, h.head]
  rfl

/-- If what the run sees agrees with a word that the symbols yield and with what comes after it,
then the run finds this word, and only a second declaration can stop it on the way. -/
theorem Runs.forced (hl : l.Predictive) (h : l.Runs host symbols s ds ts s' fault)
    (hhost : l.grammar.Ends host symbols) (hfront : l.grammar.Yields symbols front)
    (hback : ∀ k ∈ back.head?, l.Follows symbols k)
    (hseen : wordOf ds ++ [s'.kind] <+: front ++ back) :
    (fault = none → front = wordOf ds) ∧
      ∀ f, fault = some f → (∃ r, f = .redeclared r) ∧ wordOf ds <+: front := by
  induction h generalizing front back with
  | nil =>
    rw [Grammar.yields_nil_iff.mp hfront]
    simp
  | ended _ _ ih | matched _ _ _ _ ih =>
    obtain ⟨front, rfl, hrest⟩ := Grammar.yields_terminal_iff.mp hfront
    rw [wordOf_terminal, List.cons_append, List.cons_append, List.cons_prefix_cons] at hseen
    obtain ⟨hdone, hfault⟩ := ih hhost.tail hrest (fun k hk => (hback k hk).tail) hseen.2
    rw [wordOf_terminal]
    refine ⟨fun hnone => by rw [hdone hnone], fun f hf => ?_⟩
    obtain ⟨hredeclared, hprefix⟩ := hfault f hf
    exact ⟨hredeclared, List.cons_prefix_cons.mpr ⟨rfl, hprefix⟩⟩
  | redeclared =>
    obtain ⟨front, rfl, _⟩ := Grammar.yields_terminal_iff.mp hfront
    simp
  | mismatched hkind =>
    obtain ⟨front, rfl, _⟩ := Grammar.yields_terminal_iff.mp hfront
    simp only [wordOf_error, wordOf_nil, List.nil_append, List.cons_append,
      List.cons_prefix_cons] at hseen
    exact absurd hseen.1 hkind
  | @refused host n rest s hchoose =>
    obtain ⟨alt, halt, first, second, rfl, hfirst, hsecond⟩ :=
      Grammar.yields_nonterminal_iff.mp hfront
    rw [List.append_assoc] at hseen
    have hrun : l.Runs host (.nonterminal n :: rest) s _ _ _ _ := .refused hchoose
    have hk := hrun.head_of_seen hseen
    have hsome := (hl.choose?_of_yields hhost halt hfirst hsecond hback hk).1
    simp [hchoose] at hsome
  | vanished hchoose hrest ih =>
    obtain ⟨alt, halt, first, second, rfl, hfirst, hsecond⟩ :=
      Grammar.yields_nonterminal_iff.mp hfront
    rw [wordOf_production, wordOf_empty, wordOf_nil, List.nil_append, List.append_assoc] at hseen
    have hk := hrest.head_of_seen hseen
    obtain ⟨rfl, _⟩ := hl.eq_of_choose? hchoose hhost halt hfirst hsecond hback hk
    obtain rfl := Grammar.yields_nil_iff.mp hfirst
    simpa using ih hhost.tail hsecond (fun k h => (hback k h).tail) hseen
  | @called host n alt rest s s₁ s' ds es ts us fault hchoose hne hcall hrest ihc ihr =>
    obtain ⟨other, hother, first, second, rfl, hfirst, hsecond⟩ :=
      Grammar.yields_nonterminal_iff.mp hfront
    have hrun := Runs.called hchoose hne hcall hrest
    rw [List.append_assoc] at hseen
    have hk := hrun.head_of_seen hseen
    obtain ⟨rfl, hafter⟩ := hl.eq_of_choose? hchoose hhost hother hfirst hsecond hback hk
    -- The call sees the beginning of what the whole run sees.
    have hseenc : wordOf ds ++ [s₁.kind] <+: first ++ (second ++ back) := by
      obtain ⟨more, hmore⟩ := hseen
      obtain ⟨later, hlater⟩ := List.head?_eq_some_iff.mp hrest.head
      refine ⟨later ++ more, ?_⟩
      rw [← hmore, wordOf_production, List.append_assoc _ _ [s'.kind], hlater]
      simp
    obtain ⟨hdone, _⟩ := ihc (Grammar.ends_of_mem hother) hfirst hafter hseenc
    obtain rfl := hdone rfl
    rw [wordOf_production, List.append_assoc, List.prefix_append_right_inj] at hseen
    obtain ⟨hdone', hfault⟩ := ihr hhost.tail hsecond (fun k h => (hback k h).tail) hseen
    rw [wordOf_production]
    refine ⟨fun hnone => by rw [hdone' hnone], fun f hf => ?_⟩
    obtain ⟨hredeclared, hprefix⟩ := hfault f hf
    exact ⟨hredeclared, (List.prefix_append_right_inj _).mpr hprefix⟩
  | broken hchoose hne hcall ih =>
    obtain ⟨other, hother, first, second, rfl, hfirst, hsecond⟩ :=
      Grammar.yields_nonterminal_iff.mp hfront
    rw [wordOf_production, wordOf_nil, List.append_nil, List.append_assoc] at hseen
    have hk := hcall.head_of_seen hseen
    obtain ⟨rfl, hafter⟩ := hl.eq_of_choose? hchoose hhost hother hfirst hsecond hback hk
    refine ⟨by simp, fun f hf => ?_⟩
    obtain ⟨hredeclared, hprefix⟩ := (ih (Grammar.ends_of_mem hother) hfirst hafter hseen).2 f hf
    rw [wordOf_production, wordOf_nil, List.append_nil]
    exact ⟨hredeclared, hprefix.trans (List.prefix_append _ _)⟩

end Language

end TopDown
