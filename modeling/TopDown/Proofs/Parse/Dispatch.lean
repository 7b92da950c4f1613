import TopDown.Proofs.Parse.Program
import TopDown.Proofs.Tree.Graft
import TopDown.Proofs.Tree.Spelling

/-!
# Calls and the prediction table

The tests that the routines make by hand agree with the prediction table of the grammar. For its
non-terminal and the current kind a call works through the alternative of the entry, and without an
entry it fails before it consumes a token. For a non-terminal with a single alternative nothing is
tested; there the failure comes from further down, since no word of the alternative is empty or
begins with the current kind.
-/

namespace TopDown

open TopDown.Derivation

namespace Language

variable {N : Type} [DecidableEq N] {l : Language N} {host n : N} {kind : Kind} {s s' : State}
  {ds : List (Derivation N)} {ts : List Token} {fault : Option Fault}

/-- The alternative in the place that the table gives is chosen. -/
theorem choose?_of_findIdx? (hl : l.Predictive) {i : Nat}
    (h : (l.grammar.alternatives n).findIdx? (l.lookahead.selects n kind) = some i) :
    ∃ alt, (l.grammar.alternatives n)[i]? = some alt ∧ l.choose? n kind = some alt := by
  obtain ⟨hi, hselects, _⟩ := List.findIdx?_eq_some_iff_getElem.mp h
  exact ⟨_, List.getElem?_eq_getElem hi, hl.choose?_of_selects (List.getElem_mem hi) hselects⟩

/-- A run whose symbols do not vanish, and which the current kind cannot begin, fails before it
consumes a token. -/
theorem Runs.fails_of_not_canBegin (hl : l.Predictive) (hg : l.grammar.Productive)
    {symbols : List (Symbol N)} (h : l.Runs host symbols s ds ts s' fault)
    (hbegin : l.lookahead.canBegin s.kind symbols = false)
    (hvanish : vanishes l.lookahead.isNullable symbols = false) : ts = [] ∧ fault ≠ none := by
  rw [hl.lookahead_eq] at hbegin hvanish
  obtain ⟨back, hyields, hdone⟩ := h.yields hg
  have hword : wordOf ds = [] := by
    cases hcons : wordOf ds with
    | nil => rfl
    | cons k word =>
      have hk : k = s.kind := by simpa [hcons] using h.head
      rw [hcons, List.cons_append, hk] at hyields
      simp [Grammar.canBegin_of_yields hyields] at hbegin
  constructor
  · obtain ⟨ends, hleaves, _⟩ := h.leaves
    have hnil : ts.map Token.leaf = [] := by
      have hall : leavesOf ds = [] := List.map_eq_nil_iff.mp hword
      rw [hleaves] at hall
      exact (List.append_eq_nil_iff.mp hall).1
    exact List.map_eq_nil_iff.mp hnil
  · intro hnone
    rw [hword, hdone hnone] at hyields
    have hempty : vanishes l.grammar.lookahead.isNullable symbols = true :=
      Grammar.vanishes_of_yields_nil hyields
    rw [hempty] at hvanish
    cases hvanish

/-- A call for a kind that selects no alternative fails and leaves the state as it was, if no
non-terminal vanishes by its only alternative. -/
theorem Runs.fails_of_not_selects (hl : l.Predictive) (hg : l.grammar.Productive)
    (hsingle : ∀ alt, l.grammar.alternatives n = [alt] →
      vanishes l.lookahead.isNullable alt = false)
    (h : l.Runs host [.nonterminal n] s ds ts s' fault)
    (hnot : ∀ alt ∈ l.grammar.alternatives n, l.lookahead.selects n s.kind alt = false) :
    s' = s ∧ ∃ f, fault = some f ∧ ¬ ∃ r, f = .redeclared r := by
  have honly {alt : Alternative N} (hchoose : l.choose? n s.kind = some alt) :
      l.lookahead.canBegin s.kind alt = false ∧ l.grammar.alternatives n = [alt] := by
    have hfalse := hnot alt (mem_alternatives_of_choose? hchoose)
    rcases selects_of_choose? hchoose with htrue | hone
    · simp [hfalse] at htrue
    · rw [Lookahead.selects, Bool.or_eq_false_iff] at hfalse
      exact ⟨hfalse.1, hone⟩
  have hsettled : ts = [] ∧ fault ≠ none := by
    obtain ⟨children, rfl, hcases⟩ := h.of_call
    rcases hcases with ⟨_, hts, _, f, _, hf, _⟩ | ⟨hchoose, _⟩ | ⟨alt, hchoose, _, hrun⟩
    · exact ⟨hts, by simp [hf]⟩
    · have hvanish := hsingle [] (honly hchoose).2
      cases hvanish
    · obtain ⟨hbegin, hone⟩ := honly hchoose
      exact hrun.fails_of_not_canBegin hl hg hbegin (hsingle alt hone)
  obtain ⟨hts, hne⟩ := hsettled
  obtain ⟨hstate, hredeclared⟩ := h.still hts
  obtain ⟨f, rfl⟩ := Option.ne_none_iff_exists'.mp hne
  refine ⟨hstate, f, rfl, ?_⟩
  intro hagain
  obtain ⟨r, rfl⟩ := hagain
  exact hredeclared ⟨r, rfl⟩

end Language

/-! ## Programs -/

/-- A call keeps every parent among the nodes. -/
theorem Session.closed_call {s s' : Session} {n : Nonterminal} {parent depth : Nat}
    {failure : Option Failure} (hclosed : s.tree.Closed) (hparent : parent < s.tree.size)
    (h : s.call n parent depth = some (s', failure)) : s'.tree.Closed := by
  obtain ⟨d, ts, fault, _, htree, _⟩ := Session.call_eq_some h
  exact Tree.closed_congr htree (Tree.closed_graft hclosed hparent (d.toRose Nonterminal.name))

theorem mem_names_programGrammar (n : Nonterminal) : n ∈ programGrammar.names := by
  have hcheck : ∀ n ∈ Nonterminal.all, n ∈ programGrammar.names := by
    decide
  exact hcheck n n.mem_all

/-- No non-terminal vanishes by its only alternative. -/
theorem not_vanishes_of_single {n : Nonterminal} {alt : Alternative Nonterminal}
    (h : programGrammar.alternatives n = [alt]) :
    vanishes programLanguage.lookahead.isNullable alt = false := by
  have hcheck : ∀ n ∈ Nonterminal.all, (programGrammar.alternatives n).length = 1 →
      ∀ alt ∈ programGrammar.alternatives n,
        vanishes programLanguage.lookahead.isNullable alt = false := by
    decide +kernel
  exact hcheck n n.mem_all (by simp [h]) alt (by simp [h])

/-- The node of a call spells the alternative that the call has chosen. -/
theorem Language.Runs.spells_choice {host n : Nonterminal} {alt : Alternative Nonterminal}
    {s s' : State} {children : List (Derivation Nonterminal)} {ts : List Token}
    {fault : Option Fault}
    (h : programLanguage.Runs host [.nonterminal n] s [.production n children] ts s' fault)
    (hchoose : programLanguage.choose? n s.kind = some alt) :
    (fault = none → SpellsWhole alt (shown children)) ∧
      (fault ≠ none → SpellsPrefix alt (shown children)) := by
  obtain ⟨_, hchildren, hcases⟩ := h.of_call
  obtain rfl := (Derivation.production.inj (List.singleton_inj.mp hchildren)).2
  rcases hcases with ⟨hnone, _⟩ | ⟨hempty, _, _, rfl, rfl⟩ | ⟨alt', hchosen, hne, hrun⟩
  · cases hnone.symm.trans hchoose
  · obtain rfl := Option.some.inj (hempty.symm.trans hchoose)
    exact ⟨fun _ => rfl, by simp⟩
  · obtain rfl := Option.some.inj (hchosen.symm.trans hchoose)
    refine ⟨fun hdone => ?_, fun _ => hrun.spellsPrefix⟩
    rw [SpellsWhole, if_neg hne]
    exact hrun.spells hdone

/-- The tests of a routine choose the alternative of the entry. Without an entry they choose
nothing, unless there is only one alternative. -/
theorem choice_of_prediction {table : Prediction Nonterminal}
    (htable : programGrammar.prediction = .ok table) (n : Nonterminal) (kind : Kind) :
    (∀ i, table.get? n kind = some i →
      ∃ alt, (programGrammar.alternatives n)[i]? = some alt ∧ n.choice kind = some alt) ∧
    (table.get? n kind = none → n.choice kind = none ∨
      ∃ alt, programGrammar.alternatives n = [alt] ∧ n.choice kind = some alt) := by
  have hget := Grammar.get?_prediction htable (mem_names_programGrammar n) kind
  rw [← choose?_programLanguage]
  constructor
  · intro i hentry
    exact Language.choose?_of_findIdx? programLanguage_predictive (hget.symm.trans hentry)
  · intro hentry
    have hnot := List.findIdx?_eq_none_iff.mp (hget.symm.trans hentry)
    cases hchoose : programLanguage.choose? n kind with
    | none => exact .inl rfl
    | some alt =>
      have hfalse := hnot alt (Language.mem_alternatives_of_choose? hchoose)
      rcases Language.selects_of_choose? hchoose with htrue | hone
      · exact absurd htrue (Bool.not_eq_true _ ▸ hfalse)
      · exact .inr ⟨alt, hone, rfl⟩

/-- Where the prediction table has an entry for a call, the tests of its routine choose the
alternative of the entry, and the node of the call spells this alternative, or a prefix of it but
for an error if the call fails. Where it has none, the tests choose nothing unless there is only one
alternative; the call fails with a mismatch, and neither consumes a token nor declares a name. -/
theorem call_agrees_with_prediction {s s' : Session} {n : Nonterminal} {parent depth : Nat}
    {failure : Option Failure} (hclosed : s.tree.Closed) (hparent : parent < s.tree.size)
    (h : s.call n parent depth = some (s', failure)) :
    ∃ table forest, programGrammar.prediction = .ok table ∧
      s'.tree.view s.tree.size = .node (Node.nonterminal n.name) forest ∧
      (∀ i, table.get? n s.state.kind = some i →
        ∃ alt, (programGrammar.alternatives n)[i]? = some alt ∧ n.choice s.state.kind = some alt ∧
          (failure = none → SpellsWhole alt forest) ∧ (failure ≠ none → SpellsPrefix alt forest)) ∧
      (table.get? n s.state.kind = none →
        (n.choice s.state.kind = none ∨
          ∃ alt, programGrammar.alternatives n = [alt] ∧ n.choice s.state.kind = some alt) ∧
        ∃ f, failure = some f ∧ f.cause = .mismatch ∧ s'.state = s.state) := by
  obtain ⟨d, ts, fault, hrun, htree, rfl⟩ := Session.call_eq_some h
  obtain ⟨table, htable⟩ := exists_prediction
  obtain ⟨children, hd, _⟩ := hrun.of_call
  obtain rfl := List.singleton_inj.mp hd
  obtain ⟨hsome, hnone⟩ := choice_of_prediction htable n s.state.kind
  refine ⟨table, shown children, htable, ?_, ?_, ?_⟩
  · rw [Tree.view_congr htree, Tree.view_graft hclosed hparent]
    rfl
  · intro i hentry
    obtain ⟨alt, halt, hchoice⟩ := hsome i hentry
    obtain ⟨hwhole, hprefix⟩ := hrun.spells_choice ((choose?_programLanguage n _).trans hchoice)
    refine ⟨alt, halt, hchoice, fun hdone => hwhole ?_, fun hfails => hprefix ?_⟩
    · exact Option.map_eq_none_iff.mp hdone
    · simpa using hfails
  · intro hentry
    have hget := Grammar.get?_prediction htable (mem_names_programGrammar n) s.state.kind
    have hnot : ∀ alt ∈ programGrammar.alternatives n,
        programGrammar.lookahead.selects n s.state.kind alt = false :=
      List.findIdx?_eq_none_iff.mp (hget.symm.trans hentry)
    obtain ⟨hstate, f, rfl, hmismatch⟩ :=
      hrun.fails_of_not_selects programLanguage_predictive programGrammar_productive
        (fun _ hsingle => not_vanishes_of_single hsingle) hnot
    exact ⟨hnone hentry, _, rfl, Fault.cause_eq_mismatch_iff.mpr hmismatch, hstate⟩

/-- After an arrow a call of a subroutine is assigned: the second alternative, which is cut off at
the end. A statement that reads has no entry for `var`, and a call of it stops at once. -/
theorem call_asgnStmt_and_readStmt :
    (∃ s' f forest, (Session.start [⟨.arrow, "->", 1, 1⟩]).call .asgnStmt 0 9 = some (s', some f) ∧
      s'.tree.view 1 = .node (Node.nonterminal "ASGN_STMT") forest ∧
      Nonterminal.choice .asgnStmt .arrow = some [.terminal .arrow, .nonterminal .subrCall] ∧
      SpellsPrefix [.terminal .arrow, .nonterminal .subrCall] forest) ∧
    ∃ s' f, (Session.start [⟨.kwVar, "var", 1, 1⟩]).call .readStmt 0 9 = some (s', some f) ∧
      f.cause = .mismatch ∧ s'.state = State.start [⟨.kwVar, "var", 1, 1⟩] := by
  constructor
  · have hfails : ((Session.start [⟨.arrow, "->", 1, 1⟩]).call .asgnStmt 0 9).map
        (·.2.isSome) = some true := by
      decide +kernel
    obtain ⟨⟨s', failure⟩, hcall, hsome⟩ := Option.map_eq_some_iff.mp hfails
    obtain ⟨f, rfl⟩ := Option.isSome_iff_exists.mp hsome
    obtain ⟨table, forest, htable, hview, hentry, _⟩ :=
      call_agrees_with_prediction Tree.closed_empty Nat.one_pos hcall
    have hsecond : table.get? .asgnStmt .arrow = some 1 := by
      rw [Grammar.get?_prediction htable (mem_names_programGrammar .asgnStmt)]
      decide +kernel
    obtain ⟨alt, halt, hchoice, _, hprefix⟩ := hentry 1 hsecond
    obtain rfl := Option.some.inj halt
    exact ⟨s', f, forest, hcall, hview, hchoice, hprefix nofun⟩
  · have hanswers : ((Session.start [⟨.kwVar, "var", 1, 1⟩]).call .readStmt 0 9).isSome = true := by
      decide +kernel
    obtain ⟨⟨s', failure⟩, hcall⟩ := Option.isSome_iff_exists.mp hanswers
    obtain ⟨table, _, htable, _, _, hentry⟩ :=
      call_agrees_with_prediction Tree.closed_empty Nat.one_pos hcall
    have hnone : table.get? .readStmt .kwVar = none := by
      rw [Grammar.get?_prediction htable (mem_names_programGrammar .readStmt)]
      decide +kernel
    obtain ⟨_, f, rfl, hcause, hstate⟩ := hentry hnone
    exact ⟨s', f, hcall, hcause, hstate⟩

end TopDown
