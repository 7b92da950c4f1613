import TopDown.Proofs.Grammar.First

/-!
# FOLLOW is exact

In a grammar that defines what it uses, FOLLOW of a non-terminal holds a kind if and only if some
non-terminal derives a form in which the one stands right before the other. Two symbols that meet in
a form come from one alternative, or the second comes from what stands after the non-terminal whose
alternative ends with the first; so the property that is closed under the two rules of FOLLOW holds
wherever a non-terminal and a kind meet.
-/

namespace TopDown

/-- A member of two joined lists is in the first or in the second. -/
theorem append_eq_append_cons {α : Type} {left right before after : List α} {a : α}
    (h : left ++ right = before ++ a :: after) :
    (∃ gap, left = before ++ a :: gap ∧ after = gap ++ right) ∨
      ∃ gap, before = left ++ gap ∧ right = gap ++ a :: after := by
  induction left generalizing before with
  | nil => exact Or.inr ⟨before, rfl, h⟩
  | cons b left ih =>
    cases before with
    | nil =>
      obtain ⟨rfl, rfl⟩ := List.cons.inj h
      exact Or.inl ⟨left, rfl, rfl⟩
    | cons c before =>
      obtain ⟨rfl, hrest⟩ := List.cons.inj h
      rcases ih hrest with ⟨gap, rfl, rfl⟩ | ⟨gap, rfl, rfl⟩
      · exact Or.inl ⟨gap, rfl, rfl⟩
      · exact Or.inr ⟨gap, rfl, rfl⟩

namespace Grammar

variable {N : Type} [DecidableEq N] {g : Grammar N} {host m n : N} {kind : Kind}
  {alt rest left right : List (Symbol N)}

/-! ## The two rules -/

/-- Some non-terminal of the grammar derives a form in which `n` stands right before the kind. -/
def Precedes (g : Grammar N) (n : N) (kind : Kind) : Prop :=
  ∃ m ∈ g.names, ∃ left right,
    g.Derives [.nonterminal m] (left ++ .nonterminal n :: .terminal kind :: right)

/-- The property is closed under the rules of FOLLOW: the kind begins what comes after a use, or it
vanishes and the host has the property. -/
def FollowClosed (g : Grammar N) (kind : Kind) (followed : N → Prop) : Prop :=
  ∀ host, ∀ alt ∈ g.alternatives host, ∀ n rest, .nonterminal n :: rest <:+ alt →
    g.Starts rest kind ∨ g.Derives rest [] ∧ followed host → followed n

theorem followClosed_precedes (g : Grammar N) (kind : Kind) :
    g.FollowClosed kind (g.Precedes · kind) := by
  rintro host alt halt n rest ⟨front, rfl⟩ (⟨after, hafter⟩ | ⟨hrest, m, hm, left, right, hform⟩)
  · refine ⟨host, mem_names_of_mem_alternatives halt, front, after, derives_of_mem halt ?_⟩
    have hend := hafter.inside (front ++ [.nonterminal n]) []
    simpa using hend
  · have hhost : g.Derives (left ++ .nonterminal host :: .terminal kind :: right)
        (left ++ (front ++ .nonterminal n :: rest) ++ .terminal kind :: right) :=
      .single (.rewrite left _ halt)
    have hend : g.Derives (left ++ (front ++ .nonterminal n :: rest) ++ .terminal kind :: right)
        (left ++ front ++ .nonterminal n :: .terminal kind :: right) := by
      have hinside := hrest.inside (left ++ front ++ [.nonterminal n]) (.terminal kind :: right)
      simpa using hinside
    exact ⟨m, hm, left ++ front, right, hform.trans (hhost.trans hend)⟩

theorem precedes_of_mem_occurrences {o : Occurrence N} (ho : o ∈ g.occurrences)
    (h : g.Starts o.rest kind ∨ g.Derives o.rest [] ∧ g.Precedes o.host kind) :
    g.Precedes o.name kind := by
  obtain ⟨alt, halt, huse⟩ := mem_occurrences_iff.mp ho
  exact followClosed_precedes g kind o.host alt halt o.name o.rest huse h

/-- Wherever the kind begins what stands after a non-terminal, the non-terminal has the property. -/
theorem FollowClosed.of_derives {followed : N → Prop} (h : g.FollowClosed kind followed)
    {form : List (Symbol N)} (hform : g.Derives [.nonterminal m] form)
    (hsplit : form = left ++ .nonterminal n :: right) (hright : g.Starts right kind) :
    followed n := by
  induction hform generalizing left n right with
  | refl =>
    obtain ⟨rfl, hnil⟩ : left = [] ∧ right = [] := by
      cases left <;> simp_all
    exact absurd (hnil ▸ hright) not_starts_nil
  | tail _ hstep ih =>
    cases hstep with
    | @rewrite host alt before after halt =>
      rcases append_eq_append_cons hsplit with ⟨gap, hinside, rfl⟩ | ⟨gap, rfl, rfl⟩
      · rcases append_eq_append_cons hinside with ⟨gap', rfl, rfl⟩ | ⟨front, rfl, rfl⟩
        · -- Both symbols stand before the alternative, or the second comes from it.
          have hsame : left ++ .nonterminal n :: gap' ++ .nonterminal host :: after =
              left ++ .nonterminal n :: (gap' ++ .nonterminal host :: after) := by
            simp
          obtain ⟨rest, hrest⟩ := hright
          exact ih hsame ⟨rest, .head (.rewrite gap' after halt) hrest⟩
        · apply h host _ halt n gap ⟨front, rfl⟩
          rcases starts_append_iff.mp hright with hbegin | ⟨hvanish, hafter⟩
          · exact Or.inl hbegin
          · exact Or.inr ⟨hvanish, ih rfl hafter⟩
      · have hsame : before ++ .nonterminal host :: (gap ++ .nonterminal n :: right) =
            before ++ .nonterminal host :: gap ++ .nonterminal n :: right := by
          simp
        exact ih hsame hright

theorem FollowClosed.of_precedes {followed : N → Prop} (h : g.FollowClosed kind followed)
    (hn : g.Precedes n kind) : followed n := by
  obtain ⟨m, _, left, right, hform⟩ := hn
  exact h.of_derives hform rfl ⟨right, .refl⟩

/-! ## The sets that closures find -/

theorem precedes_of_mem_followSet (h : kind ∈ g.lookahead.followSet n) : g.Precedes n kind := by
  rw [mem_followSet_iff, followedBy_eq_closure] at h
  revert n
  apply forall_mem_closure
  intro marked hmarked n hrule
  obtain ⟨o, huse, htest⟩ := List.any_eq_true.mp hrule
  obtain ⟨ho, rfl⟩ : o ∈ g.occurrences ∧ o.name = n := by simpa using huse
  rw [Bool.or_eq_true, Bool.and_eq_true, ← canBegin_eq_begins, canBegin_iff_starts,
    vanishes_iff_derives] at htest
  apply precedes_of_mem_occurrences ho
  exact htest.imp_right fun ⟨hrest, hhost⟩ => ⟨hrest, hmarked o.host hhost⟩

section

variable (hdefined : ∀ host, ∀ alt ∈ g.alternatives host, ∀ n, .nonterminal n ∈ alt → n ∈ g.names)

include hdefined

theorem mem_followSet_iff_precedes : kind ∈ g.lookahead.followSet n ↔ g.Precedes n kind := by
  have hclosed : g.FollowClosed kind fun n => kind ∈ g.lookahead.followSet n := by
    intro host alt halt n rest huse hrules
    have hn : n ∈ g.names := hdefined host alt halt n (huse.mem List.mem_cons_self)
    apply mem_followSet halt huse hn
    rwa [canBegin_iff_starts, vanishes_isNullable_iff]
  exact ⟨precedes_of_mem_followSet, hclosed.of_precedes⟩

theorem undefined_eq_none : g.undefined? = none := by
  rw [undefined_eq_none_iff]
  intro o ho
  obtain ⟨alt, halt, huse⟩ := mem_occurrences_iff.mp ho
  exact hdefined o.host alt halt o.name (huse.mem List.mem_cons_self)

theorem follow_eq_ok : g.follow = .ok g.followTable := by
  rw [follow, undefined_eq_none hdefined]

end

/-! ## The sets that rounds in place find -/

/-- A clause for each use of a non-terminal and kind: the kind can follow the non-terminal if it can
begin the rest of the alternative, or follow the host where the rest can vanish. -/
def followClauses (g : Grammar N) : List (Clause (N × Kind)) :=
  (g.occurrences.product Kind.all).map fun (o, kind) =>
    ⟨(o.name, kind), fun marked => g.lookahead.canBegin kind o.rest ||
      (vanishes g.lookahead.isNullable o.rest && marked (o.host, kind))⟩

theorem mem_iff_precedes_of_settles {marked : List (N × Kind)}
    (h : Settles g.followClauses [] marked) : (n, kind) ∈ marked ↔ g.Precedes n kind := by
  have hclosed : g.FollowClosed kind fun n => (n, kind) ∈ marked := by
    intro host alt halt n rest huse hrules
    have hpair : (⟨n, rest, host⟩, kind) ∈ g.occurrences.product Kind.all :=
      List.mem_product.mpr ⟨mem_occurrences_iff.mpr ⟨alt, halt, huse⟩, Kind.mem_all kind⟩
    apply h.target_mem (List.mem_map_of_mem hpair)
    rwa [Bool.or_eq_true, Bool.and_eq_true, canBegin_iff_starts, vanishes_isNullable_iff,
      List.contains_iff_mem]
  have hright : Hereditary g.followClauses fun a => g.Precedes a.1 a.2 := by
    intro c hc marks hmarks htest
    obtain ⟨⟨o, kind⟩, hpair, rfl⟩ := List.mem_map.mp hc
    rw [Bool.or_eq_true, Bool.and_eq_true, canBegin_iff_starts, vanishes_isNullable_iff] at htest
    apply precedes_of_mem_occurrences (List.mem_product.mp hpair).1
    exact htest.imp_right fun ⟨hrest, hhost⟩ => ⟨hrest, hmarks (o.host, kind) hhost⟩
  exact ⟨h.forall_mem hright (by simp) (n, kind), hclosed.of_precedes⟩

/-! ## Exactness -/

/-- In a grammar that defines what it uses, FOLLOW of a non-terminal holds the kinds that stand right
after it in what the non-terminals of the grammar derive, and rounds in place end with just these
sets. -/
theorem follow_marks_successors (g : Grammar N)
    (hdefined : ∀ host, ∀ alt ∈ g.alternatives host, ∀ n, .nonterminal n ∈ alt → n ∈ g.names) :
    ∃ table, g.follow = .ok table ∧ table.map Prod.fst = g.names ∧
      (∃ marked, Settles g.followClauses [] marked ∧
        ∀ n kind, (n, kind) ∈ marked ↔ kind ∈ (table.lookup n).getD []) ∧
      ∀ n kind, kind ∈ (table.lookup n).getD [] ↔
        ∃ m ∈ g.names, ∃ left right,
          g.Derives [.nonterminal m] (left ++ .nonterminal n :: .terminal kind :: right) := by
  obtain ⟨marked, hmarked⟩ := exists_settles g.followClauses []
  have hexact (n : N) (kind : Kind) :
      kind ∈ (g.followTable.lookup n).getD [] ↔ g.Precedes n kind :=
    mem_followSet_iff_precedes hdefined
  refine ⟨g.followTable, follow_eq_ok hdefined, ?_, ⟨marked, hmarked, fun n kind => ?_⟩, hexact⟩
  · simp [followTable, kindsOf, Function.comp_def]
  · rw [mem_iff_precedes_of_settles hmarked, hexact]

/-- Two non-terminals that both vanish: `true` is recursive from the left, and each leads to the
other. -/
def mutualGrammar : Grammar Bool where
  rules :=
    [(true, [[.nonterminal true, .nonterminal false, .terminal .comma], []]),
      (false, [[.terminal .plus], [.nonterminal true], []])]
  distinct := by decide

/-- A plus sign stands right after the one non-terminal in some form, and after the other in none. -/
theorem follow_mutualGrammar :
    (∀ host, ∀ alt ∈ mutualGrammar.alternatives host, ∀ n, .nonterminal n ∈ alt →
      n ∈ mutualGrammar.names) ∧
      mutualGrammar.follow = .ok [(true, [.comma, .plus]), (false, [.comma])] ∧
      (∃ m ∈ mutualGrammar.names, ∃ left right,
        mutualGrammar.Derives [.nonterminal m]
          (left ++ .nonterminal true :: .terminal .plus :: right)) ∧
      ¬ ∃ m ∈ mutualGrammar.names, ∃ left right,
        mutualGrammar.Derives [.nonterminal m]
          (left ++ .nonterminal false :: .terminal .plus :: right) := by
  have hdefined : ∀ host, ∀ alt ∈ mutualGrammar.alternatives host, ∀ n, .nonterminal n ∈ alt →
      n ∈ mutualGrammar.names := by
    decide
  have hfollow : mutualGrammar.follow = .ok [(true, [.comma, .plus]), (false, [.comma])] := by
    decide +kernel
  obtain ⟨table, htable, _, _, hexact⟩ := follow_marks_successors mutualGrammar hdefined
  obtain rfl := Except.ok.inj (htable.symm.trans hfollow)
  refine ⟨hdefined, hfollow, (hexact true .plus).mp (by decide), fun hplus => ?_⟩
  exact absurd ((hexact false .plus).mpr hplus) (by decide)

end Grammar

end TopDown
