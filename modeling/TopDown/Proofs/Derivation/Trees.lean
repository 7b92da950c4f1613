import TopDown.Proofs.Derivation.Forced

/-!
# Derivation trees

A grammar derives its symbols by trees: below the node of a production stand the trees of one of the
alternatives, and the empty one leaves a leaf of its own. A run that is done leaves such trees. With
a prediction table a grammar is unambiguous: the terminals of a tree and the kind that comes after
it determine the tree.
-/

namespace TopDown

open TopDown.Derivation

theorem Derivation.leavesOf_production {N : Type} (n : N) (children ds : List (Derivation N)) :
    leavesOf (.production n children :: ds) = leavesOf children ++ leavesOf ds := by
  rw [leavesOf, leaves]

namespace Grammar

variable {N : Type} [DecidableEq N]

/-- Derivation trees of symbols, with any lexemes at their terminals. -/
inductive Trees (g : Grammar N) : List (Symbol N) → List (Derivation N) → Prop
  | nil : Trees g [] []
  | terminal {kind : Kind} {rest : List (Symbol N)} {ds : List (Derivation N)} (lexeme : String)
      (hrest : Trees g rest ds) :
      Trees g (.terminal kind :: rest) (.terminal kind lexeme :: ds)
  | empty {n : N} {rest : List (Symbol N)} {ds : List (Derivation N)}
      (halt : [] ∈ g.alternatives n) (hrest : Trees g rest ds) :
      Trees g (.nonterminal n :: rest) (.production n [.empty] :: ds)
  | production {n : N} {alt rest : List (Symbol N)} {children ds : List (Derivation N)}
      (halt : alt ∈ g.alternatives n) (hne : alt ≠ []) (hchildren : Trees g alt children)
      (hrest : Trees g rest ds) :
      Trees g (.nonterminal n :: rest) (.production n children :: ds)

variable {g : Grammar N} {symbols rest : List (Symbol N)} {ds : List (Derivation N)}

theorem Trees.yields (h : g.Trees symbols ds) : g.Yields symbols (wordOf ds) := by
  induction h with
  | nil => simpa using Yields.nil
  | terminal _ _ ih => simpa using Yields.terminal ih
  | empty halt _ ih => simpa using Yields.nonterminal halt .nil ih
  | production halt _ _ _ ihc ihr => simpa using Yields.nonterminal halt ihc ihr

/-- A word that symbols yield has derivation trees, whatever the lexemes at its leaves. -/
theorem Yields.exists_trees {word : List Kind} (h : g.Yields symbols word)
    {leaves : List (Kind × String)} (hleaves : leaves.map Prod.fst = word) :
    ∃ ds, g.Trees symbols ds ∧ leavesOf ds = leaves := by
  induction h generalizing leaves with
  | nil => exact ⟨[], .nil, (List.map_eq_nil_iff.mp hleaves).symm⟩
  | terminal _ ih =>
    obtain ⟨⟨kind, lexeme⟩, leaves, rfl, rfl, hrest⟩ := List.map_eq_cons_iff.mp hleaves
    obtain ⟨ds, htrees, rfl⟩ := ih hrest
    exact ⟨_, .terminal lexeme htrees, rfl⟩
  | @nonterminal n alt _ _ _ halt _ _ ihf ihb =>
    obtain ⟨front, back, rfl, hfront, hback⟩ := List.map_eq_append_iff.mp hleaves
    obtain ⟨children, hchildren, rfl⟩ := ihf hfront
    obtain ⟨ds, hrest, rfl⟩ := ihb hback
    by_cases hempty : alt = []
    · subst hempty
      cases hchildren
      exact ⟨_, .empty halt hrest, leavesOf_production n [.empty] ds⟩
    · exact ⟨_, .production halt hempty hchildren hrest, leavesOf_production n children ds⟩

/-- The children of a production node are the trees of an alternative, or the leaf of the empty
one. -/
def Below (g : Grammar N) (alt : Alternative N) (children : List (Derivation N)) : Prop :=
  if alt = [] then children = [.empty] else g.Trees alt children

theorem below_nil_iff {children : List (Derivation N)} :
    g.Below [] children ↔ children = [.empty] :=
  iff_of_eq (if_pos rfl)

theorem below_iff_of_ne_nil {alt : Alternative N} {children : List (Derivation N)}
    (hne : alt ≠ []) : g.Below alt children ↔ g.Trees alt children :=
  iff_of_eq (if_neg hne)

theorem Below.yields {alt : Alternative N} {children : List (Derivation N)}
    (h : g.Below alt children) : g.Yields alt (wordOf children) := by
  by_cases hempty : alt = []
  · subst hempty
    rw [below_nil_iff.mp h]
    simpa using Yields.nil
  · exact ((below_iff_of_ne_nil hempty).mp h).yields

theorem Trees.of_nonterminal {n : N} (h : g.Trees (.nonterminal n :: rest) ds) :
    ∃ alt ∈ g.alternatives n, ∃ children es, ds = .production n children :: es ∧
      g.Below alt children ∧ g.Trees rest es := by
  cases h with
  | empty halt hrest => exact ⟨[], halt, _, _, rfl, below_nil_iff.mpr rfl, hrest⟩
  | production halt hne hchildren hrest =>
    exact ⟨_, halt, _, _, rfl, (below_iff_of_ne_nil hne).mpr hchildren, hrest⟩

end Grammar

namespace Language

variable {N : Type} [DecidableEq N] {l : Language N} {host : N} {symbols : List (Symbol N)}

/-- A run that is done leaves derivation trees. -/
theorem Runs.trees {s s' : State} {ds : List (Derivation N)} {ts : List Token}
    {fault : Option Fault} (h : l.Runs host symbols s ds ts s' fault) (hdone : fault = none) :
    l.grammar.Trees symbols ds := by
  induction h with
  | nil => exact .nil
  | ended _ _ ih => exact .terminal _ (ih hdone)
  | matched _ _ _ _ ih => exact .terminal _ (ih hdone)
  | redeclared => cases hdone
  | mismatched => cases hdone
  | refused => cases hdone
  | vanished hchoose _ ih => exact .empty (mem_alternatives_of_choose? hchoose) (ih hdone)
  | called hchoose hne _ _ ihc ihr =>
    exact .production (mem_alternatives_of_choose? hchoose) hne (ihc rfl) (ihr hdone)
  | broken => cases hdone

/-- The kind ahead chooses the alternative that the children derive, and what comes after them
follows it. -/
theorem Predictive.choose?_of_below (hl : l.Predictive) {n : N} {kind : Kind}
    {alt rest : List (Symbol N)} {children ds : List (Derivation N)} {after : List (Kind × String)}
    (hhost : l.grammar.Ends host (.nonterminal n :: rest))
    (halt : alt ∈ l.grammar.alternatives n) (hbelow : l.grammar.Below alt children)
    (hrest : l.grammar.Trees rest ds)
    (hafter : ∀ k ∈ (after.map Prod.fst).head?, l.Follows (.nonterminal n :: rest) k)
    (hkind : ((leavesOf children ++ (leavesOf ds ++ after)).map Prod.fst).head? = some kind) :
    l.choose? n kind = some alt ∧
      ∀ k ∈ ((leavesOf ds ++ after).map Prod.fst).head?, l.Follows alt k := by
  rw [List.map_append, List.map_append] at hkind
  rw [List.map_append]
  exact hl.choose?_of_yields hhost halt hbelow.yields hrest.yields hafter hkind

/-- With the same leaves ahead the same alternative is chosen. -/
theorem Predictive.eq_of_below (hl : l.Predictive) {n : N} {alt alt' rest : List (Symbol N)}
    {children children' ds es : List (Derivation N)} {after after' : List (Kind × String)}
    (hhost : l.grammar.Ends host (.nonterminal n :: rest))
    (halt : alt ∈ l.grammar.alternatives n) (halt' : alt' ∈ l.grammar.alternatives n)
    (hbelow : l.grammar.Below alt children) (hbelow' : l.grammar.Below alt' children')
    (hrest : l.grammar.Trees rest ds) (hrest' : l.grammar.Trees rest es)
    (hafter : ∀ k ∈ (after.map Prod.fst).head?, l.Follows (.nonterminal n :: rest) k)
    (hafter' : ∀ k ∈ (after'.map Prod.fst).head?, l.Follows (.nonterminal n :: rest) k)
    (hne : after ≠ [])
    (hleaves : leavesOf children ++ (leavesOf ds ++ after) =
      leavesOf children' ++ (leavesOf es ++ after')) :
    alt = alt' ∧ (∀ k ∈ ((leavesOf ds ++ after).map Prod.fst).head?, l.Follows alt k) ∧
      ∀ k ∈ ((leavesOf es ++ after').map Prod.fst).head?, l.Follows alt k := by
  cases hahead : (leavesOf children ++ (leavesOf ds ++ after)).map Prod.fst with
  | nil => simp [hne] at hahead
  | cons kind ahead =>
    obtain ⟨hchoose, hfollows⟩ :=
      hl.choose?_of_below hhost halt hbelow hrest hafter (by rw [hahead]; rfl)
    obtain ⟨hchoose', hfollows'⟩ :=
      hl.choose?_of_below hhost halt' hbelow' hrest' hafter' (by rw [← hleaves, hahead]; rfl)
    obtain rfl := Option.some.inj (hchoose.symm.trans hchoose')
    exact ⟨rfl, hfollows, hfollows'⟩

/-- Trees with the same leaves and the same leaf after them are the same. -/
theorem Predictive.trees_unique (hl : l.Predictive) {ds es : List (Derivation N)}
    (h : l.grammar.Trees symbols ds) (h' : l.grammar.Trees symbols es)
    (hhost : l.grammar.Ends host symbols) {after after' : List (Kind × String)}
    (hafter : ∀ k ∈ (after.map Prod.fst).head?, l.Follows symbols k)
    (hafter' : ∀ k ∈ (after'.map Prod.fst).head?, l.Follows symbols k) (hne : after ≠ [])
    (hleaves : leavesOf ds ++ after = leavesOf es ++ after') : ds = es := by
  induction h generalizing host es after after' with
  | nil =>
    cases h'
    rfl
  | terminal lexeme hrest ih =>
    cases h' with
    | terminal lexeme' hrest' =>
      simp only [leavesOf, leaves, List.cons_append, List.nil_append, List.cons.injEq,
        Prod.mk.injEq, true_and] at hleaves
      obtain ⟨rfl, hleaves⟩ := hleaves
      rw [ih hrest' hhost.tail (fun k hk => (hafter k hk).tail) (fun k hk => (hafter' k hk).tail)
        hne hleaves]
  | empty halt hrest ih =>
    obtain ⟨alt', halt', children', es, rfl, hbelow', hrest'⟩ := h'.of_nonterminal
    simp only [leavesOf_production, List.append_assoc] at hleaves
    obtain ⟨rfl, _⟩ := hl.eq_of_below hhost halt halt' (Grammar.below_nil_iff.mpr rfl) hbelow'
      hrest hrest' hafter hafter' hne hleaves
    obtain rfl := Grammar.below_nil_iff.mp hbelow'
    rw [List.append_cancel_left_eq] at hleaves
    rw [ih hrest' hhost.tail (fun k hk => (hafter k hk).tail) (fun k hk => (hafter' k hk).tail)
      hne hleaves]
  | production halt hnonempty hchildren hrest ihc ihr =>
    obtain ⟨alt', halt', children', es, rfl, hbelow', hrest'⟩ := h'.of_nonterminal
    simp only [leavesOf_production, List.append_assoc] at hleaves
    have hbelow := (Grammar.below_iff_of_ne_nil hnonempty).mpr hchildren
    obtain ⟨rfl, hfollows, hfollows'⟩ := hl.eq_of_below hhost halt halt' hbelow hbelow' hrest
      hrest' hafter hafter' hne hleaves
    have hchildren' := (Grammar.below_iff_of_ne_nil hnonempty).mp hbelow'
    obtain rfl := ihc hchildren' (Grammar.ends_of_mem halt) hfollows hfollows' (by simp [hne]) hleaves
    rw [List.append_cancel_left_eq] at hleaves
    rw [ihr hrest' hhost.tail (fun k hk => (hafter k hk).tail) (fun k hk => (hafter' k hk).tail)
      hne hleaves]

end Language

end TopDown
