import TopDown.Proofs.Derivation.Forced
import TopDown.Proofs.Grammar.Program

/-!
# Unambiguous grammars

An expansion says of each non-terminal which of its alternatives is taken, by the place of the
alternative in the grammar. Every word of a grammar has an expansion. With a prediction table it has
no other one, as long as the alternatives of the start symbol end in a terminal: nothing is put into
FOLLOW of the start symbol, so the table does not compare the ways to leave out what stands last in
a word. That last terminal is what comes after everything else.
-/

namespace TopDown

/-- A derivation tree that names the alternatives by their places. -/
inductive Expansion where
  | terminal (kind : Kind)
  | production (index : Nat) (children : List Expansion)

namespace Expansion

mutual
/-- The terminals, from left to right. -/
def word : Expansion → List Kind
  | .terminal kind => [kind]
  | .production _ children => wordOf children
def wordOf : List Expansion → List Kind
  | [] => []
  | e :: rest => e.word ++ wordOf rest
end

@[simp] theorem wordOf_nil : wordOf [] = [] := by
  rw [wordOf]

@[simp] theorem wordOf_terminal (kind : Kind) (es : List Expansion) :
    wordOf (.terminal kind :: es) = kind :: wordOf es := by
  simp [wordOf, word]

@[simp] theorem wordOf_production (index : Nat) (children es : List Expansion) :
    wordOf (.production index children :: es) = wordOf children ++ wordOf es := by
  simp [wordOf, word]

end Expansion

open TopDown.Expansion

namespace Grammar

variable {N : Type} [DecidableEq N]

/-- The expansions of symbols. -/
inductive Expands (g : Grammar N) : List (Symbol N) → List Expansion → Prop
  | nil : Expands g [] []
  | terminal {kind : Kind} {rest : List (Symbol N)} {es : List Expansion}
      (hrest : Expands g rest es) : Expands g (.terminal kind :: rest) (.terminal kind :: es)
  | production {n : N} {index : Nat} {alt rest : List (Symbol N)} {children es : List Expansion}
      (halt : (g.alternatives n)[index]? = some alt) (hchildren : Expands g alt children)
      (hrest : Expands g rest es) :
      Expands g (.nonterminal n :: rest) (.production index children :: es)

/-- No word has two derivation trees from the start symbol. -/
def Unambiguous (g : Grammar N) (start : N) : Prop :=
  ∀ tree tree', g.Expands [.nonterminal start] [tree] → g.Expands [.nonterminal start] [tree'] →
    tree.word = tree'.word → tree = tree'

variable {g : Grammar N} {symbols : List (Symbol N)} {es : List Expansion}

theorem Expands.yields (h : g.Expands symbols es) : g.Yields symbols (wordOf es) := by
  induction h with
  | nil => simpa using Yields.nil
  | terminal _ ih => simpa using Yields.terminal ih
  | production halt _ _ ihc ihr =>
    simpa using Yields.nonterminal (List.mem_of_getElem? halt) ihc ihr

theorem Yields.exists_expands {word : List Kind} (h : g.Yields symbols word) :
    ∃ es, g.Expands symbols es ∧ wordOf es = word := by
  induction h with
  | nil => exact ⟨[], .nil, wordOf_nil⟩
  | terminal _ ih =>
    obtain ⟨es, hes, rfl⟩ := ih
    exact ⟨_, .terminal hes, wordOf_terminal _ _⟩
  | nonterminal halt _ _ ihf ihb =>
    obtain ⟨children, hchildren, rfl⟩ := ihf
    obtain ⟨es, hes, rfl⟩ := ihb
    obtain ⟨index, hindex⟩ := List.mem_iff_getElem?.mp halt
    exact ⟨_, .production hindex hchildren hes, wordOf_production _ _ _⟩

theorem expands_singleton_iff {n : N} {tree : Expansion} :
    g.Expands [.nonterminal n] [tree] ↔ ∃ index alt children,
      (g.alternatives n)[index]? = some alt ∧ g.Expands alt children ∧
        tree = .production index children := by
  constructor
  · intro h
    cases h with
    | production halt hchildren _ => exact ⟨_, _, _, halt, hchildren, rfl⟩
  · intro h
    obtain ⟨index, alt, children, halt, hchildren, rfl⟩ := h
    exact .production halt hchildren .nil

/-- The words of a non-terminal are those of its derivation trees. -/
theorem generates_iff_exists_expansion {n : N} {word : List Kind} :
    g.Generates n word ↔ ∃ tree, g.Expands [.nonterminal n] [tree] ∧ tree.word = word := by
  rw [generates_iff_yields]
  constructor
  · intro h
    obtain ⟨alt, halt, hword⟩ := yields_singleton_iff.mp h
    obtain ⟨children, hchildren, rfl⟩ := hword.exists_expands
    obtain ⟨index, hindex⟩ := List.mem_iff_getElem?.mp halt
    exact ⟨.production index children, .production hindex hchildren .nil, by rw [word]⟩
  · intro h
    obtain ⟨tree, htree, rfl⟩ := h
    simpa [wordOf] using htree.yields

/-- The grammar with its own lookahead sets, as a language that declares nothing. -/
def language (g : Grammar N) : Language N :=
  ⟨g, g.lookahead, fun _ _ => false⟩

theorem language_predictive {table : Prediction N} (h : g.prediction = .ok table) :
    g.language.Predictive :=
  ⟨rfl, table, h⟩

end Grammar

namespace Language

variable {N : Type} [DecidableEq N] {l : Language N} {host n : N} {symbols : List (Symbol N)}
  {after after' : List Kind}

/-- Any kind follows symbols that end in a terminal: nothing of them is last. -/
theorem follows_of_ends_terminal {front : List (Symbol N)} {last : Kind} (kind : Kind) :
    l.Follows (front ++ [.terminal last]) kind := by
  intro n rest huse hend
  have hlast : ∃ middle, rest = middle ++ [.terminal last] := by
    rcases List.suffix_concat_iff.mp huse with hnil | ⟨middle, hmiddle, _⟩
    · cases hnil
    · cases middle with
      | nil => simp at hmiddle
      | cons symbol middle => exact ⟨middle, (List.cons.inj hmiddle).2⟩
  obtain ⟨middle, rfl⟩ := hlast
  simp [vanishes] at hend

/-- With the same kinds ahead the same alternative is taken, and what comes after it follows it. -/
theorem Predictive.index_eq_of_expands (hl : l.Predictive) {i j : Nat}
    {alt alt' rest : List (Symbol N)} {children children' es fs : List Expansion}
    (hhost : l.grammar.Ends host (.nonterminal n :: rest))
    (hi : (l.grammar.alternatives n)[i]? = some alt)
    (hj : (l.grammar.alternatives n)[j]? = some alt')
    (hchildren : l.grammar.Expands alt children) (hchildren' : l.grammar.Expands alt' children')
    (hrest : l.grammar.Expands rest es) (hrest' : l.grammar.Expands rest fs)
    (hafter : ∀ k ∈ after.head?, l.Follows (.nonterminal n :: rest) k)
    (hafter' : ∀ k ∈ after'.head?, l.Follows (.nonterminal n :: rest) k) (hne : after ≠ [])
    (hword : wordOf children ++ (wordOf es ++ after) =
      wordOf children' ++ (wordOf fs ++ after')) :
    i = j ∧ (∀ k ∈ (wordOf es ++ after).head?, l.Follows alt k) ∧
      ∀ k ∈ (wordOf fs ++ after').head?, l.Follows alt' k := by
  cases hahead : wordOf children ++ (wordOf es ++ after) with
  | nil => simp [hne] at hahead
  | cons kind ahead =>
    obtain ⟨hselects, hfollows⟩ := hl.selects_of_yields hhost (List.mem_of_getElem? hi)
      hchildren.yields hrest.yields hafter (by rw [hahead]; rfl)
    obtain ⟨hselects', hfollows'⟩ := hl.selects_of_yields hhost (List.mem_of_getElem? hj)
      hchildren'.yields hrest'.yields hafter' (by rw [← hword, hahead]; rfl)
    obtain ⟨table, htable⟩ := hl.table
    rw [hl.lookahead_eq] at hselects hselects'
    exact ⟨Grammar.index_eq_of_selects htable hi hj hselects hselects', hfollows, hfollows'⟩

/-- Expansions with the same word and the same kind after it are the same. -/
theorem Predictive.expansions_unique (hl : l.Predictive) {es fs : List Expansion}
    (h : l.grammar.Expands symbols es) (h' : l.grammar.Expands symbols fs)
    (hhost : l.grammar.Ends host symbols) (hafter : ∀ k ∈ after.head?, l.Follows symbols k)
    (hafter' : ∀ k ∈ after'.head?, l.Follows symbols k) (hne : after ≠ [])
    (hword : wordOf es ++ after = wordOf fs ++ after') : es = fs := by
  induction h generalizing host fs after after' with
  | nil =>
    cases h'
    rfl
  | terminal hrest ih =>
    cases h' with
    | terminal hrest' =>
      simp only [wordOf_terminal, List.cons_append, List.cons.injEq, true_and] at hword
      rw [ih hrest' hhost.tail (fun k hk => (hafter k hk).tail) (fun k hk => (hafter' k hk).tail)
        hne hword]
  | production hi hchildren hrest ihc ihr =>
    cases h' with
    | production hj hchildren' hrest' =>
      simp only [wordOf_production, List.append_assoc] at hword
      obtain ⟨rfl, hfollows, hfollows'⟩ := hl.index_eq_of_expands hhost hi hj hchildren hchildren'
        hrest hrest' hafter hafter' hne hword
      obtain rfl := Option.some.inj (hi.symm.trans hj)
      obtain rfl := ihc hchildren' (Grammar.ends_of_mem (List.mem_of_getElem? hi)) hfollows
        hfollows' (by simp [hne]) hword
      rw [List.append_cancel_left_eq] at hword
      rw [ihr hrest' hhost.tail (fun k hk => (hafter k hk).tail) (fun k hk => (hafter' k hk).tail)
        hne hword]

end Language

namespace Grammar

variable {N : Type} [DecidableEq N] {g : Grammar N} {table : Prediction N} {start : N}

/-- The first kind of an expansion selects its alternative. -/
theorem selects_of_expands (n : N) {alt : Alternative N} {kind : Kind} {children : List Expansion}
    (h : g.Expands alt children) (hkind : (wordOf children).head? = some kind) :
    g.lookahead.selects n kind alt = true := by
  obtain ⟨back, hback⟩ := List.head?_eq_some_iff.mp hkind
  have hyields := h.yields
  rw [hback] at hyields
  simp [Lookahead.selects, canBegin_of_yields hyields]

theorem wordOf_ne_nil_of_ends_terminal {front : List (Symbol N)} {last : Kind}
    {children : List Expansion} (h : g.Expands (front ++ [.terminal last]) children) :
    wordOf children ≠ [] := by
  intro hnil
  have hvanishes := vanishes_of_yields_nil (hnil ▸ h.yields)
  simp [vanishes] at hvanishes

/-- A grammar with a prediction table is unambiguous if the alternatives of its start symbol end in
a terminal. -/
theorem unambiguous_of_prediction (h : g.prediction = .ok table)
    (hends : ∀ alt ∈ g.alternatives start, ∃ front last, alt = front ++ [.terminal last]) :
    g.Unambiguous start ∧ ∀ word, g.Generates start word ↔
      ∃ tree, g.Expands [.nonterminal start] [tree] ∧ tree.word = word := by
  refine ⟨?_, fun word => generates_iff_exists_expansion⟩
  intro tree tree' htree htree' hword
  obtain ⟨i, alt, children, hi, hchildren, rfl⟩ := expands_singleton_iff.mp htree
  obtain ⟨j, alt', children', hj, hchildren', rfl⟩ := expands_singleton_iff.mp htree'
  simp only [word] at hword
  obtain ⟨front, last, rfl⟩ := hends alt (List.mem_of_getElem? hi)
  -- FOLLOW of the start symbol says nothing of the root, but its word is not empty.
  obtain ⟨kind, ahead, hahead⟩ :=
    List.exists_cons_of_ne_nil (wordOf_ne_nil_of_ends_terminal hchildren)
  have hselects := selects_of_expands start hchildren (by rw [hahead]; rfl)
  have hselects' := selects_of_expands start hchildren' (by rw [← hword, hahead]; rfl)
  obtain rfl := index_eq_of_selects h hi hj hselects hselects'
  obtain rfl := Option.some.inj (hi.symm.trans hj)
  have hafter (k : Kind) (_ : k ∈ [Kind.endOfInput].head?) :
      g.language.Follows (front ++ [.terminal last]) k := Language.follows_of_ends_terminal k
  obtain rfl := (language_predictive h).expansions_unique hchildren hchildren'
    (ends_of_mem (List.mem_of_getElem? hi)) hafter hafter (by simp) (by rw [hword])
  rfl

theorem unambiguous_programGrammar :
    (∃ table, programGrammar.prediction = .ok table) ∧
      (∀ alt ∈ programGrammar.alternatives .program,
        ∃ front last, alt = front ++ [.terminal last]) ∧
      programGrammar.Unambiguous .program ∧
      ∃ tree, programGrammar.Expands [.nonterminal .program] [tree] ∧ tree.word = [.endOfInput] := by
  obtain ⟨table, htable⟩ := exists_prediction
  have hends : ∀ alt ∈ programGrammar.alternatives .program,
      ∃ front last, alt = front ++ [.terminal last] := by
    rw [alternatives_programGrammar]
    exact List.forall_mem_singleton.mpr ⟨[.nonterminal .stmtList], .endOfInput, rfl⟩
  obtain ⟨hunambiguous, hgenerates⟩ := unambiguous_of_prediction htable hends
  refine ⟨⟨table, htable⟩, hends, hunambiguous, ?_⟩
  rw [← hgenerates, generates_iff_yields]
  have hstmts : programGrammar.Yields [.nonterminal .stmtList, .terminal .endOfInput] [.endOfInput] :=
    .nonterminal (by decide) .nil (.terminal .nil)
  exact .nonterminal (by decide) hstmts .nil

/-- A start symbol that can be left out in two ways, though its grammar has a prediction table. -/
def twoEmptyWays : Grammar Bool where
  rules := [(true, [[], [.nonterminal false]]), (false, [[]])]
  distinct := by decide

/-- The condition on the start symbol cannot be dropped. -/
theorem not_unambiguous_twoEmptyWays :
    twoEmptyWays.prediction.isOk = true ∧ ¬ twoEmptyWays.Unambiguous true := by
  refine ⟨by decide +kernel, fun h => ?_⟩
  have hfirst : twoEmptyWays.Expands [.nonterminal true] [.production 0 []] :=
    .production rfl .nil .nil
  have hsecond : twoEmptyWays.Expands [.nonterminal true] [.production 1 [.production 0 []]] :=
    .production rfl (.production rfl .nil .nil) .nil
  cases h _ _ hfirst hsecond (by simp [word, wordOf])

end Grammar

end TopDown
