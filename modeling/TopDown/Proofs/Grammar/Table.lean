import TopDown.Proofs.Grammar.Follow
import TopDown.Proofs.Grammar.Prediction

/-!
# Prediction tables are exact

A kind selects an alternative of a non-terminal if the alternative derives a form that begins with
the kind, or if it derives the empty form and the kind stands right after the non-terminal in some
form. A grammar that defines what it uses has a prediction table if and only if no kind selects two
alternatives of one non-terminal, and the table holds just what the kinds select. Otherwise the
grammar is refused at the first non-terminal with such a kind.
-/

namespace TopDown

/-! ## Collisions -/

/-- A kind that collides is in one of the lists, and was seen or is in an earlier list. -/
theorem exists_of_collision?_eq_some {seen : List Kind} {lists : List (List Kind)} {kind : Kind}
    (h : collision? seen lists = some kind) :
    ∃ (j : Nat) (later : List Kind), lists[j]? = some later ∧ kind ∈ later ∧
      (kind ∈ seen ∨
        ∃ (i : Nat) (earlier : List Kind), i < j ∧ lists[i]? = some earlier ∧ kind ∈ earlier) := by
  induction lists generalizing seen with
  | nil => cases h
  | cons first rest ih =>
    rw [collision?] at h
    split at h
    · next found hfind =>
      obtain rfl := Option.some.inj h
      have hseen : found ∈ seen := by simpa using List.find?_some hfind
      exact ⟨0, first, rfl, List.mem_of_find?_eq_some hfind, Or.inl hseen⟩
    · obtain ⟨j, later, hj, hlater, hbefore⟩ := ih h
      refine ⟨j + 1, later, hj, hlater, ?_⟩
      rcases hbefore with hseen | ⟨i, earlier, hlt, hi, hearlier⟩
      · -- What the rest has seen is what was seen before, or the first list.
        rcases List.mem_append.mp hseen with hold | hfirst
        · exact Or.inl hold
        · exact Or.inr ⟨0, first, Nat.succ_pos j, rfl, hfirst⟩
      · exact Or.inr ⟨i + 1, earlier, Nat.succ_lt_succ hlt, hi, hearlier⟩

theorem mem_places_iff {selections : List (List Kind)} {kind : Kind} {i : Nat} :
    (kind, i) ∈ places selections ↔ selections.findIdx? (·.contains kind) = some i := by
  simp [places, Kind.mem_all]

/-- The first error stops the work through a list. -/
theorem mapM_append_cons_eq_error {α β ε : Type} {f : α → Except ε β} {front : List α} {x : α}
    {e : ε} (hfront : ∀ y ∈ front, ∃ z, f y = .ok z) (hx : f x = .error e) (rest : List α) :
    (front ++ x :: rest).mapM f = .error e := by
  induction front with
  | nil =>
    rw [List.nil_append, List.mapM_cons, hx]
    rfl
  | cons y front ih =>
    obtain ⟨⟨z, hz⟩, hlater⟩ := List.forall_mem_cons.mp hfront
    rw [List.cons_append, List.mapM_cons, hz]
    show (front ++ x :: rest).mapM f >>= _ = _
    rw [ih hlater]
    rfl

namespace Grammar

variable {N : Type} [DecidableEq N] {g : Grammar N} {n : N} {kind : Kind} {i : Nat}

/-- The kind selects the alternative of `n` in place `i`. -/
def Selects (g : Grammar N) (n : N) (kind : Kind) (i : Nat) : Prop :=
  ∃ alt, (g.alternatives n)[i]? = some alt ∧
    (g.Starts alt kind ∨ g.Derives alt [] ∧ g.Precedes n kind)

/-- The kind selects two alternatives of `n`. -/
def Collides (g : Grammar N) (n : N) (kind : Kind) : Prop :=
  ∃ i j, i ≠ j ∧ g.Selects n kind i ∧ g.Selects n kind j

theorem Selects.mem_names (h : g.Selects n kind i) : n ∈ g.names := by
  obtain ⟨alt, halt, _⟩ := h
  exact mem_names_of_mem_alternatives (List.mem_of_getElem? halt)

/-- The row of a non-terminal, or the kind that collides there. -/
def row (g : Grammar N) (n : N) : Except (Defect N) (N × List (Kind × Nat)) :=
  match collision? [] (g.selections g.lookahead n) with
  | some kind => .error (.conflict n kind)
  | none => .ok (n, places (g.selections g.lookahead n))

section

variable (hdefined : ∀ host, ∀ alt ∈ g.alternatives host, ∀ n, .nonterminal n ∈ alt → n ∈ g.names)

include hdefined

theorem selects_iff {alt : Alternative N} :
    g.lookahead.selects n kind alt = true ↔
      g.Starts alt kind ∨ g.Derives alt [] ∧ g.Precedes n kind := by
  rw [Lookahead.selects, Bool.or_eq_true, Bool.and_eq_true, canBegin_iff_starts,
    vanishes_isNullable_iff, List.contains_iff_mem, mem_followSet_iff_precedes hdefined]

theorem selects_iff_getElem? :
    g.Selects n kind i ↔
      ∃ kinds, (g.selections g.lookahead n)[i]? = some kinds ∧ kind ∈ kinds := by
  have hmem (alt : Alternative N) : kind ∈ Kind.all.filter (g.lookahead.selects n · alt) ↔
      g.Starts alt kind ∨ g.Derives alt [] ∧ g.Precedes n kind := by
    rw [List.mem_filter, and_iff_right kind.mem_all, selects_iff hdefined]
  simp only [Selects, selections, List.getElem?_map, Option.map_eq_some_iff, ← hmem]
  constructor
  · intro h
    obtain ⟨alt, halt, hkind⟩ := h
    exact ⟨_, ⟨alt, halt, rfl⟩, hkind⟩
  · intro h
    obtain ⟨_, ⟨alt, halt, rfl⟩, hkind⟩ := h
    exact ⟨alt, halt, hkind⟩

theorem collides_of_collision? (h : collision? [] (g.selections g.lookahead n) = some kind) :
    g.Collides n kind := by
  obtain ⟨j, later, hj, hlater, hseen | ⟨i, earlier, hlt, hi, hearlier⟩⟩ :=
    exists_of_collision?_eq_some h
  · cases hseen
  · have hfirst := (selects_iff_getElem? hdefined).mpr ⟨earlier, hi, hearlier⟩
    have hsecond := (selects_iff_getElem? hdefined).mpr ⟨later, hj, hlater⟩
    exact ⟨i, j, Nat.ne_of_lt hlt, hfirst, hsecond⟩

theorem not_collides_of_collision? (h : collision? [] (g.selections g.lookahead n) = none) :
    ¬ g.Collides n kind := by
  intro hcollides
  obtain ⟨i, j, hne, hfirst, hsecond⟩ := hcollides
  obtain ⟨kinds, hi, hkind⟩ := (selects_iff_getElem? hdefined).mp hfirst
  obtain ⟨kinds', hj, hkind'⟩ := (selects_iff_getElem? hdefined).mp hsecond
  exact hne (index_eq_of_collision?_eq_none h hi hj hkind hkind')

/-- Without a collision a row holds what the kinds select. -/
theorem mem_places_selections_iff (h : collision? [] (g.selections g.lookahead n) = none) :
    (kind, i) ∈ places (g.selections g.lookahead n) ↔ g.Selects n kind i := by
  rw [mem_places_iff, selects_iff_getElem? hdefined, List.findIdx?_eq_some_iff_getElem]
  constructor
  · intro hfirst
    obtain ⟨hi, hkind, _⟩ := hfirst
    exact ⟨_, List.getElem?_eq_getElem hi, List.contains_iff_mem.mp hkind⟩
  · intro hselects
    obtain ⟨kinds, hkinds, hkind⟩ := hselects
    obtain ⟨hi, rfl⟩ := List.getElem?_eq_some_iff.mp hkinds
    refine ⟨hi, List.contains_iff_mem.mpr hkind, fun j hj hearlier => ?_⟩
    have hsame := index_eq_of_collision?_eq_none h (List.getElem?_eq_getElem (hj.trans hi)) hkinds
      (List.contains_iff_mem.mp hearlier) hkind
    omega

theorem prediction_eq_mapM : g.prediction = g.names.mapM g.row := by
  rw [prediction, undefined_eq_none hdefined]
  rfl

/-- Without collisions there is a table, with a row for each non-terminal. -/
theorem prediction_eq_ok (hfree : ∀ n kind, ¬ g.Collides n kind) :
    g.prediction = .ok (g.names.map fun n => (n, places (g.selections g.lookahead n))) ∧
      ∀ n, collision? [] (g.selections g.lookahead n) = none := by
  have hnone (n : N) : collision? [] (g.selections g.lookahead n) = none := by
    cases hc : collision? [] (g.selections g.lookahead n) with
    | none => rfl
    | some kind => exact absurd (collides_of_collision? hdefined hc) (hfree n kind)
  refine ⟨?_, hnone⟩
  have hrow : g.row = fun n => pure (n, places (g.selections g.lookahead n)) := by
    funext n
    rw [row, hnone n]
    rfl
  rw [prediction_eq_mapM hdefined, hrow, List.mapM_pure]
  rfl

/-- With a collision the first non-terminal that has one is at fault. -/
theorem prediction_eq_error (hcollides : ∃ n kind, g.Collides n kind) :
    ∃ front n rest kind, g.names = front ++ n :: rest ∧
      (∀ m ∈ front, ∀ k, ¬ g.Collides m k) ∧ g.Collides n kind ∧
        g.prediction = .error (.conflict n kind) := by
  obtain ⟨m, k, hm⟩ := hcollides
  have hcollision : collision? [] (g.selections g.lookahead m) ≠ none :=
    fun hnone => not_collides_of_collision? hdefined hnone hm
  obtain ⟨i, j, _, hselects, _⟩ := hm
  have hfound : (g.names.find? fun n =>
      (collision? [] (g.selections g.lookahead n)).isSome).isSome = true := by
    rw [List.find?_isSome]
    exact ⟨m, hselects.mem_names, Option.isSome_iff_ne_none.mpr hcollision⟩
  obtain ⟨n, hn⟩ := Option.isSome_iff_exists.mp hfound
  obtain ⟨hfirst, front, rest, hnames, hbefore⟩ := List.find?_eq_some_iff_append.mp hn
  obtain ⟨kind, hkind⟩ := Option.isSome_iff_exists.mp hfirst
  have hfree (m : N) (hm : m ∈ front) : collision? [] (g.selections g.lookahead m) = none := by
    simpa using hbefore m hm
  refine ⟨front, n, rest, kind, hnames, ?_, collides_of_collision? hdefined hkind, ?_⟩
  · exact fun m hm k => not_collides_of_collision? hdefined (hfree m hm)
  · rw [prediction_eq_mapM hdefined, hnames]
    apply mapM_append_cons_eq_error
    · intro m hm
      exact ⟨_, by rw [row, hfree m hm]⟩
    · rw [row, hkind]

end

/-- In a grammar that defines what it uses, either no kind selects two alternatives of one
non-terminal, and the prediction table holds what the kinds select and nothing else, or the grammar
is refused at the first non-terminal where one does, with such a kind. -/
theorem prediction_holds_selections (g : Grammar N)
    (hdefined : ∀ host, ∀ alt ∈ g.alternatives host, ∀ n, .nonterminal n ∈ alt → n ∈ g.names) :
    ((∀ n kind, ¬ g.Collides n kind) →
        ∃ table, g.prediction = .ok table ∧ table.map Prod.fst = g.names ∧
          (∀ n kind i, table.get? n kind = some i ↔ g.Selects n kind i) ∧
          ∀ row ∈ table, ∀ entry ∈ row.2, g.Selects row.1 entry.1 entry.2) ∧
      ((∃ n kind, g.Collides n kind) →
        ∃ front n rest kind, g.names = front ++ n :: rest ∧
          (∀ m ∈ front, ∀ k, ¬ g.Collides m k) ∧ g.Collides n kind ∧
            g.prediction = .error (.conflict n kind)) := by
  refine ⟨fun hfree => ?_, prediction_eq_error hdefined⟩
  obtain ⟨htable, hnone⟩ := prediction_eq_ok hdefined hfree
  refine ⟨_, htable, by simp [Function.comp_def], fun n kind i => ?_, ?_⟩
  · by_cases hn : n ∈ g.names
    · rw [← mem_places_selections_iff hdefined (hnone n), mem_places_iff,
        get?_prediction htable hn, selections, List.findIdx?_map]
      simp only [Function.comp_def, contains_selection]
    · have hlookup : Prediction.get?
          (g.names.map fun n => (n, places (g.selections g.lookahead n))) n kind = none := by
        rw [Prediction.get?, List.lookup_eq_none_iff.mpr, Option.bind_none]
        intro row hrow
        obtain ⟨m, hm, rfl⟩ := List.mem_map.mp hrow
        exact bne_iff_ne.mpr fun hsame => hn (hsame ▸ hm)
      rw [hlookup]
      exact iff_of_false (by simp) fun hselects => hn hselects.mem_names
  · intro row hrow entry hentry
    obtain ⟨n, _, rfl⟩ := List.mem_map.mp hrow
    exact (mem_places_selections_iff hdefined (hnone n)).mp hentry

/-- A statement reads, or is a branch with or without a second part: `true` stands for a statement
and `false` for the second part, whose owner is in doubt where one branch is inside another. -/
def branchGrammar : Grammar Bool where
  rules :=
    [(true, [[.terminal .kwRead], [.terminal .kwIf, .nonterminal true, .nonterminal false]]),
      (false, [[.terminal .kwElse, .nonterminal true], []])]
  distinct := by decide

/-- The empty second part collides with the other one on what follows it. -/
theorem prediction_branchGrammar :
    (∀ host, ∀ alt ∈ branchGrammar.alternatives host, ∀ n, .nonterminal n ∈ alt →
      n ∈ branchGrammar.names) ∧
      branchGrammar.prediction = .error (.conflict false .kwElse) ∧
      branchGrammar.Collides false .kwElse ∧ ∀ kind, ¬ branchGrammar.Collides true kind := by
  have hdefined : ∀ host, ∀ alt ∈ branchGrammar.alternatives host, ∀ n, .nonterminal n ∈ alt →
      n ∈ branchGrammar.names := by
    decide
  have hrefused : branchGrammar.prediction = .error (.conflict false .kwElse) := by
    decide +kernel
  obtain ⟨htable, hconflict⟩ := prediction_holds_selections branchGrammar hdefined
  have hcollides : ∃ n kind, branchGrammar.Collides n kind := by
    by_contra hnone
    obtain ⟨table, hok, _⟩ := htable fun n kind h => hnone ⟨n, kind, h⟩
    cases hok.symm.trans hrefused
  obtain ⟨front, n, rest, kind, hnames, hbefore, hcollision, herror⟩ := hconflict hcollides
  obtain ⟨rfl, rfl⟩ := Defect.conflict.inj (Except.error.inj (herror.symm.trans hrefused))
  have hfront : true ∈ front := by
    cases front with
    | nil => cases hnames
    | cons m front =>
      obtain ⟨rfl, _⟩ := List.cons.inj hnames
      exact List.mem_cons_self
  exact ⟨hdefined, hrefused, hcollision, hbefore true hfront⟩

end Grammar

end TopDown
