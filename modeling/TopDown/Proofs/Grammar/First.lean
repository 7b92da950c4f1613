import Mathlib.Data.List.ProdSigma
import TopDown.Proofs.Grammar.Lookahead
import TopDown.Proofs.Grammar.Rounds

/-!
# FIRST and the nullable non-terminals are exact

A non-terminal is nullable if and only if it derives the empty form, and FIRST of a non-terminal
holds a kind if and only if the non-terminal derives a form that begins with the kind. This is so
for every grammar: one may be recursive from the left or in a circle, use what it does not define,
or have no words. The same sets are found by rounds in place, which come to an end for every grammar.
-/

namespace TopDown

namespace Grammar

variable {N : Type} [DecidableEq N] {g : Grammar N} {n : N} {kind : Kind}
  {symbols left right : List (Symbol N)}

/-! ## The sets that closures find -/

theorem derives_nil_of_mem_nullable : ∀ n ∈ g.nullable, g.Derives [.nonterminal n] [] := by
  apply forall_mem_closure
  intro marked hmarked n hrule
  exact derives_nil_of_any_vanishes hmarked hrule

theorem derives_nil_of_contains (n : N) (h : g.nullable.contains n = true) :
    g.Derives [.nonterminal n] [] :=
  derives_nil_of_mem_nullable n (List.contains_iff_mem.mp h)

theorem vanishes_iff_derives :
    vanishes g.nullable.contains symbols = true ↔ g.Derives symbols [] :=
  ⟨derives_nil_of_vanishes derives_nil_of_contains, nullableClosed_nullable.vanishes⟩

theorem vanishes_isNullable_iff :
    vanishes g.lookahead.isNullable symbols = true ↔ g.Derives symbols [] :=
  vanishes_iff_derives

theorem mem_nullable_iff : n ∈ g.nullable ↔ g.Derives [.nonterminal n] [] := by
  rw [← vanishes_iff_derives, vanishes_nonterminal, Bool.and_eq_true, List.contains_iff_mem]
  exact (and_iff_left rfl).symm

theorem starts_of_mem_begunBy : ∀ n ∈ g.begunBy g.nullable kind, g.Starts [.nonterminal n] kind := by
  apply forall_mem_closure
  intro marked hmarked n hrule
  exact starts_of_any_begins derives_nil_of_contains hmarked hrule

theorem canBegin_iff_starts : g.lookahead.canBegin kind symbols = true ↔ g.Starts symbols kind := by
  rw [canBegin_eq_begins]
  constructor
  · apply starts_of_begins derives_nil_of_contains
    exact fun n hn => starts_of_mem_begunBy n (List.contains_iff_mem.mp hn)
  · exact (begunClosed_begunBy kind).begins nullableClosed_nullable

theorem starts_append_iff : g.Starts (left ++ right) kind ↔
    g.Starts left kind ∨ g.Derives left [] ∧ g.Starts right kind := by
  simp only [← canBegin_iff_starts, ← vanishes_iff_derives, canBegin_eq_begins, begins_append_iff]

theorem not_starts_nil : ¬ g.Starts [] kind := by
  rw [← canBegin_iff_starts]
  exact Bool.false_ne_true

theorem mem_firstSet_iff : kind ∈ g.lookahead.firstSet n ↔ g.Starts [.nonterminal n] kind := by
  rw [← canBegin_iff_starts, Lookahead.canBegin, begins, Bool.or_eq_true, List.contains_iff_mem]
  simp [begins]

/-! ## The sets that rounds in place find -/

/-- A clause for each non-terminal: it can vanish if all symbols of an alternative can. -/
def nullableClauses (g : Grammar N) : List (Clause N) :=
  g.names.map fun n => ⟨n, fun marked => (g.alternatives n).any (vanishes marked)⟩

/-- A clause for each non-terminal and kind: the kind can begin the non-terminal if it can begin an
alternative. -/
def firstClauses (g : Grammar N) : List (Clause (N × Kind)) :=
  (g.names.product Kind.all).map fun (n, kind) =>
    ⟨(n, kind), fun marked =>
      (g.alternatives n).any (begins g.nullable.contains (fun m => marked (m, kind)) kind)⟩

theorem mem_iff_derives_of_settles {marked : List N} (h : Settles g.nullableClauses [] marked) :
    n ∈ marked ↔ g.Derives [.nonterminal n] [] := by
  have hclosed : g.NullableClosed marked.contains := by
    intro n alt halt hvanishes
    have htest : (g.alternatives n).any (vanishes marked.contains) = true :=
      List.any_eq_true.mpr ⟨alt, halt, hvanishes⟩
    exact List.contains_iff_mem.mpr
      (h.target_mem (List.mem_map_of_mem (mem_names_of_mem_alternatives halt)) htest)
  have hright : Hereditary g.nullableClauses fun n => g.Derives [.nonterminal n] [] := by
    intro c hc marks hmarks htest
    obtain ⟨n, _, rfl⟩ := List.mem_map.mp hc
    exact derives_nil_of_any_vanishes hmarks htest
  constructor
  · exact h.forall_mem hright (by simp) n
  · intro hderives
    have hvanishes := hclosed.vanishes hderives
    rw [vanishes_nonterminal, Bool.and_eq_true, List.contains_iff_mem] at hvanishes
    exact hvanishes.1

theorem mem_iff_starts_of_settles {marked : List (N × Kind)}
    (h : Settles g.firstClauses [] marked) :
    (n, kind) ∈ marked ↔ g.Starts [.nonterminal n] kind := by
  have hclosed : g.BegunClosed g.nullable.contains (fun m => marked.contains (m, kind)) kind := by
    intro n alt halt hbegins
    have hpair : (n, kind) ∈ g.names.product Kind.all :=
      List.mem_product.mpr ⟨mem_names_of_mem_alternatives halt, Kind.mem_all kind⟩
    have htest : (g.alternatives n).any
        (begins g.nullable.contains (fun m => marked.contains (m, kind)) kind) = true :=
      List.any_eq_true.mpr ⟨alt, halt, hbegins⟩
    exact List.contains_iff_mem.mpr (h.target_mem (List.mem_map_of_mem hpair) htest)
  have hright : Hereditary g.firstClauses fun a => g.Starts [.nonterminal a.1] a.2 := by
    intro c hc marks hmarks htest
    obtain ⟨⟨n, kind⟩, _, rfl⟩ := List.mem_map.mp hc
    exact starts_of_any_begins derives_nil_of_contains (fun m => hmarks (m, kind)) htest
  constructor
  · exact h.forall_mem hright (by simp) (n, kind)
  · intro hstarts
    simpa [begins] using hclosed.begins nullableClosed_nullable hstarts

/-! ## Exactness -/

/-- The nullable non-terminals are those that derive the empty form, and rounds in place end with
just these. -/
theorem nullable_marks_vanishing (g : Grammar N) :
    (∃ marked, Settles g.nullableClauses [] marked ∧ ∀ n, n ∈ marked ↔ n ∈ g.nullable) ∧
      ∀ n, n ∈ g.nullable ↔ g.Derives [.nonterminal n] [] := by
  obtain ⟨marked, hmarked⟩ := exists_settles g.nullableClauses []
  refine ⟨⟨marked, hmarked, fun n => ?_⟩, fun n => mem_nullable_iff⟩
  rw [mem_iff_derives_of_settles hmarked, mem_nullable_iff]

/-- FIRST of a non-terminal holds the kinds that begin what it derives, the starters of symbols are
the kinds that begin what they derive, and rounds in place end with just these sets. -/
theorem first_marks_starts (g : Grammar N) :
    g.first.map Prod.fst = g.names ∧
      (∃ marked, Settles g.firstClauses [] marked ∧
        ∀ n kind, (n, kind) ∈ marked ↔ kind ∈ (g.first.lookup n).getD []) ∧
      (∀ n kind, kind ∈ (g.first.lookup n).getD [] ↔
        ∃ rest, g.Derives [.nonterminal n] (.terminal kind :: rest)) ∧
      ∀ symbols kind,
        kind ∈ starters g.nullable.contains (fun n => (g.first.lookup n).getD []) symbols ↔
          ∃ rest, g.Derives symbols (.terminal kind :: rest) := by
  obtain ⟨marked, hmarked⟩ := exists_settles g.firstClauses []
  refine ⟨?_, ⟨marked, hmarked, fun n kind => ?_⟩, fun n kind => mem_firstSet_iff, ?_⟩
  · simp [first, kindsOf, Function.comp_def]
  · rw [mem_iff_starts_of_settles hmarked]
    exact mem_firstSet_iff.symm
  · intro symbols kind
    rw [starters, List.mem_filter, and_iff_right (Kind.mem_all kind)]
    exact canBegin_iff_starts

end Grammar

end TopDown
