import TopDown.Grammar.Lookahead
import TopDown.Proofs.Grammar.Derivability

/-!
# What marks say of sentential forms

Some non-terminals are marked as those that can vanish, and some as those that a kind can begin.
Marks that are closed under the alternatives are not lost when a step of rewriting is read
backwards, so that symbols show by their marks what they derive. Marks that are right about the
non-terminals, one by one, are right about all symbols.
-/

namespace TopDown

variable {N : Type} {nullable begun : N → Bool} {kind : Kind}

@[simp] theorem vanishes_nonterminal {n : N} {rest : List (Symbol N)} :
    vanishes nullable (.nonterminal n :: rest) = (nullable n && vanishes nullable rest) :=
  rfl

theorem vanishes_append {left right : List (Symbol N)} :
    vanishes nullable (left ++ right) = (vanishes nullable left && vanishes nullable right) :=
  List.all_append

theorem begins_append_iff {left right : List (Symbol N)} :
    begins nullable begun kind (left ++ right) = true ↔
      begins nullable begun kind left = true ∨
        vanishes nullable left = true ∧ begins nullable begun kind right = true := by
  induction left with
  | nil => simp [begins, vanishes]
  | cons symbol left ih =>
    cases symbol with
    | terminal k => simp [begins, vanishes]
    | nonterminal n =>
      simp only [List.cons_append, begins, vanishes_nonterminal, Bool.or_eq_true, Bool.and_eq_true,
        ih, and_or_left, and_assoc, or_assoc]

namespace Grammar

variable [DecidableEq N] {g : Grammar N} {symbols before after : List (Symbol N)}

/-- The symbols derive a form that begins with the kind. -/
def Starts (g : Grammar N) (symbols : List (Symbol N)) (kind : Kind) : Prop :=
  ∃ rest, g.Derives symbols (.terminal kind :: rest)

/-- The non-terminals with an alternative that can vanish are marked. -/
def NullableClosed (g : Grammar N) (nullable : N → Bool) : Prop :=
  ∀ n, ∀ alt ∈ g.alternatives n, vanishes nullable alt = true → nullable n = true

/-- The non-terminals with an alternative that the kind can begin are marked. -/
def BegunClosed (g : Grammar N) (nullable begun : N → Bool) (kind : Kind) : Prop :=
  ∀ n, ∀ alt ∈ g.alternatives n, begins nullable begun kind alt = true → begun n = true

/-! ## Marks that are closed -/

theorem NullableClosed.of_produces (hn : g.NullableClosed nullable) (h : g.Produces before after)
    (hafter : vanishes nullable after = true) : vanishes nullable before = true := by
  obtain ⟨left, right, halt⟩ := h
  simp only [vanishes_append, vanishes_nonterminal, Bool.and_eq_true] at hafter ⊢
  obtain ⟨⟨hleft, hmiddle⟩, hright⟩ := hafter
  exact ⟨hleft, hn _ _ halt hmiddle, hright⟩

theorem NullableClosed.vanishes (hn : g.NullableClosed nullable) (h : g.Derives symbols []) :
    vanishes nullable symbols = true := by
  induction h using Relation.ReflTransGen.head_induction_on with
  | refl => rfl
  | head hstep _ ih => exact hn.of_produces hstep ih

theorem BegunClosed.of_produces (hb : g.BegunClosed nullable begun kind)
    (hn : g.NullableClosed nullable) (h : g.Produces before after)
    (hafter : begins nullable begun kind after = true) :
    begins nullable begun kind before = true := by
  obtain ⟨left, right, halt⟩ := h
  rw [List.append_assoc, begins_append_iff, begins_append_iff] at hafter
  rw [begins_append_iff]
  -- The kind stands in the part before the alternative, in the alternative or in the part after it.
  rcases hafter with hleft | ⟨hleft, hmiddle | ⟨hmiddle, hright⟩⟩
  · exact Or.inl hleft
  · right
    simp [hleft, begins, hb _ _ halt hmiddle]
  · right
    simp [hleft, begins, hn _ _ halt hmiddle, hright]

theorem BegunClosed.begins (hb : g.BegunClosed nullable begun kind)
    (hn : g.NullableClosed nullable) (h : g.Starts symbols kind) :
    begins nullable begun kind symbols = true := by
  obtain ⟨rest, hderives⟩ := h
  induction hderives using Relation.ReflTransGen.head_induction_on with
  | refl => simp [TopDown.begins]
  | head hstep _ ih => exact hb.of_produces hn hstep ih

/-! ## Marks that are right -/

theorem Starts.append_right (h : g.Starts symbols kind) (right : List (Symbol N)) :
    g.Starts (symbols ++ right) kind := by
  obtain ⟨rest, hderives⟩ := h
  exact ⟨rest ++ right, hderives.append .refl⟩

theorem Starts.append_left {left : List (Symbol N)} (hleft : g.Derives left [])
    (h : g.Starts symbols kind) : g.Starts (left ++ symbols) kind := by
  obtain ⟨rest, hderives⟩ := h
  exact ⟨rest, hleft.append hderives⟩

section

variable (hn : ∀ n, nullable n = true → g.Derives [.nonterminal n] [])

include hn

theorem derives_nil_of_vanishes (h : vanishes nullable symbols = true) : g.Derives symbols [] := by
  induction symbols with
  | nil => exact .refl
  | cons symbol symbols ih =>
    cases symbol with
    | terminal k => simp [vanishes] at h
    | nonterminal n =>
      rw [vanishes_nonterminal, Bool.and_eq_true] at h
      exact (hn n h.1).append (ih h.2)

/-- One more mark, on a non-terminal with an alternative that can vanish, is right. -/
theorem derives_nil_of_any_vanishes {n : N} (h : (g.alternatives n).any (vanishes nullable) = true) :
    g.Derives [.nonterminal n] [] := by
  obtain ⟨alt, halt, hvanishes⟩ := List.any_eq_true.mp h
  exact derives_of_mem halt (derives_nil_of_vanishes hn hvanishes)

variable (hb : ∀ n, begun n = true → g.Starts [.nonterminal n] kind)

include hb

theorem starts_of_begins (h : begins nullable begun kind symbols = true) : g.Starts symbols kind := by
  induction symbols with
  | nil => simp [begins] at h
  | cons symbol symbols ih =>
    cases symbol with
    | terminal k =>
      obtain rfl : k = kind := by simpa [begins] using h
      exact ⟨symbols, .refl⟩
    | nonterminal n =>
      rw [begins, Bool.or_eq_true, Bool.and_eq_true] at h
      rcases h with hfirst | ⟨hvanish, hlater⟩
      · exact (hb n hfirst).append_right symbols
      · exact (ih hlater).append_left (hn n hvanish)

/-- One more mark, on a non-terminal with an alternative that the kind can begin, is right. -/
theorem starts_of_any_begins {n : N}
    (h : (g.alternatives n).any (begins nullable begun kind) = true) :
    g.Starts [.nonterminal n] kind := by
  obtain ⟨alt, halt, hbegins⟩ := List.any_eq_true.mp h
  obtain ⟨rest, hrest⟩ := starts_of_begins hn hb hbegins
  exact ⟨rest, derives_of_mem halt hrest⟩

end

end Grammar

end TopDown
