import Mathlib.Logic.Relation
import TopDown.Grammar.Basic

/-!
# Derivability

A grammar rewrites a sentential form by putting an alternative in the place of one of its
non-terminals, and derives what any number of such steps leads to. For words of terminals there is
a second form, which takes the symbols one after the other from the left: each terminal yields
itself, and each non-terminal the word of one of its alternatives.
-/

namespace TopDown

namespace Grammar

variable {N : Type} [DecidableEq N]

/-- One step of rewriting. -/
inductive Produces (g : Grammar N) : List (Symbol N) → List (Symbol N) → Prop
  | rewrite {n : N} {alt : Alternative N} (left right : List (Symbol N))
      (halt : alt ∈ g.alternatives n) :
      Produces g (left ++ .nonterminal n :: right) (left ++ alt ++ right)

def Derives (g : Grammar N) : List (Symbol N) → List (Symbol N) → Prop :=
  Relation.ReflTransGen g.Produces

/-- The word of terminals is derivable from the non-terminal. -/
def Generates (g : Grammar N) (n : N) (word : List Kind) : Prop :=
  g.Derives [.nonterminal n] (word.map .terminal)

/-- What symbols derive, from left to right. -/
inductive Yields (g : Grammar N) : List (Symbol N) → List Kind → Prop
  | nil : Yields g [] []
  | terminal {kind : Kind} {rest : List (Symbol N)} {word : List Kind} (h : Yields g rest word) :
      Yields g (.terminal kind :: rest) (kind :: word)
  | nonterminal {n : N} {alt rest : List (Symbol N)} {front back : List Kind}
      (halt : alt ∈ g.alternatives n) (hfront : Yields g alt front) (hback : Yields g rest back) :
      Yields g (.nonterminal n :: rest) (front ++ back)

variable {g : Grammar N}

theorem yields_nil_iff {word : List Kind} : g.Yields [] word ↔ word = [] := by
  constructor
  · intro h
    cases h
    rfl
  · rintro rfl
    exact .nil

theorem yields_terminal_iff {kind : Kind} {rest : List (Symbol N)} {word : List Kind} :
    g.Yields (.terminal kind :: rest) word ↔ ∃ back, word = kind :: back ∧ g.Yields rest back := by
  constructor
  · intro h
    cases h with
    | terminal h => exact ⟨_, rfl, h⟩
  · intro h
    obtain ⟨back, rfl, h⟩ := h
    exact .terminal h

theorem yields_nonterminal_iff {n : N} {rest : List (Symbol N)} {word : List Kind} :
    g.Yields (.nonterminal n :: rest) word ↔
      ∃ alt ∈ g.alternatives n, ∃ front back, word = front ++ back ∧ g.Yields alt front ∧
        g.Yields rest back := by
  constructor
  · intro h
    cases h with
    | nonterminal halt hfront hback => exact ⟨_, halt, _, _, rfl, hfront, hback⟩
  · intro h
    obtain ⟨alt, halt, front, back, rfl, hfront, hback⟩ := h
    exact .nonterminal halt hfront hback

theorem yields_append_iff {left right : List (Symbol N)} {word : List Kind} :
    g.Yields (left ++ right) word ↔
      ∃ front back, word = front ++ back ∧ g.Yields left front ∧ g.Yields right back := by
  induction left generalizing word with
  | nil =>
    constructor
    · intro h
      exact ⟨[], word, rfl, .nil, h⟩
    · intro h
      obtain ⟨front, back, rfl, hfront, hback⟩ := h
      rwa [yields_nil_iff.mp hfront]
  | cons symbol left ih =>
    cases symbol with
    | terminal kind =>
      simp only [List.cons_append, yields_terminal_iff, ih]
      constructor
      · intro h
        obtain ⟨_, rfl, front, back, rfl, hfront, hback⟩ := h
        exact ⟨kind :: front, back, rfl, ⟨front, rfl, hfront⟩, hback⟩
      · intro h
        obtain ⟨_, back, rfl, ⟨front, rfl, hfront⟩, hback⟩ := h
        exact ⟨front ++ back, rfl, front, back, rfl, hfront, hback⟩
    | nonterminal n =>
      simp only [List.cons_append, yields_nonterminal_iff, ih]
      constructor
      · intro h
        obtain ⟨alt, halt, first, _, rfl, hfirst, front, back, rfl, hfront, hback⟩ := h
        exact ⟨first ++ front, back, by simp, ⟨alt, halt, first, front, rfl, hfirst, hfront⟩, hback⟩
      · intro h
        obtain ⟨_, back, rfl, ⟨alt, halt, first, front, rfl, hfirst, hfront⟩, hback⟩ := h
        exact ⟨alt, halt, first, front ++ back, by simp, hfirst, front, back, rfl, hfront, hback⟩

theorem yields_terminals_iff {kinds word : List Kind} :
    g.Yields (kinds.map .terminal) word ↔ word = kinds := by
  induction kinds generalizing word with
  | nil => exact yields_nil_iff
  | cons kind kinds ih => simp [yields_terminal_iff, ih]

/-- A step of rewriting keeps what can be yielded, read backwards. -/
theorem Produces.yields {before after : List (Symbol N)} {word : List Kind}
    (h : g.Produces before after) (hword : g.Yields after word) : g.Yields before word := by
  obtain ⟨left, right, halt⟩ := h
  obtain ⟨_, last, rfl, hfirst, hlast⟩ := yields_append_iff.mp hword
  obtain ⟨first, middle, rfl, hfirst, hmiddle⟩ := yields_append_iff.mp hfirst
  rw [List.append_assoc]
  exact yields_append_iff.mpr ⟨first, middle ++ last, rfl, hfirst, .nonterminal halt hmiddle hlast⟩

theorem Produces.append_right {before after : List (Symbol N)} (h : g.Produces before after)
    (right : List (Symbol N)) : g.Produces (before ++ right) (after ++ right) := by
  obtain ⟨first, last, halt⟩ := h
  simpa using Produces.rewrite first (last ++ right) halt

theorem Produces.append_left {before after : List (Symbol N)} (h : g.Produces before after)
    (left : List (Symbol N)) : g.Produces (left ++ before) (left ++ after) := by
  obtain ⟨first, last, halt⟩ := h
  simpa using Produces.rewrite (left ++ first) last halt

theorem Derives.append {a b c d : List (Symbol N)} (hab : g.Derives a b) (hcd : g.Derives c d) :
    g.Derives (a ++ c) (b ++ d) := by
  have hleft : g.Derives (a ++ c) (b ++ c) :=
    Relation.ReflTransGen.lift (· ++ c) (fun _ _ h => Produces.append_right h c) a b hab
  have hright : g.Derives (b ++ c) (b ++ d) :=
    Relation.ReflTransGen.lift (b ++ ·) (fun _ _ h => Produces.append_left h b) c d hcd
  exact Relation.ReflTransGen.trans hleft hright

theorem Derives.inside {middle middle' : List (Symbol N)} (h : g.Derives middle middle')
    (left right : List (Symbol N)) :
    g.Derives (left ++ middle ++ right) (left ++ middle' ++ right) := by
  have hleft : g.Derives left left := .refl
  have hright : g.Derives right right := .refl
  exact (hleft.append h).append hright

theorem derives_of_mem {n : N} {alt : Alternative N} {symbols : List (Symbol N)}
    (halt : alt ∈ g.alternatives n) (h : g.Derives alt symbols) :
    g.Derives [.nonterminal n] symbols := by
  have hstep : g.Produces [.nonterminal n] alt := by
    simpa using Produces.rewrite [] [] halt
  exact .head hstep h

theorem Yields.derives {symbols : List (Symbol N)} {word : List Kind} (h : g.Yields symbols word) :
    g.Derives symbols (word.map .terminal) := by
  induction h with
  | nil => exact .refl
  | @terminal kind rest word _ ih =>
    have hkeep : g.Derives [.terminal kind] [.terminal kind] := .refl
    exact hkeep.append ih
  | nonterminal halt _ _ ihf ihb =>
    rw [List.map_append]
    exact (derives_of_mem halt ihf).append ihb

/-- Rewriting keeps what can be yielded, read backwards. -/
theorem Derives.yields {before after : List (Symbol N)} {word : List Kind}
    (h : g.Derives before after) (hword : g.Yields after word) : g.Yields before word := by
  induction h using Relation.ReflTransGen.head_induction_on with
  | refl => exact hword
  | head hstep _ ih => exact hstep.yields ih

theorem derives_iff_yields {symbols : List (Symbol N)} {word : List Kind} :
    g.Derives symbols (word.map .terminal) ↔ g.Yields symbols word := by
  constructor
  · intro h
    exact h.yields (yields_terminals_iff.mpr rfl)
  · exact Yields.derives

theorem generates_iff_yields {n : N} {word : List Kind} :
    g.Generates n word ↔ g.Yields [.nonterminal n] word :=
  derives_iff_yields

theorem yields_singleton_iff {n : N} {word : List Kind} :
    g.Yields [.nonterminal n] word ↔ ∃ alt ∈ g.alternatives n, g.Yields alt word := by
  simp [yields_nonterminal_iff, yields_nil_iff]

end Grammar

end TopDown
