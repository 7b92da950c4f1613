import Mathlib.Data.List.Forall2
import TopDown.Proofs.Derivation.Declarations
import TopDown.Proofs.Derivation.Levels
import TopDown.Session

/-!
# Runs under a renaming

A run chooses by kinds alone, and of the lexemes it asks only which are the same. So over other
tokens of the same kinds, whose lexemes are the same where those of the first ones are, it takes the
same course: it derives the same but for the lexemes, and stops in the same way at the same
place.
-/

namespace TopDown

open TopDown.Derivation

/-- Related tokens have one kind, and their lexemes are the same on one side where they are on the
other. -/
structure Faithful (R : Token → Token → Prop) : Prop where
  kind {t t' : Token} : R t t' → t'.kind = t.kind
  lexeme {t t' u u' : Token} : R t t' → R u u' → (t'.lexeme = u'.lexeme ↔ t.lexeme = u.lexeme)

theorem Faithful.symm {R : Token → Token → Prop} (hR : Faithful R) :
    Faithful fun t t' => R t' t where
  kind h := (hR.kind h).symm
  lexeme ht hu := (hR.lexeme ht hu).symm

variable {R : Token → Token → Prop}

/-! ## States -/

namespace Scope

/-- The declared tokens are related, in order. -/
def Alike (R : Token → Token → Prop) (s s' : Scope) : Prop :=
  List.Forall₂ R s.tokens s'.tokens

/-- A name is declared, or it is declared already. -/
theorem declare_cases (s : Scope) (t : Token) :
    (s.lookup t.lexeme = none ∧ ∃ s', s.declare t = .ok s' ∧ s'.tokens = s.tokens ++ [t]) ∨
      ∃ first, s.lookup t.lexeme = some first ∧ s.declare t = .error ⟨first, t⟩ := by
  unfold declare
  split
  · next first hfound => exact Or.inr ⟨first, hfound, rfl⟩
  · next hfound => exact Or.inl ⟨hfound, _, rfl, rfl⟩

theorem Alike.lookup_eq_none_iff (hR : Faithful R) {s s' : Scope} (hs : s.Alike R s')
    {t t' : Token} (ht : R t t') : s'.lookup t'.lexeme = none ↔ s.lookup t.lexeme = none := by
  obtain ⟨tokens, distinct⟩ := s
  obtain ⟨tokens', distinct'⟩ := s'
  have hall : List.Forall₂ R tokens tokens' := hs
  simp only [lookup, List.find?_eq_none, decide_eq_true_eq]
  clear distinct distinct' hs
  induction hall with
  | nil => simp
  | cons hu _ ih =>
    rw [List.forall_mem_cons, List.forall_mem_cons]
    exact and_congr (not_congr (hR.lexeme hu ht)) ih

theorem Alike.declare (hR : Faithful R) {s s' : Scope} (hs : s.Alike R s') {t t' : Token}
    (ht : R t t') :
    (∃ s₁ s₁', s.declare t = .ok s₁ ∧ s'.declare t' = .ok s₁' ∧ s₁.Alike R s₁') ∨
      ∃ r r', s.declare t = .error r ∧ s'.declare t' = .error r' := by
  have hnone := hs.lookup_eq_none_iff hR ht
  rcases s.declare_cases t with ⟨hfresh, s₁, hok, htokens⟩ | ⟨first, hfound, herror⟩
  · rcases s'.declare_cases t' with ⟨_, s₁', hok', htokens'⟩ | ⟨first', hfound', _⟩
    · refine Or.inl ⟨s₁, s₁', hok, hok', ?_⟩
      rw [Alike, htokens, htokens']
      exact List.rel_append hs (.cons ht .nil)
    · rw [hnone.mpr hfresh] at hfound'
      cases hfound'
  · rcases s'.declare_cases t' with ⟨hfresh', _⟩ | ⟨first', _, herror'⟩
    · rw [hnone.mp hfresh'] at hfound
      cases hfound
    · exact Or.inr ⟨_, _, herror, herror'⟩

end Scope

/-- As many tokens are consumed, and those that are left and those that are declared are related. -/
structure State.Alike (R : Token → Token → Prop) (s s' : State) : Prop where
  rest : List.Forall₂ R s.cursor.rest s'.cursor.rest
  consumed : s'.cursor.consumed = s.cursor.consumed
  scope : s.scope.Alike R s'.scope

theorem State.Alike.kind_eq (hR : Faithful R) {s s' : State} (h : s.Alike R s') :
    s'.kind = s.kind := by
  obtain ⟨⟨rest, consumed⟩, scope⟩ := s
  obtain ⟨⟨rest', consumed'⟩, scope'⟩ := s'
  cases h.rest with
  | nil => rfl
  | cons ht _ => exact hR.kind ht

/-! ## Derivations -/

/-- The cause of the failure that a fault is shown as. -/
def Fault.cause (f : Fault) : Cause :=
  (f.toFailure 0).cause

namespace Derivation

variable {N : Type}

/-- The derivations are the same but for lexemes and faults. -/
inductive Alike : List (Derivation N) → List (Derivation N) → Prop
  | nil : Alike [] []
  | production (n : N) {children children' ds ds' : List (Derivation N)}
      (hchildren : Alike children children') (hrest : Alike ds ds') :
      Alike (.production n children :: ds) (.production n children' :: ds')
  | terminal (kind : Kind) (lexeme lexeme' : String) {ds ds' : List (Derivation N)}
      (hrest : Alike ds ds') : Alike (.terminal kind lexeme :: ds) (.terminal kind lexeme' :: ds')
  | empty : Alike [.empty] [.empty]
  | error (f f' : Fault) : Alike [.error f] [.error f']

theorem Alike.length_leavesOf {ds ds' : List (Derivation N)} (h : Alike ds ds') :
    (leavesOf ds').length = (leavesOf ds).length := by
  induction h with
  | nil | empty | error => rfl
  | production n _ _ ihc ihr => simp [leavesOf, leaves, ihc, ihr]
  | terminal kind lexeme lexeme' _ ih => simp [leavesOf, leaves, ih]

theorem Alike.levelsBelow_eq [DecidableEq N] {ds ds' : List (Derivation N)} (h : Alike ds ds')
    (host : N) : levelsBelow host ds' = levelsBelow host ds := by
  induction h generalizing host with
  | nil | empty | error => rfl
  | production n _ _ ihc ihr => simp only [levelsBelow, levelsIn, ihc, ihr]
  | terminal kind lexeme lexeme' _ ih => simp only [levelsBelow, levelsIn, ih]

end Derivation

namespace Language

variable {N : Type} {l : Language N} {host : N} {symbols : List (Symbol N)} {s s' u : State}
  {ds : List (Derivation N)} {ts : List Token} {fault : Option Fault}

theorem enter_alike (hR : Faithful R) {t t' : Token} (ht : R t t') {scope scope' : Scope}
    (hscope : scope.Alike R scope') :
    (∃ s₁ s₁', l.enter host t scope = .ok s₁ ∧ l.enter host t' scope' = .ok s₁' ∧ s₁.Alike R s₁') ∨
      ∃ r r', l.enter host t scope = .error r ∧ l.enter host t' scope' = .error r' := by
  simp only [enter, hR.kind ht]
  split
  · exact hscope.declare hR ht
  · exact Or.inl ⟨scope, scope', rfl, rfl, hscope⟩

/-- From a state that is alike a run takes the same course. -/
theorem Runs.alike [DecidableEq N] (hR : Faithful R) (h : l.Runs host symbols s ds ts s' fault)
    (hs : s.Alike R u) :
    ∃ ds' ts' u' fault', l.Runs host symbols u ds' ts' u' fault' ∧ Alike ds ds' ∧
      List.Forall₂ R ts ts' ∧ s'.Alike R u' ∧ fault'.map Fault.cause = fault.map Fault.cause := by
  induction h generalizing u with
  | nil => exact ⟨_, _, _, _, .nil, .nil, .nil, hs, rfl⟩
  | ended hend _ ih =>
    obtain ⟨ds', ts', u', fault', hrun, hds, hts, hu', hfault⟩ := ih hs
    have hend' : u.cursor.rest = [] := by
      have hrest := hs.rest
      rw [hend] at hrest
      exact List.forall₂_nil_left_iff.mp hrest
    exact ⟨_, _, _, _, .ended hend' hrun, .terminal _ _ _ hds, hts, hu', hfault⟩
  | @matched host kind rest s s' t left scope ds ts fault hfront hkind henter _ ih =>
    have hrest := hs.rest
    rw [hfront] at hrest
    obtain ⟨t', left', ht, hleft, hfront'⟩ := List.forall₂_cons_left_iff.mp hrest
    rcases enter_alike hR ht hs.scope with ⟨s₁, s₁', hok, hok', hscope⟩ | ⟨r, _, herror, _⟩
    · obtain rfl := Except.ok.inj (henter.symm.trans hok)
      have hnext : State.Alike R ⟨⟨left, s.cursor.consumed + 1⟩, scope⟩
          ⟨⟨left', u.cursor.consumed + 1⟩, s₁'⟩ :=
        ⟨hleft, congrArg (· + 1) hs.consumed, hscope⟩
      obtain ⟨ds', ts', u', fault', hrun, hds, hts, hu', hfault⟩ := ih hnext
      exact ⟨_, _, _, _, .matched hfront' ((hR.kind ht).trans hkind) hok' hrun,
        .terminal _ _ _ hds, .cons ht hts, hu', hfault⟩
    · cases henter.symm.trans herror
  | @redeclared host kind rest s t left r hfront hkind henter =>
    have hrest := hs.rest
    rw [hfront] at hrest
    obtain ⟨t', left', ht, hleft, hfront'⟩ := List.forall₂_cons_left_iff.mp hrest
    rcases enter_alike hR ht hs.scope with ⟨s₁, _, hok, _⟩ | ⟨_, r', _, herror'⟩
    · cases henter.symm.trans hok
    · exact ⟨_, _, _, _, .redeclared hfront' ((hR.kind ht).trans hkind) herror',
        .terminal _ _ _ (.error _ _), .cons ht .nil,
        ⟨hleft, congrArg (· + 1) hs.consumed, hs.scope⟩, rfl⟩
  | mismatched hkind =>
    rw [← hs.kind_eq hR] at hkind
    exact ⟨_, _, _, _, .mismatched hkind, .error _ _, .nil, hs, rfl⟩
  | refused hchoose =>
    rw [← hs.kind_eq hR] at hchoose
    exact ⟨_, _, _, _, .refused hchoose, .production _ (.error _ _) .nil, .nil, hs, rfl⟩
  | vanished hchoose _ ih =>
    obtain ⟨ds', ts', u', fault', hrun, hds, hts, hu', hfault⟩ := ih hs
    rw [← hs.kind_eq hR] at hchoose
    exact ⟨_, _, _, _, .vanished hchoose hrun, .production _ .empty hds, hts, hu', hfault⟩
  | called hchoose halt _ _ ihc ihr =>
    obtain ⟨ds', ts', u₁, fault₁, hcall, hds, hts, hu₁, hdone⟩ := ihc hs
    obtain ⟨es', us', u', fault', hrest, hes, hus, hu', hfault⟩ := ihr hu₁
    obtain rfl := Option.map_eq_none_iff.mp hdone
    rw [← hs.kind_eq hR] at hchoose
    exact ⟨_, _, _, _, .called hchoose halt hcall hrest, .production _ hds hes,
      List.rel_append hts hus, hu', hfault⟩
  | broken hchoose halt _ ih =>
    obtain ⟨ds', ts', u', fault', hcall, hds, hts, hu', hfault⟩ := ih hs
    obtain ⟨f', rfl, hcause⟩ := Option.map_eq_some_iff.mp hfault
    rw [← hs.kind_eq hR] at hchoose
    exact ⟨_, _, _, _, .broken hchoose halt hcall, .production _ hds .nil, hts, hu', hfault⟩

end Language

end TopDown
