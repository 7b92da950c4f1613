import Mathlib.Data.List.Basic
import TopDown.Proofs.Derivation.Run
import TopDown.Proofs.Grammar.Derivability

/-!
# The word of a run

The terminal leaves that a run derives are those of the tokens it consumes, in order; after them
come the leaves for an end of input that was met with the tokens exhausted. Their kinds make up a
word. A run that is done yields its word, and a run that failed can be completed to a word that its
symbols yield: nothing is consumed that no program begins with.
-/

namespace TopDown

/-- The leaf of end-of-input. -/
def endLeaf : Kind × String :=
  (.endOfInput, Kind.endOfInput.name)

def Token.leaf (t : Token) : Kind × String :=
  (t.kind, t.lexeme)

namespace Derivation

variable {N : Type}

mutual
/-- The kinds and lexemes of the terminals, from left to right. -/
def leaves : Derivation N → List (Kind × String)
  | .production _ children => leavesOf children
  | .terminal kind lexeme => [(kind, lexeme)]
  | .empty => []
  | .error _ => []
def leavesOf : List (Derivation N) → List (Kind × String)
  | [] => []
  | d :: rest => d.leaves ++ leavesOf rest
end

theorem leavesOf_append (ds es : List (Derivation N)) :
    leavesOf (ds ++ es) = leavesOf ds ++ leavesOf es := by
  induction ds with
  | nil => rfl
  | cons d ds ih => rw [List.cons_append, leavesOf, leavesOf, ih, List.append_assoc]

/-- The kinds of the terminals, from left to right. -/
def wordOf (ds : List (Derivation N)) : List Kind :=
  (leavesOf ds).map Prod.fst

@[simp] theorem wordOf_nil : wordOf ([] : List (Derivation N)) = [] := by
  simp [wordOf, leavesOf]

@[simp] theorem wordOf_production (n : N) (children ds : List (Derivation N)) :
    wordOf (.production n children :: ds) = wordOf children ++ wordOf ds := by
  simp [wordOf, leavesOf, leaves]

@[simp] theorem wordOf_terminal (kind : Kind) (lexeme : String) (ds : List (Derivation N)) :
    wordOf (.terminal kind lexeme :: ds) = kind :: wordOf ds := by
  simp [wordOf, leavesOf, leaves]

@[simp] theorem wordOf_empty (ds : List (Derivation N)) : wordOf (.empty :: ds) = wordOf ds := by
  simp [wordOf, leavesOf, leaves]

@[simp] theorem wordOf_error (fault : Fault) (ds : List (Derivation N)) :
    wordOf (.error fault :: ds) = wordOf ds := by
  simp [wordOf, leavesOf, leaves]

end Derivation

open TopDown.Derivation

/-- The kind of the first token, or end-of-input if there is none. -/
def Token.firstKind (tokens : List Token) : Kind :=
  tokens.head?.elim .endOfInput Token.kind

namespace State

theorem kind_eq_firstKind (s : State) : s.kind = Token.firstKind s.cursor.rest := by
  rw [State.kind, Cursor.kind, Token.firstKind]
  split <;> simp [*]

theorem kind_of_rest_eq_nil {s : State} (hs : s.cursor.rest = []) : s.kind = .endOfInput := by
  simp [State.kind, Cursor.kind, hs]

theorem kind_of_rest_eq_cons {s : State} {t : Token} {left : List Token}
    (hs : s.cursor.rest = t :: left) : s.kind = t.kind := by
  simp [State.kind, Cursor.kind, hs]

end State

namespace Language

variable {N : Type} [DecidableEq N] {l : Language N} {host : N} {symbols : List (Symbol N)}
  {s s' : State} {ds : List (Derivation N)} {ts : List Token} {fault : Option Fault}

/-! ## Tokens -/

/-- The consumed tokens come off the front of those that are left, and are counted. -/
theorem Runs.consumes (h : l.Runs host symbols s ds ts s' fault) :
    s.cursor.rest = ts ++ s'.cursor.rest ∧ s'.cursor.consumed = s.cursor.consumed + ts.length := by
  induction h with
  | nil => simp
  | ended _ _ ih => exact ih
  | matched hs _ _ _ ih =>
    obtain ⟨hrest, hcount⟩ := ih
    refine ⟨hs.trans (congrArg _ hrest), ?_⟩
    simp only [List.length_cons] at hcount ⊢
    omega
  | redeclared hs => exact ⟨hs, rfl⟩
  | mismatched => simp
  | refused => simp
  | vanished _ _ ih => exact ih
  | called _ _ _ _ ihc ihr =>
    obtain ⟨hrestc, hcountc⟩ := ihc
    obtain ⟨hrestr, hcountr⟩ := ihr
    refine ⟨by rw [hrestc, hrestr, List.append_assoc], ?_⟩
    rw [List.length_append]
    omega
  | broken _ _ _ ih => exact ih

/-- The leaves are those of the consumed tokens, and after them one for each end of input. -/
theorem Runs.leaves (h : l.Runs host symbols s ds ts s' fault) :
    ∃ ends, leavesOf ds = ts.map Token.leaf ++ List.replicate ends endLeaf ∧
      (ends ≠ 0 → s'.cursor.rest = []) := by
  induction h with
  | nil => exact ⟨0, rfl, by simp⟩
  | ended hs hrest ih =>
    obtain ⟨ends, hleaves, _⟩ := ih
    obtain ⟨rfl, hleft⟩ := List.nil_eq_append_iff.mp (hs.symm.trans hrest.consumes.1)
    refine ⟨ends + 1, ?_, fun _ => hleft⟩
    simp only [leavesOf, Derivation.leaves, hleaves, List.map_nil, List.nil_append]
    rfl
  | matched _ hkind _ _ ih =>
    obtain ⟨ends, hleaves, hends⟩ := ih
    refine ⟨ends, ?_, hends⟩
    simp [leavesOf, Derivation.leaves, hleaves, Token.leaf, hkind]
  | redeclared _ hkind =>
    refine ⟨0, ?_, by simp⟩
    simp [leavesOf, Derivation.leaves, Token.leaf, hkind]
  | mismatched => exact ⟨0, rfl, by simp⟩
  | refused => exact ⟨0, rfl, by simp⟩
  | vanished _ _ ih => exact ih
  | called _ _ _ hrest ihc ihr =>
    obtain ⟨ends, hleaves, hends⟩ := ihc
    obtain ⟨more, hleaves', hends'⟩ := ihr
    by_cases hzero : ends = 0
    · refine ⟨more, ?_, hends'⟩
      simp [leavesOf, Derivation.leaves, hleaves, hleaves', hzero]
    · -- Nothing is left after an end of input, so that nothing more is consumed.
      obtain ⟨rfl, hleft⟩ := List.nil_eq_append_iff.mp ((hends hzero).symm.trans hrest.consumes.1)
      refine ⟨ends + more, ?_, fun _ => hleft⟩
      simp [leavesOf, Derivation.leaves, hleaves, hleaves']
  | broken _ _ _ ih =>
    obtain ⟨ends, hleaves, hends⟩ := ih
    exact ⟨ends, by simp [leavesOf, Derivation.leaves, hleaves], hends⟩

/-- What a run sees: its word and then the kind that it stops at. The first kind of it is the one
that the run starts with. -/
theorem Runs.head (h : l.Runs host symbols s ds ts s' fault) :
    (wordOf ds ++ [s'.kind]).head? = some s.kind := by
  induction h with
  | nil => simp
  | ended hs => simp [State.kind_of_rest_eq_nil hs]
  | matched hs hkind => simp [State.kind_of_rest_eq_cons hs, hkind]
  | redeclared hs hkind => simp [State.kind_of_rest_eq_cons hs, hkind]
  | mismatched => simp
  | refused => simp
  | vanished _ _ ih => simpa using ih
  | @called host n alt rest s s₁ s' ds es ts us fault _ _ _ _ ihc ihr =>
    cases hword : wordOf ds with
    | nil =>
      have hsame : s₁.kind = s.kind := by simpa [hword] using ihc
      simpa [hword, hsame] using ihr
    | cons kind word =>
      have hfirst : kind = s.kind := by simpa [hword] using ihc
      simp [hword, hfirst]
  | broken _ _ _ ih => simpa using ih

end Language

/-! ## Words -/

theorem Language.mem_alternatives_of_choose? {N : Type} [DecidableEq N] {l : Language N} {n : N}
    {kind : Kind} {alt : Alternative N} (h : l.choose? n kind = some alt) :
    alt ∈ l.grammar.alternatives n := by
  unfold choose? at h
  split at h
  · next only hone =>
    obtain rfl := Option.some.inj h
    simp [hone]
  · exact List.mem_of_find?_eq_some h

/-- Every non-terminal yields a word. -/
def Grammar.Productive {N : Type} [DecidableEq N] (g : Grammar N) : Prop :=
  ∀ n, ∃ word, g.Yields [.nonterminal n] word

theorem Grammar.Productive.yields {N : Type} [DecidableEq N] {g : Grammar N} (hg : g.Productive)
    (symbols : List (Symbol N)) : ∃ word, g.Yields symbols word := by
  induction symbols with
  | nil => exact ⟨[], .nil⟩
  | cons symbol rest ih =>
    obtain ⟨back, hback⟩ := ih
    cases symbol with
    | terminal kind => exact ⟨kind :: back, .terminal hback⟩
    | nonterminal n =>
      obtain ⟨front, hfront⟩ := hg n
      exact ⟨front ++ back, yields_append_iff.mpr ⟨front, back, rfl, hfront, hback⟩⟩

namespace Language

variable {N : Type} [DecidableEq N] {l : Language N} {host : N} {symbols : List (Symbol N)}
  {s s' : State} {ds : List (Derivation N)} {ts : List Token} {fault : Option Fault}

/-- The word of a run begins a word that the symbols yield, and is one if the run is done. -/
theorem Runs.yields (hg : l.grammar.Productive) (h : l.Runs host symbols s ds ts s' fault) :
    ∃ back, l.grammar.Yields symbols (wordOf ds ++ back) ∧ (fault = none → back = []) := by
  induction h with
  | nil => exact ⟨[], .nil, fun _ => rfl⟩
  | ended _ _ ih =>
    obtain ⟨back, hback, hdone⟩ := ih
    exact ⟨back, by simpa using Grammar.Yields.terminal hback, hdone⟩
  | matched _ _ _ _ ih =>
    obtain ⟨back, hback, hdone⟩ := ih
    exact ⟨back, by simpa using Grammar.Yields.terminal hback, hdone⟩
  | @redeclared host kind rest =>
    obtain ⟨back, hback⟩ := hg.yields rest
    exact ⟨back, by simpa using Grammar.Yields.terminal hback, by simp⟩
  | @mismatched host kind rest =>
    obtain ⟨back, hback⟩ := hg.yields (.terminal kind :: rest)
    exact ⟨back, by simpa using hback, by simp⟩
  | @refused host n rest =>
    obtain ⟨back, hback⟩ := hg.yields (.nonterminal n :: rest)
    exact ⟨back, by simpa using hback, by simp⟩
  | vanished hchoose _ ih =>
    obtain ⟨back, hback, hdone⟩ := ih
    have hmem := mem_alternatives_of_choose? hchoose
    exact ⟨back, by simpa using Grammar.Yields.nonterminal hmem .nil hback, hdone⟩
  | called hchoose _ _ _ ihc ihr =>
    obtain ⟨nothing, hfront, hnothing⟩ := ihc
    obtain rfl := hnothing rfl
    obtain ⟨back, hback, hdone⟩ := ihr
    have hmem := mem_alternatives_of_choose? hchoose
    exact ⟨back, by simpa using Grammar.Yields.nonterminal hmem hfront hback, hdone⟩
  | @broken host n alt rest _ _ _ _ _ hchoose _ _ ih =>
    obtain ⟨front, hfront, _⟩ := ih
    obtain ⟨back, hback⟩ := hg.yields rest
    have hmem := mem_alternatives_of_choose? hchoose
    exact ⟨front ++ back, by simpa using Grammar.Yields.nonterminal hmem hfront hback, by simp⟩

end Language

end TopDown
