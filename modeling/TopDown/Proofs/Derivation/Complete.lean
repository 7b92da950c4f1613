import TopDown.Proofs.Derivation.Trees

/-!
# Completeness

Where the tokens ahead are the leaves of derivation trees, and a kind that may follow comes after
them, a run finds these trees, unless a second declaration stops it.
-/

namespace TopDown

open TopDown.Derivation

/-- The leaves are those of the tokens ahead, and perhaps of ends of input after them. -/
def State.Sees (s : State) (leaves : List (Kind × String)) : Prop :=
  ∃ ends, leaves = s.cursor.rest.map Token.leaf ++ List.replicate ends endLeaf

theorem State.Sees.head? {s : State} {leaves : List (Kind × String)} (h : s.Sees leaves)
    (hne : leaves ≠ []) : (leaves.map Prod.fst).head? = some s.kind := by
  obtain ⟨ends, rfl⟩ := h
  cases hrest : s.cursor.rest with
  | nil =>
    rw [hrest] at hne
    obtain ⟨n, rfl⟩ := Nat.exists_eq_succ_of_ne_zero (n := ends) (by rintro rfl; simp at hne)
    rw [State.kind_of_rest_eq_nil hrest]
    rfl
  | cons t left =>
    rw [State.kind_of_rest_eq_cons hrest]
    rfl

namespace Language

variable {N : Type} [DecidableEq N] {l : Language N} {host : N} {symbols : List (Symbol N)}
  {s s' : State} {ds : List (Derivation N)} {ts : List Token} {fault : Option Fault}

/-- A run takes its leaves off those that it sees. -/
theorem Runs.sees (h : l.Runs host symbols s ds ts s' fault) {after : List (Kind × String)}
    (hs : s.Sees (leavesOf ds ++ after)) : s'.Sees after := by
  obtain ⟨ends, hleaves⟩ := hs
  obtain ⟨met, hmet, hempty⟩ := h.leaves
  rw [hmet, h.consumes.1, List.map_append, List.append_assoc, List.append_assoc,
    List.append_cancel_left_eq] at hleaves
  by_cases hzero : met = 0
  · refine ⟨ends, ?_⟩
    simpa [hzero] using hleaves
  · rw [hempty hzero, List.map_nil, List.nil_append] at hleaves
    obtain ⟨_, _, hafter⟩ := List.append_eq_replicate_iff.mp hleaves
    refine ⟨after.length, ?_⟩
    rw [hempty hzero, List.map_nil, List.nil_append]
    exact hafter

/-- The run finds the trees, or a second declaration stops it. -/
def Finds (l : Language N) (host : N) (symbols : List (Symbol N)) (s : State)
    (ds : List (Derivation N)) : Prop :=
  (∃ ts s', l.Runs host symbols s ds ts s' none) ∨
    ∃ es ts s' r, l.Runs host symbols s es ts s' (some (.redeclared r))

theorem finds_terminal {kind : Kind} {rest : List (Symbol N)} {lexeme : String}
    {leaves : List (Kind × String)} (hs : s.Sees ((kind, lexeme) :: leaves))
    (hrest : ∀ s', s'.Sees leaves → l.Finds host rest s' ds) :
    l.Finds host (.terminal kind :: rest) s (.terminal kind lexeme :: ds) := by
  obtain ⟨ends, hleaves⟩ := hs
  cases hleft : s.cursor.rest with
  | nil =>
    rw [hleft, List.map_nil, List.nil_append] at hleaves
    obtain ⟨ends, rfl⟩ := Nat.exists_eq_succ_of_ne_zero (n := ends) (by rintro rfl; cases hleaves)
    obtain ⟨hleaf, htail⟩ := List.cons.inj hleaves
    obtain ⟨rfl, rfl⟩ := Prod.mk.inj hleaf
    rcases hrest s ⟨ends, by rw [hleft]; exact htail⟩ with ⟨ts, s', hrun⟩ | ⟨es, ts, s', r, hrun⟩
    · exact Or.inl ⟨ts, s', .ended hleft hrun⟩
    · exact Or.inr ⟨_, ts, s', r, .ended hleft hrun⟩
  | cons t left =>
    rw [hleft, List.map_cons, List.cons_append] at hleaves
    obtain ⟨hleaf, htail⟩ := List.cons.inj hleaves
    obtain ⟨rfl, rfl⟩ := Prod.mk.inj hleaf
    cases henter : l.enter host t s.scope with
    | ok scope =>
      rcases hrest ⟨⟨left, s.cursor.consumed + 1⟩, scope⟩ ⟨ends, htail⟩ with
        ⟨ts, s', hrun⟩ | ⟨es, ts, s', r, hrun⟩
      · exact Or.inl ⟨_, s', .matched hleft rfl henter hrun⟩
      · exact Or.inr ⟨_, _, s', r, .matched hleft rfl henter hrun⟩
    | error r => exact Or.inr ⟨_, _, _, r, .redeclared hleft rfl henter⟩

/-- Derivation trees of the leaves ahead are found. -/
theorem Predictive.finds_trees (hl : l.Predictive) (h : l.grammar.Trees symbols ds)
    (hhost : l.grammar.Ends host symbols) {after : List (Kind × String)}
    (hafter : ∀ k ∈ (after.map Prod.fst).head?, l.Follows symbols k) (hne : after ≠ [])
    (hs : s.Sees (leavesOf ds ++ after)) : l.Finds host symbols s ds := by
  induction h generalizing host s after with
  | nil => exact Or.inl ⟨[], s, .nil⟩
  | terminal lexeme hrest ih =>
    exact finds_terminal hs fun s' => ih hhost.tail (fun k hk => (hafter k hk).tail) hne
  | @empty n rest ds halt hrest ih =>
    have hkind := hs.head? (by simp [hne])
    rw [leavesOf_production, List.append_assoc] at hkind hs
    have hchoose := (hl.choose?_of_below hhost halt (Grammar.below_nil_iff.mpr rfl) hrest hafter
      hkind).1
    rcases ih hhost.tail (fun k hk => (hafter k hk).tail) hne hs with
      ⟨ts, s', hrun⟩ | ⟨es, ts, s', r, hrun⟩
    · exact Or.inl ⟨ts, s', .vanished hchoose hrun⟩
    · exact Or.inr ⟨_, ts, s', r, .vanished hchoose hrun⟩
  | @production n alt rest children ds halt hnonempty hchildren hrest ihc ihr =>
    have hkind := hs.head? (by simp [hne])
    rw [leavesOf_production, List.append_assoc] at hkind hs
    obtain ⟨hchoose, hfollows⟩ := hl.choose?_of_below hhost halt
      ((Grammar.below_iff_of_ne_nil hnonempty).mpr hchildren) hrest hafter hkind
    rcases ihc (Grammar.ends_of_mem halt) hfollows (by simp [hne]) hs with
      ⟨ts, s₁, hcall⟩ | ⟨es, ts, s', r, hcall⟩
    · rcases ihr hhost.tail (fun k hk => (hafter k hk).tail) hne (hcall.sees hs) with
        ⟨us, s', hrun⟩ | ⟨es, us, s', r, hrun⟩
      · exact Or.inl ⟨_, s', .called hchoose hnonempty hcall hrun⟩
      · exact Or.inr ⟨_, _, s', r, .called hchoose hnonempty hcall hrun⟩
    · exact Or.inr ⟨_, ts, s', r, .broken hchoose hnonempty hcall⟩

end Language

end TopDown
