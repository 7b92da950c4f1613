import TopDown.Proofs.Derivation.Passes

/-!
# Levels

A call takes a level of its own, and where it goes on with its own non-terminal it takes no other.
So the levels that a call takes can be read off its derivation. A call that has them to spend finds
what a run finds, and a call that has fewer nests too deeply: but for the depth, runs and calls are
the same.
-/

namespace TopDown

open TopDown.Derivation

namespace Derivation

variable {N : Type} [DecidableEq N]

mutual
/-- The levels that a derivation takes below the level of `host`. -/
def levelsIn (host : N) : Derivation N → Nat
  | .production n children => levelsBelow n children + if n = host then 0 else 1
  | .terminal _ _ => 0
  | .empty => 0
  | .error _ => 0
/-- The levels that the children of a node for `host` take below its own. -/
def levelsBelow (host : N) : List (Derivation N) → Nat
  | [] => 0
  | d :: ds => max (d.levelsIn host) (levelsBelow host ds)
end

@[simp] theorem levelsBelow_nil (host : N) : levelsBelow host [] = 0 := by
  rw [levelsBelow]

theorem levelsBelow_cons_le_iff {host : N} {d : Derivation N} {ds : List (Derivation N)}
    {levels : Nat} :
    levelsBelow host (d :: ds) ≤ levels ↔
      d.levelsIn host ≤ levels ∧ levelsBelow host ds ≤ levels := by
  rw [levelsBelow, Nat.max_le]

theorem levelsIn_production_self (n : N) (children : List (Derivation N)) :
    (production n children).levelsIn n = levelsBelow n children := by
  rw [levelsIn, if_pos rfl, Nat.add_zero]

theorem levelsIn_production_of_ne {host n : N} (hn : n ≠ host) (children : List (Derivation N)) :
    (production n children).levelsIn host = levelsBelow n children + 1 := by
  rw [levelsIn, if_neg hn]

theorem levelsBelow_append (host : N) (ds es : List (Derivation N)) :
    levelsBelow host (ds ++ es) = max (levelsBelow host ds) (levelsBelow host es) := by
  induction ds with
  | nil => simp
  | cons d ds ih => rw [List.cons_append, levelsBelow, levelsBelow, ih, Nat.max_assoc]

end Derivation

namespace Outcome

variable {α β : Type}

theorem map_settled (f : α → β) (a : α) (s : State) (fault : Option Fault) :
    (settled a s fault).map f = settled (f a) s fault := by
  cases fault <;> rfl

theorem settled_inj {a b : α} {s s' : State} {fault fault' : Option Fault}
    (h : settled a s fault = settled b s' fault') : a = b ∧ s = s' ∧ fault = fault' := by
  cases fault <;> cases fault' <;> simp_all [settled]

theorem settled_append (a b : List α) {s s' : State} {fault : Option Fault}
    {next : State → Outcome (List α)} (h : next s = settled b s' fault) :
    (settled a s none).append next = settled (a ++ b) s' fault := by
  show (next s).map (a ++ ·) = _
  rw [h, map_settled]

end Outcome

namespace Language

variable {N : Type} [DecidableEq N] {l : Language N} {host n : N} {depth passes : Nat}

/-! ## From calls to levels -/

/-- What the calls for `n` derive takes fewer than so many levels below its own. -/
def Within (n : N) (levels : Nat) (calls : State → Outcome (Derivation N)) : Prop :=
  ∀ s d s' fault, calls s = .settled d s' fault →
    ∃ children, d = .production n children ∧ levelsBelow n children < levels

theorem levelsBelow_of_terminal {kind : Kind} {s s' : State} {ds : List (Derivation N)}
    {fault : Option Fault} (h : l.terminal host kind s = .settled ds s' fault) :
    levelsBelow host ds = 0 := by
  obtain ⟨ts, hrun⟩ := runs_of_terminal_eq_settled h
  cases hrun with
  | ended _ hnil | matched _ _ _ hnil =>
    cases hnil
    simp [levelsBelow, levelsIn]
  | redeclared | mismatched => simp [levelsBelow, levelsIn]

theorem levelsBelow_of_symbols {below : N → State → Outcome (Derivation N)}
    {again : State → Outcome (Derivation N)} (hbelow : ∀ n, Within n depth (below n))
    (hagain : Within host (depth + 1) again) {symbols : List (Symbol N)} {s s' : State}
    {ds : List (Derivation N)} {fault : Option Fault}
    (h : l.symbols below again host symbols s = .settled ds s' fault) :
    levelsBelow host ds ≤ depth := by
  induction symbols generalizing s ds with
  | nil =>
    cases fault with
    | none =>
      obtain ⟨rfl, rfl⟩ := Outcome.done.inj h
      simp
    | some f => cases h
  | cons symbol rest ih =>
    -- What the first symbol derives takes few enough levels, and so does the rest.
    have hsplit {o : Outcome (List (Derivation N))}
        (ho : ∀ as s₁ f, o = .settled as s₁ f → levelsBelow host as ≤ depth)
        (h : o.append (l.symbols below again host rest) = .settled ds s' fault) :
        levelsBelow host ds ≤ depth := by
      rcases Outcome.append_eq_settled h with ⟨as, s₁, bs, has, hbs, rfl⟩ | ⟨f, rfl, hf⟩
      · rw [levelsBelow_append]
        exact max_le (ho as s₁ none has) (ih hbs)
      · exact ho ds s' (some f) hf
    cases symbol with
    | terminal kind =>
      exact hsplit (fun as s₁ f has => by simp [levelsBelow_of_terminal has]) h
    | nonterminal n =>
      refine hsplit (fun as s₁ f has => ?_) h
      obtain ⟨d, hd, rfl⟩ := Outcome.map_eq_settled has
      refine levelsBelow_cons_le_iff.mpr ⟨?_, by simp⟩
      split at hd
      · next hlast =>
        obtain ⟨children, rfl, hlevels⟩ := hagain _ _ _ _ hd
        rw [levelsIn_production_self]
        omega
      · obtain ⟨children, rfl, hlevels⟩ := hbelow n _ _ _ _ hd
        rw [levelsIn]
        split <;> omega

theorem within_produce {below : N → State → Outcome (Derivation N)}
    (hbelow : ∀ n, Within n depth (below n)) (passes : Nat) (n : N) :
    Within n (depth + 1) (l.produce below passes n) := by
  induction passes generalizing n with
  | zero =>
    intro s d s' fault h
    cases fault <;> cases h
  | succ passes ih =>
    intro s d s' fault h
    obtain ⟨ds, hds, rfl⟩ := Outcome.map_eq_settled h
    refine ⟨ds, rfl, Nat.lt_succ_of_le ?_⟩
    cases hchoose : l.choose? n s.kind with
    | none =>
      rw [hchoose] at hds
      cases fault with
      | none => cases hds
      | some f =>
        obtain ⟨rfl, _⟩ := Outcome.failed.inj hds
        simp [levelsBelow, levelsIn]
    | some alt =>
      rw [hchoose] at hds
      cases alt with
      | nil =>
        cases fault with
        | none =>
          obtain ⟨rfl, _⟩ := Outcome.done.inj hds
          simp [levelsBelow, levelsIn]
        | some f => cases hds
      | cons symbol alt => exact levelsBelow_of_symbols hbelow (ih n) hds

/-- A call takes no more levels than it has. -/
theorem within_call (depth : Nat) (n : N) : Within n depth (l.call depth n) := by
  induction depth generalizing n with
  | zero =>
    intro s d s' fault h
    cases fault <;> cases h
  | succ depth ih =>
    intro s
    exact within_produce ih _ n s

/-! ## From runs to calls -/

/-- An alternative uses its own non-terminal only at its end. -/
def EndsRecursive (l : Language N) : Prop :=
  ∀ host rest, l.grammar.Ends host (.nonterminal host :: rest) → rest = []

section

variable (hl : l.Progressive) (hrec : l.EndsRecursive)
include hl hrec

/-- A call that `host` makes has its levels to spend if `host` has them below its own. -/
theorem call_of_produce {rest : List (Symbol N)} {s s' : State} {children : List (Derivation N)}
    {fault : Option Fault} (hhost : l.grammar.Ends host (.nonterminal n :: rest))
    (hdepth : (Derivation.production n children).levelsIn host ≤ depth)
    (hpasses : s.cursor.rest.length < passes)
    (h : ∀ depth passes, levelsBelow n children ≤ depth → s.cursor.rest.length < passes →
      l.produce (l.call depth) (passes + 1) n s = .settled (.production n children) s' fault) :
    (if n = host ∧ rest = [] then l.produce (l.call depth) passes host else l.call depth n) s =
      .settled (.production n children) s' fault := by
  by_cases hn : n = host
  · subst hn
    rw [levelsIn_production_self] at hdepth
    rw [if_pos ⟨rfl, hrec n rest hhost⟩,
      produce_congr hl (runs_of_call depth) n hpasses (Nat.lt_succ_of_lt hpasses)]
    exact h depth passes hdepth hpasses
  · rw [levelsIn_production_of_ne hn] at hdepth
    obtain ⟨depth, rfl⟩ := Nat.exists_eq_succ_of_ne_zero (by omega : depth ≠ 0)
    rw [if_neg fun hboth => hn hboth.1, call,
      produce_congr hl (runs_of_call depth) n (Nat.lt_succ_self _)
        (Nat.lt_succ_of_lt (Nat.lt_succ_self _))]
    exact h depth _ (Nat.le_of_succ_le_succ hdepth) (Nat.lt_succ_self _)

/-- With the levels that it takes to spend, work through symbols finds what a run finds. -/
theorem symbols_of_runs {symbols : List (Symbol N)} {s s' : State} {ds : List (Derivation N)}
    {ts : List Token} {fault : Option Fault} (h : l.Runs host symbols s ds ts s' fault)
    (hhost : l.grammar.Ends host symbols) (hdepth : levelsBelow host ds ≤ depth)
    (hpasses : s.cursor.rest.length < passes) :
    l.symbols (l.call depth) (l.produce (l.call depth) passes host) host symbols s =
      .settled ds s' fault := by
  induction h generalizing depth passes with
  | nil => rfl
  | @ended host rest s s' ds ts fault hs hrest ih =>
    obtain ⟨⟨left, count⟩, scope⟩ := s
    obtain rfl : left = [] := hs
    obtain ⟨_, hdepth⟩ := levelsBelow_cons_le_iff.mp hdepth
    exact Outcome.settled_append [_] ds (ih hhost.tail hdepth hpasses)
  | @matched host kind rest s s' t left scope ds ts fault hs hkind henter hrest ih =>
    obtain ⟨⟨all, count⟩, scope⟩ := s
    obtain rfl : all = t :: left := hs
    subst hkind
    obtain ⟨_, hdepth⟩ := levelsBelow_cons_le_iff.mp hdepth
    rw [Language.symbols, terminal_of_enter_eq_ok henter]
    exact Outcome.settled_append [_] ds (ih hhost.tail hdepth (Nat.lt_of_succ_lt hpasses))
  | @redeclared host kind rest s t left r hs hkind henter =>
    obtain ⟨⟨all, count⟩, scope⟩ := s
    obtain rfl : all = t :: left := hs
    subst hkind
    rw [Language.symbols, terminal_of_enter_eq_error henter]
    rfl
  | mismatched hkind =>
    rw [Language.symbols, terminal, if_neg hkind]
    rfl
  | @refused host n rest s hchoose =>
    obtain ⟨hfirst, _⟩ := levelsBelow_cons_le_iff.mp hdepth
    have hcall := call_of_produce hl hrec hhost hfirst hpasses fun depth passes _ _ => by
      rw [produce, hchoose]
      exact Outcome.map_settled _ [_] s (some _)
    rw [Language.symbols]
    simp only [hcall]
    rfl
  | @vanished host n rest s s' ds ts fault hchoose hrest ih =>
    obtain ⟨hfirst, hdepth⟩ := levelsBelow_cons_le_iff.mp hdepth
    have hcall := call_of_produce hl hrec hhost hfirst hpasses fun depth passes _ _ => by
      rw [produce, hchoose]
      exact Outcome.map_settled _ [_] s none
    rw [Language.symbols]
    simp only [hcall]
    exact Outcome.settled_append [_] ds (ih hhost.tail hdepth hpasses)
  | @called host n alt rest s s₁ s' ds es ts us fault hchoose hne hrun hrest ihc ihr =>
    obtain ⟨hfirst, hdepth⟩ := levelsBelow_cons_le_iff.mp hdepth
    have halt := Grammar.ends_of_mem (mem_alternatives_of_choose? hchoose)
    have hcall := call_of_produce hl hrec hhost hfirst hpasses fun depth passes hlevels hmore => by
      rw [produce_of_choose? hchoose hne, ihc halt hlevels hmore]
      exact Outcome.map_settled _ ds s₁ none
    have hfewer := congrArg List.length hrun.consumes.1
    rw [List.length_append] at hfewer
    rw [Language.symbols]
    simp only [hcall]
    exact Outcome.settled_append [_] es (ihr hhost.tail hdepth (by omega))
  | @broken host n alt rest s s' ds ts f hchoose hne hrun ih =>
    obtain ⟨hfirst, _⟩ := levelsBelow_cons_le_iff.mp hdepth
    have halt := Grammar.ends_of_mem (mem_alternatives_of_choose? hchoose)
    have hcall := call_of_produce hl hrec hhost hfirst hpasses fun depth passes hlevels hmore => by
      rw [produce_of_choose? hchoose hne, ih halt hlevels hmore]
      exact Outcome.map_settled _ ds s' (some f)
    rw [Language.symbols]
    simp only [hcall]
    rfl

/-- A call finds what a run finds whose levels it has, and nothing else. -/
theorem call_eq_settled_iff {s s' : State} {d : Derivation N} {fault : Option Fault} :
    l.call depth n s = .settled d s' fault ↔
      ∃ children ts, d = .production n children ∧ levelsBelow n children < depth ∧
        l.Runs host [.nonterminal n] s [d] ts s' fault := by
  constructor
  · intro h
    obtain ⟨children, rfl, hlevels⟩ := within_call depth n s d s' fault h
    obtain ⟨ts, hrun⟩ := runs_of_call depth n host s _ s' fault h
    exact ⟨children, ts, rfl, hlevels, hrun⟩
  · rintro ⟨children, ts, rfl, hlevels, hrun⟩
    obtain ⟨depth, rfl⟩ := Nat.exists_eq_succ_of_ne_zero (by omega : depth ≠ 0)
    rw [call, produce_congr hl (runs_of_call depth) n (Nat.lt_succ_self _)
      (Nat.lt_succ_of_lt (Nat.lt_succ_self _))]
    obtain ⟨_, hd, hcases⟩ := hrun.of_call
    obtain rfl := Derivation.production.inj (List.singleton_inj.mp hd) |>.2
    rcases hcases with ⟨hchoose, rfl, rfl, f, rfl, rfl, rfl⟩ | ⟨hchoose, rfl, rfl, rfl, rfl⟩ |
      ⟨alt, hchoose, hne, hrun⟩
    · rw [produce, hchoose]
      exact Outcome.map_settled _ [_] s' (some _)
    · rw [produce, hchoose]
      exact Outcome.map_settled _ [_] s' none
    · have halt := Grammar.ends_of_mem (mem_alternatives_of_choose? hchoose)
      rw [produce_of_choose? hchoose hne, symbols_of_runs hl hrec hrun halt
        (Nat.le_of_lt_succ hlevels) (Nat.lt_succ_self _)]
      exact Outcome.map_settled _ children s' fault

/-- Symbols have one run from each state. -/
theorem Runs.unique {symbols : List (Symbol N)} {s s₁ s₂ : State} {ds es : List (Derivation N)}
    {ts us : List Token} {fault fault' : Option Fault}
    (h : l.Runs host symbols s ds ts s₁ fault) (h' : l.Runs host symbols s es us s₂ fault')
    (hhost : l.grammar.Ends host symbols) :
    ds = es ∧ ts = us ∧ s₁ = s₂ ∧ fault = fault' := by
  have hpasses := Nat.lt_succ_self s.cursor.rest.length
  have hfirst := symbols_of_runs hl hrec h hhost (le_max_left _ (levelsBelow host es)) hpasses
  have hsecond := symbols_of_runs hl hrec h' hhost (le_max_right (levelsBelow host ds) _) hpasses
  obtain ⟨rfl, rfl, rfl⟩ := Outcome.settled_inj (hfirst.symm.trans hsecond)
  exact ⟨rfl, List.append_cancel_right (h.consumes.1.symm.trans h'.consumes.1), rfl, rfl⟩

end

/-! ## Programs -/

theorem programLanguage_endsRecursive : programLanguage.EndsRecursive := by
  have hcheck : ∀ n ∈ Nonterminal.all, ∀ alt ∈ programGrammar.alternatives n, ∀ tail ∈ alt.tails,
      tail.head? = some (.nonterminal n) → tail.tail = [] := by
    decide +kernel
  rintro n rest ⟨alt, halt, hsuffix⟩
  exact hcheck n n.mem_all alt halt _ ((List.mem_tails _ _).mpr hsuffix) rfl

end Language

end TopDown
