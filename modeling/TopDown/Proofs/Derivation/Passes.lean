import TopDown.Proofs.Derivation.Call

/-!
# Passes

The number of passes that a production call may make never runs out. An alternative that goes on with
its own non-terminal has consumed a token by then, so that any number of passes above the number of
tokens gives the same outcome, and only the levels limit what is derived.
-/

namespace TopDown

open TopDown.Derivation

namespace Outcome

/-- Two chains agree if their first parts do, and their next parts where the first is done. -/
theorem append_congr {α : Type} {first : Outcome (List α)}
    {next next' : State → Outcome (List α)}
    (h : ∀ as s, first = .done as s → next s = next' s) : first.append next = first.append next' := by
  cases first with
  | done as s => exact congrArg (map (as ++ ·)) (h as s rfl)
  | failed => rfl
  | tooDeep => rfl

/-- Three parts are one chain, however they are grouped. -/
theorem append_append {α : Type} (first : Outcome (List α))
    (second third : State → Outcome (List α)) :
    (first.append second).append third = first.append fun s => (second s).append third := by
  cases first with
  | done as s =>
    show ((second s).map (as ++ ·)).append third = ((second s).append third).map (as ++ ·)
    cases second s with
    | done bs s' =>
      show (third s').map (as ++ bs ++ ·) = ((third s').map (bs ++ ·)).map (as ++ ·)
      cases third s' <;> simp [map]
    | failed => rfl
    | tooDeep => rfl
  | failed => rfl
  | tooDeep => rfl

end Outcome

namespace Language

variable {N : Type} [DecidableEq N] {l : Language N} {host : N}

/-- Runs of two parts make a run of the whole. -/
theorem Runs.append {front rest : List (Symbol N)} {s s₁ s' : State} {ds es : List (Derivation N)}
    {ts us : List Token} {done fault : Option Fault} (h : l.Runs host front s ds ts s₁ done)
    (hdone : done = none) (hrest : l.Runs host rest s₁ es us s' fault) :
    l.Runs host (front ++ rest) s (ds ++ es) (ts ++ us) s' fault := by
  induction h with
  | nil => exact hrest
  | ended hs _ ih => exact .ended hs (ih hdone hrest)
  | matched hs hkind henter _ ih => exact .matched hs hkind henter (ih hdone hrest)
  | redeclared => cases hdone
  | mismatched => cases hdone
  | refused => cases hdone
  | vanished hchoose _ ih => exact .vanished hchoose (ih hdone hrest)
  | called hchoose hne hcall _ _ ih =>
    rw [List.append_assoc]
    exact .called hchoose hne hcall (ih hdone hrest)
  | broken => cases hdone

/-- An alternative that goes on with its own non-terminal has consumed a token by then. -/
def Progressive (l : Language N) : Prop :=
  ∀ host front, front ++ [.nonterminal host] ∈ l.grammar.alternatives host →
    ∀ s ds ts s', l.Runs host front s ds ts s' none → ts ≠ []

theorem runs_of_terminal_eq_settled {kind : Kind} {s s₁ : State} {ds : List (Derivation N)}
    {fault : Option Fault} (h : l.terminal host kind s = .settled ds s₁ fault) :
    ∃ ts, l.Runs host [.terminal kind] s ds ts s₁ fault := by
  have hnil (s₂ : State) (es : List (Derivation N))
      (hes : Outcome.done [] s₂ = .settled es s₁ fault) : ∃ us, l.Runs host [] s₂ es us s₁ fault := by
    cases fault with
    | none =>
      obtain ⟨rfl, rfl⟩ := Outcome.done.inj hes
      exact ⟨[], .nil⟩
    | some f => cases hes
  apply runs_of_terminal hnil
  rw [h]
  cases fault with
  | none => exact congrArg (Outcome.done · s₁) (List.append_nil ds)
  | some f => rfl

/-- How the work goes on in the end matters only for states with fewer tokens than at the start. -/
theorem symbols_congr (hl : l.Progressive) {below : N → State → Outcome (Derivation N)}
    (hbelow : ∀ n, l.RunsAs n (below n)) {again again' : State → Outcome (Derivation N)}
    {s₀ : State}
    (hagain : ∀ s, s.cursor.rest.length < s₀.cursor.rest.length → again s = again' s)
    {front symbols : List (Symbol N)} (halt : front ++ symbols ∈ l.grammar.alternatives host)
    {s : State} {ds : List (Derivation N)} {ts : List Token}
    (hfront : l.Runs host front s₀ ds ts s none) :
    l.symbols below again host symbols s = l.symbols below again' host symbols s := by
  induction symbols generalizing front s ds ts with
  | nil => rfl
  | cons symbol rest ih =>
    have hgo {d : List (Derivation N)} {us : List Token} {s₁ : State}
        (hstep : l.Runs host [symbol] s d us s₁ none) :
        l.symbols below again host rest s₁ = l.symbols below again' host rest s₁ := by
      rw [List.append_cons] at halt
      exact ih halt (hfront.append rfl hstep)
    cases symbol with
    | terminal kind =>
      apply Outcome.append_congr
      intro as s₁ hdone
      have hsettled : l.terminal host kind s = .settled as s₁ none := hdone
      obtain ⟨us, hstep⟩ := runs_of_terminal_eq_settled hsettled
      exact hgo hstep
    | nonterminal n =>
      unfold symbols
      by_cases hlast : n = host ∧ rest = []
      · obtain ⟨rfl, rfl⟩ := hlast
        have hts := hl n front halt s₀ ds ts s hfront
        have hconsumed := congrArg List.length hfront.consumes.1
        rw [List.length_append] at hconsumed
        have hpos := List.length_pos_iff.mpr hts
        have hsame := hagain s (by omega)
        rw [if_pos ⟨rfl, rfl⟩, if_pos ⟨rfl, rfl⟩]
        show ((again s).map ([·])).append _ = ((again' s).map ([·])).append _
        rw [hsame]
        rfl
      · rw [if_neg hlast, if_neg hlast]
        apply Outcome.append_congr
        intro as s₁ hdone
        have hsettled : (below n s).map ([·]) = .settled as s₁ none := hdone
        obtain ⟨d, hd, rfl⟩ := Outcome.map_eq_settled hsettled
        obtain ⟨us, hstep⟩ := hbelow n host s d s₁ none hd
        exact hgo hstep

/-- Above the number of tokens the number of passes does not matter. -/
theorem produce_congr (hl : l.Progressive) {below : N → State → Outcome (Derivation N)}
    (hbelow : ∀ n, l.RunsAs n (below n)) {passes passes' : Nat} (n : N) {s : State}
    (hpasses : s.cursor.rest.length < passes) (hpasses' : s.cursor.rest.length < passes') :
    l.produce below passes n s = l.produce below passes' n s := by
  induction passes generalizing passes' s with
  | zero => omega
  | succ passes ih =>
    obtain ⟨passes', rfl⟩ := Nat.exists_eq_succ_of_ne_zero (Nat.ne_of_gt (by omega : 0 < passes'))
    unfold produce
    cases hchoose : l.choose? n s.kind with
    | none => rfl
    | some alt =>
      have hmem := mem_alternatives_of_choose? hchoose
      cases alt with
      | nil => rfl
      | cons symbol alt =>
        have hagain (s₁ : State) (hlt : s₁.cursor.rest.length < s.cursor.rest.length) :
            l.produce below passes n s₁ = l.produce below passes' n s₁ :=
          ih (by omega) (by omega)
        have hsame := l.symbols_congr hl hbelow hagain hmem .nil
        exact congrArg (Outcome.map (Derivation.production n)) hsame

/-! ## Passes that go on -/

/-- A pass for `n` from the state `s` works through the front of an alternative that ends in `n`,
and goes on from the state `s₁`. -/
def GoesOn (l : Language N) (depth : Nat) (n : N) (s : State) (ds : List (Derivation N))
    (s₁ : State) : Prop :=
  ∃ front, l.choose? n s.kind = some (front ++ [.nonterminal n]) ∧
    l.symbols (l.call depth) (l.call depth n) n front s = .done ds s₁

/-- Work through an alternative that ends in its own non-terminal goes on after the front of it. -/
theorem symbols_concat (below : N → State → Outcome (Derivation N))
    (again : State → Outcome (Derivation N)) (front : List (Symbol N)) (s : State) :
    l.symbols below again host (front ++ [.nonterminal host]) s =
      (l.symbols below (below host) host front s).append fun s₁ => (again s₁).map ([·]) := by
  induction front generalizing s with
  | nil =>
    have hlast : l.symbols below again host [.nonterminal host] s =
        ((again s).map ([·])).append (.done []) := by
      rw [symbols, if_pos ⟨rfl, rfl⟩]
      rfl
    rw [List.nil_append, hlast]
    show _ = ((again s).map ([·])).map ([] ++ ·)
    cases again s <;> rfl
  | cons symbol front ih =>
    cases symbol with
    | terminal kind =>
      rw [List.cons_append, symbols, symbols, Outcome.append_append]
      exact congrArg _ (funext ih)
    | nonterminal m =>
      have hcall : (if m = host ∧ front = [] then below host else below m) = below m := by
        split
        · next hlast => rw [hlast.1]
        · rfl
      rw [List.cons_append, symbols, symbols, if_neg (by simp), hcall, Outcome.append_append]
      exact congrArg _ (funext ih)

/-- A call whose choice is not empty works through it. -/
theorem produce_of_choose? {n : N} {passes : Nat} {below : N → State → Outcome (Derivation N)}
    {alt : Alternative N} {s : State} (hchoose : l.choose? n s.kind = some alt) (hne : alt ≠ []) :
    l.produce below (passes + 1) n s =
      (l.symbols below (l.produce below passes n) n alt s).map (.production n) := by
  rw [produce, hchoose]
  cases alt with
  | nil => exact absurd rfl hne
  | cons symbol alt => rfl

/-- What is left of a pass that goes on is the next pass. -/
theorem GoesOn.produce_eq {depth : Nat} {n : N} {s s₁ : State} {ds : List (Derivation N)}
    (h : l.GoesOn depth n s ds s₁) (passes : Nat) :
    l.produce (l.call depth) (passes + 1) n s =
      (l.produce (l.call depth) passes n s₁).map fun d => Derivation.production n (ds ++ [d]) := by
  obtain ⟨front, hchoose, hfront⟩ := h
  rw [produce_of_choose? hchoose (by simp), symbols_concat, hfront]
  show (((l.produce (l.call depth) passes n s₁).map ([·])).map (ds ++ ·)).map (production n) = _
  cases l.produce (l.call depth) passes n s₁ <;> rfl

/-- A pass that goes on has consumed a token. -/
theorem GoesOn.consumed_lt (hl : l.Progressive) {depth : Nat} {n : N} {s s₁ : State}
    {ds : List (Derivation N)} (h : l.GoesOn depth n s ds s₁) :
    s.cursor.consumed < s₁.cursor.consumed := by
  obtain ⟨front, hchoose, hfront⟩ := h
  have hcalls : ∀ m, l.RunsAs m (l.call depth m) := runs_of_call depth
  have hsettled :
      l.symbols (l.call depth) (l.call depth n) n front s = .settled ds s₁ none := hfront
  obtain ⟨ts, hrun⟩ := runs_of_symbols hcalls (hcalls n) hsettled
  have hts := hl n front (mem_alternatives_of_choose? hchoose) s ds ts s₁ hrun
  have hpos := List.length_pos_iff.mpr hts
  have hcount := hrun.consumes.2
  omega

/-! ## Programs -/

/-- Where an alternative goes on with its own non-terminal, what comes before does not vanish. -/
theorem not_vanishes_of_goes_on {n : Nonterminal} {front : List (Symbol Nonterminal)}
    (h : front ++ [.nonterminal n] ∈ programGrammar.alternatives n) :
    n ≠ .program ∧ vanishes programLanguage.lookahead.isNullable front = false := by
  have hcheck : ∀ n ∈ Nonterminal.all, ∀ alt ∈ programGrammar.alternatives n,
      alt.getLast? = some (.nonterminal n) →
        n ≠ .program ∧ vanishes programLanguage.lookahead.isNullable alt.dropLast = false := by
    decide +kernel
  have hlast := hcheck n n.mem_all _ h
  rw [List.getLast?_concat, List.dropLast_concat] at hlast
  exact hlast rfl

theorem programLanguage_progressive : programLanguage.Progressive := by
  intro n front halt s ds ts s' h
  obtain ⟨hn, hvanish⟩ := not_vanishes_of_goes_on halt
  rintro rfl
  have hempty : vanishes programLanguage.lookahead.isNullable front = true := by
    apply h.vanishes_of_still
    intro symbol hsymbol
    exact lacks_endOfInput hn halt symbol (List.mem_append_left _ hsymbol)
  rw [hempty] at hvanish
  cases hvanish

/-- A call may make any number of passes above the number of tokens. -/
theorem call_succ_eq_produce {depth passes : Nat} (n : Nonterminal) {s : State}
    (hpasses : s.cursor.rest.length < passes) :
    programLanguage.call (depth + 1) n s =
      programLanguage.produce (programLanguage.call depth) passes n s :=
  produce_congr programLanguage_progressive (runs_of_call depth) n (Nat.lt_succ_self _) hpasses

end Language

end TopDown
