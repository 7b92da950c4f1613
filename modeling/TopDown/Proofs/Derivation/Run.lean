import TopDown.Derivation.Production

/-!
# Runs

What a production call does, without its levels and passes: a relation between the symbols to work
through, the state before, what is derived, the tokens that are consumed, the state after, and the
fault that stopped the work if one did. Every call that does not nest too deeply is such a run.
-/

namespace TopDown

namespace Outcome

variable {α β : Type}

/-- The outcome of a call that does not nest too deeply. -/
def settled (value : α) (state : State) : Option Fault → Outcome α
  | none => .done value state
  | some fault => .failed value state fault

theorem map_eq_settled {o : Outcome α} {f : α → β} {b : β} {s : State} {fault : Option Fault}
    (h : o.map f = settled b s fault) : ∃ a, o = settled a s fault ∧ b = f a := by
  cases o with
  | done a s' =>
    cases fault with
    | none =>
      obtain ⟨rfl, rfl⟩ := Outcome.done.inj h
      exact ⟨a, rfl, rfl⟩
    | some fault => cases h
  | failed a s' fault' =>
    cases fault with
    | none => cases h
    | some fault =>
      obtain ⟨rfl, rfl, rfl⟩ := Outcome.failed.inj h
      exact ⟨a, rfl, rfl⟩
  | tooDeep => cases fault <;> cases h

/-- Either the first part is done and the next settles the rest, or the first part failed. -/
theorem append_eq_settled {first : Outcome (List α)} {next : State → Outcome (List α)} {c : List α}
    {s : State} {fault : Option Fault} (h : first.append next = settled c s fault) :
    (∃ a s₁ b, first = settled a s₁ none ∧ next s₁ = settled b s fault ∧ c = a ++ b) ∨
      ∃ f, fault = some f ∧ first = settled c s (some f) := by
  cases first with
  | done a s₁ =>
    obtain ⟨b, hb, rfl⟩ := map_eq_settled h
    exact Or.inl ⟨a, s₁, b, rfl, hb, rfl⟩
  | failed a s₁ f =>
    cases fault with
    | none => cases h
    | some fault =>
      obtain ⟨rfl, rfl, rfl⟩ := Outcome.failed.inj h
      exact Or.inr ⟨f, rfl, rfl⟩
  | tooDeep => cases fault <;> cases h

end Outcome

namespace Language

variable {N : Type}

/-- The scope after `host` matched the token. -/
def enter (l : Language N) (host : N) (token : Token) (scope : Scope) :
    Except Redeclaration Scope :=
  if l.declares host token.kind then scope.declare token else .ok scope

theorem terminal_of_enter_eq_ok {l : Language N} {host : N} {t : Token} {left : List Token}
    {count : Nat} {scope scope' : Scope} (henter : l.enter host t scope = .ok scope') :
    l.terminal host t.kind ⟨⟨t :: left, count⟩, scope⟩ =
      .done [.terminal t.kind t.lexeme] ⟨⟨left, count + 1⟩, scope'⟩ := by
  have hkind : State.kind ⟨⟨t :: left, count⟩, scope⟩ = t.kind := rfl
  unfold enter at henter
  unfold terminal
  rw [if_pos hkind]
  simp only [Cursor.current, List.head?_cons]
  split at henter
  · next hdeclares =>
    rw [if_pos hdeclares, henter]
    rfl
  · next hdeclares =>
    obtain rfl := Except.ok.inj henter
    rw [if_neg hdeclares]
    rfl

theorem terminal_of_enter_eq_error {l : Language N} {host : N} {t : Token} {left : List Token}
    {count : Nat} {scope : Scope} {r : Redeclaration} (henter : l.enter host t scope = .error r) :
    l.terminal host t.kind ⟨⟨t :: left, count⟩, scope⟩ =
      .failed [.terminal t.kind t.lexeme, .error (.redeclared r)] ⟨⟨left, count + 1⟩, scope⟩
        (.redeclared r) := by
  have hkind : State.kind ⟨⟨t :: left, count⟩, scope⟩ = t.kind := rfl
  unfold enter at henter
  unfold terminal
  rw [if_pos hkind]
  simp only [Cursor.current, List.head?_cons]
  split at henter
  · next hdeclares =>
    rw [if_pos hdeclares, henter]
    rfl
  · cases henter

variable [DecidableEq N]

/-- Works through symbols of the first argument. A run goes on until a fault stops it, which is the
last argument; all that is derived by then is kept. -/
inductive Runs (l : Language N) : N → List (Symbol N) → State → List (Derivation N) →
    List Token → State → Option Fault → Prop
  | nil {host : N} {s : State} : Runs l host [] s [] [] s none
  | ended {host : N} {rest : List (Symbol N)} {s s' : State} {ds : List (Derivation N)}
      {ts : List Token} {fault : Option Fault} (hs : s.cursor.rest = [])
      (hrest : Runs l host rest s ds ts s' fault) :
      Runs l host (.terminal .endOfInput :: rest) s
        (.terminal .endOfInput Kind.endOfInput.name :: ds) ts s' fault
  | matched {host : N} {kind : Kind} {rest : List (Symbol N)} {s s' : State} {t : Token}
      {left : List Token} {scope : Scope} {ds : List (Derivation N)} {ts : List Token}
      {fault : Option Fault} (hs : s.cursor.rest = t :: left) (hkind : t.kind = kind)
      (henter : l.enter host t s.scope = .ok scope)
      (hrest : Runs l host rest ⟨⟨left, s.cursor.consumed + 1⟩, scope⟩ ds ts s' fault) :
      Runs l host (.terminal kind :: rest) s (.terminal kind t.lexeme :: ds) (t :: ts) s' fault
  | redeclared {host : N} {kind : Kind} {rest : List (Symbol N)} {s : State} {t : Token}
      {left : List Token} {r : Redeclaration} (hs : s.cursor.rest = t :: left)
      (hkind : t.kind = kind) (henter : l.enter host t s.scope = .error r) :
      Runs l host (.terminal kind :: rest) s
        [.terminal kind t.lexeme, .error (.redeclared r)] [t]
        ⟨⟨left, s.cursor.consumed + 1⟩, s.scope⟩ (some (.redeclared r))
  | mismatched {host : N} {kind : Kind} {rest : List (Symbol N)} {s : State}
      (hkind : s.kind ≠ kind) :
      Runs l host (.terminal kind :: rest) s
        [.error (.unexpected kind s.cursor.current)] [] s
        (some (.unexpected kind s.cursor.current))
  | refused {host n : N} {rest : List (Symbol N)} {s : State}
      (hchoose : l.choose? n s.kind = none) :
      Runs l host (.nonterminal n :: rest) s
        [.production n [.error (.noAlternative (l.expected n) s.cursor.current)]] [] s
        (some (.noAlternative (l.expected n) s.cursor.current))
  | vanished {host n : N} {rest : List (Symbol N)} {s s' : State} {ds : List (Derivation N)}
      {ts : List Token} {fault : Option Fault} (hchoose : l.choose? n s.kind = some [])
      (hrest : Runs l host rest s ds ts s' fault) :
      Runs l host (.nonterminal n :: rest) s (.production n [.empty] :: ds) ts s' fault
  | called {host n : N} {alt rest : List (Symbol N)} {s s₁ s' : State}
      {ds es : List (Derivation N)} {ts us : List Token} {fault : Option Fault}
      (hchoose : l.choose? n s.kind = some alt) (halt : alt ≠ [])
      (hcall : Runs l n alt s ds ts s₁ none) (hrest : Runs l host rest s₁ es us s' fault) :
      Runs l host (.nonterminal n :: rest) s (.production n ds :: es) (ts ++ us) s' fault
  | broken {host n : N} {alt rest : List (Symbol N)} {s s' : State} {ds : List (Derivation N)}
      {ts : List Token} {f : Fault} (hchoose : l.choose? n s.kind = some alt) (halt : alt ≠ [])
      (hcall : Runs l n alt s ds ts s' (some f)) :
      Runs l host (.nonterminal n :: rest) s [.production n ds] ts s' (some f)

variable {l : Language N} {host n : N} {rest : List (Symbol N)} {s s₁ s' : State}
  {d : Derivation N} {ds : List (Derivation N)} {ts us : List Token} {fault : Option Fault}

/-- A call that is done goes on with the symbols after it. -/
theorem Runs.cons (hcall : l.Runs host [.nonterminal n] s [d] ts s₁ none)
    (hrest : l.Runs host rest s₁ ds us s' fault) :
    l.Runs host (.nonterminal n :: rest) s (d :: ds) (ts ++ us) s' fault := by
  cases hcall with
  | vanished hchoose hnil =>
    cases hnil
    exact .vanished hchoose hrest
  | called hchoose halt hcall hnil =>
    cases hnil
    rw [List.append_nil]
    exact .called hchoose halt hcall hrest

/-- A call that fails leaves out the symbols after it. -/
theorem Runs.cut {f : Fault} (hcall : l.Runs host [.nonterminal n] s ds ts s' (some f)) :
    l.Runs host (.nonterminal n :: rest) s ds ts s' (some f) := by
  cases hcall with
  | refused hchoose => exact .refused hchoose
  | vanished _ hnil => cases hnil
  | called _ _ _ hnil => cases hnil
  | broken hchoose halt hcall => exact .broken hchoose halt hcall

theorem runs_of_terminal {kind : Kind} {next : State → Outcome (List (Derivation N))}
    (hnext : ∀ s₁ es, next s₁ = .settled es s' fault → ∃ us, l.Runs host rest s₁ es us s' fault)
    (h : (l.terminal host kind s).append next = .settled ds s' fault) :
    ∃ ts, l.Runs host (.terminal kind :: rest) s ds ts s' fault := by
  obtain ⟨⟨left, count⟩, scope⟩ := s
  by_cases hkind : State.kind ⟨⟨left, count⟩, scope⟩ = kind
  · cases left with
    | nil =>
      obtain rfl : Kind.endOfInput = kind := hkind
      obtain ⟨es, hes, rfl⟩ := Outcome.map_eq_settled h
      obtain ⟨us, hrun⟩ := hnext _ es hes
      exact ⟨us, .ended rfl hrun⟩
    | cons t left =>
      obtain rfl : t.kind = kind := hkind
      cases henter : l.enter host t scope with
      | ok scope' =>
        rw [terminal_of_enter_eq_ok henter] at h
        obtain ⟨es, hes, rfl⟩ := Outcome.map_eq_settled h
        obtain ⟨us, hrun⟩ := hnext _ es hes
        exact ⟨t :: us, .matched rfl rfl henter hrun⟩
      | error r =>
        rw [terminal_of_enter_eq_error henter] at h
        cases fault with
        | none => cases h
        | some f =>
          obtain ⟨rfl, rfl, rfl⟩ := Outcome.failed.inj h
          exact ⟨[t], .redeclared rfl rfl henter⟩
  · rw [terminal, if_neg hkind] at h
    cases fault with
    | none => cases h
    | some f =>
      obtain ⟨rfl, rfl, rfl⟩ := Outcome.failed.inj h
      exact ⟨[], .mismatched hkind⟩

/-- The calls that `calls` makes for `n` are runs, whatever the host of the call. -/
def RunsAs (l : Language N) (n : N) (calls : State → Outcome (Derivation N)) : Prop :=
  ∀ host s d s' fault, calls s = .settled d s' fault →
    ∃ ts, l.Runs host [.nonterminal n] s [d] ts s' fault

theorem runs_of_symbols {below : N → State → Outcome (Derivation N)}
    {again : State → Outcome (Derivation N)} (hbelow : ∀ n, l.RunsAs n (below n))
    (hagain : l.RunsAs host again) {symbols : List (Symbol N)}
    (h : l.symbols below again host symbols s = .settled ds s' fault) :
    ∃ ts, l.Runs host symbols s ds ts s' fault := by
  induction symbols generalizing s ds with
  | nil =>
    cases fault with
    | none =>
      obtain ⟨rfl, rfl⟩ := Outcome.done.inj h
      exact ⟨[], .nil⟩
    | some f => cases h
  | cons symbol rest ih =>
    cases symbol with
    | terminal kind => exact runs_of_terminal (fun s₁ es hes => ih hes) h
    | nonterminal n =>
      have hcall : l.RunsAs n (if n = host ∧ rest = [] then again else below n) := by
        split
        · next hlast => exact hlast.1 ▸ hagain
        · exact hbelow n
      rcases Outcome.append_eq_settled h with ⟨a, s₁, es, ha, hes, rfl⟩ | ⟨f, rfl, hf⟩
      · obtain ⟨d, hd, rfl⟩ := Outcome.map_eq_settled ha
        obtain ⟨ts, hfirst⟩ := hcall host s d s₁ none hd
        obtain ⟨us, hrest⟩ := ih hes
        exact ⟨ts ++ us, hfirst.cons hrest⟩
      · obtain ⟨d, hd, rfl⟩ := Outcome.map_eq_settled hf
        obtain ⟨ts, hfirst⟩ := hcall host s d s' (some f) hd
        exact ⟨ts, hfirst.cut⟩

theorem runs_of_produce {below : N → State → Outcome (Derivation N)}
    (hbelow : ∀ n, l.RunsAs n (below n)) (passes : Nat) :
    ∀ n, l.RunsAs n (l.produce below passes n) := by
  induction passes with
  | zero =>
    intro n host s d s' fault h
    cases fault <;> cases h
  | succ passes ih =>
    intro n host s d s' fault h
    obtain ⟨ds, hds, rfl⟩ := Outcome.map_eq_settled h
    cases hchoose : l.choose? n s.kind with
    | none =>
      rw [hchoose] at hds
      cases fault with
      | none => cases hds
      | some f =>
        obtain ⟨rfl, rfl, rfl⟩ := Outcome.failed.inj hds
        exact ⟨[], .refused hchoose⟩
    | some alt =>
      rw [hchoose] at hds
      cases alt with
      | nil =>
        cases fault with
        | none =>
          obtain ⟨rfl, rfl⟩ := Outcome.done.inj hds
          exact ⟨[], .vanished hchoose .nil⟩
        | some f => cases hds
      | cons symbol alt =>
        obtain ⟨ts, hrun⟩ := runs_of_symbols hbelow (ih n) hds
        cases fault with
        | none =>
          exact ⟨ts ++ [], .called hchoose (by simp) hrun .nil⟩
        | some f => exact ⟨ts, .broken hchoose (by simp) hrun⟩

/-- Every call that does not nest too deeply is a run. -/
theorem runs_of_call (depth : Nat) : ∀ n, l.RunsAs n (l.call depth n) := by
  induction depth with
  | zero =>
    intro n host s d s' fault h
    cases fault <;> cases h
  | succ depth ih =>
    intro n host s
    exact runs_of_produce ih (s.cursor.rest.length + 1) n host s

end Language

end TopDown
