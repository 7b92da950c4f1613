import TopDown.Proofs.Parse.Limit

/-!
# Failures are local

A run sees the tokens that it consumes and the one that it stops at, and no token after that. So a
failed parse depends on the tokens up to the one that its failure is about: whatever else follows
them, the parse fails in the same way and leaves the same tree and the same names.
-/

namespace TopDown

open TopDown.Derivation

/-- The state with other tokens ahead. -/
def State.facing (s : State) (ahead : List Token) : State :=
  { s with cursor := { s.cursor with rest := ahead } }

theorem State.kind_facing {s : State} {ahead : List Token}
    (hhead : ahead.head? = s.cursor.rest.head?) : (s.facing ahead).kind = s.kind := by
  obtain ⟨⟨rest, consumed⟩, scope⟩ := s
  cases ahead <;> cases rest <;>
    simp_all [State.facing, State.kind, Cursor.kind]

/-- The place of the token that a failure is about. A mismatch is about the next token to consume; a
name that is declared again is consumed. -/
def Failure.place (f : Failure) (consumed : Nat) : Nat :=
  match f.cause with
  | .mismatch => consumed
  | .redeclaration => consumed - 1

namespace Language

variable {N : Type} [DecidableEq N] {l : Language N} {host : N} {symbols : List (Symbol N)}
  {s s' : State} {ds : List (Derivation N)} {ts ahead : List Token} {fault : Option Fault}

/-- What a run sees of the tokens after those it consumes is the first one of them, and not even
that if it stops at a second declaration. -/
def SameSight (fault : Option Fault) (ahead rest : List Token) : Prop :=
  (∃ r, fault = some (.redeclared r)) ∨ ahead.head? = rest.head?

theorem Runs.head?_append (h : l.Runs host symbols s ds ts s' fault)
    (hsight : SameSight fault ahead s'.cursor.rest) :
    (ts ++ ahead).head? = s.cursor.rest.head? := by
  rw [h.consumes.1]
  cases ts with
  | nil =>
    obtain ⟨_, hnone⟩ := h.still rfl
    exact hsight.resolve_left hnone
  | cons t ts => rfl

/-- A run goes on in the same way with other tokens after those that it sees. -/
theorem Runs.facing (h : l.Runs host symbols s ds ts s' fault)
    (hsight : SameSight fault ahead s'.cursor.rest) :
    l.Runs host symbols (s.facing (ts ++ ahead)) ds ts (s'.facing ahead) fault := by
  induction h generalizing ahead with
  | nil => exact .nil
  | @ended host rest s s' ds ts fault hs hrest ih =>
    have hnone : (ts ++ ahead).head? = none := by
      rw [hrest.head?_append hsight, hs]
      rfl
    exact .ended (List.head?_eq_none_iff.mp hnone) (ih hsight)
  | matched _ hkind henter _ ih => exact .matched rfl hkind henter (ih hsight)
  | redeclared _ hkind henter => exact .redeclared rfl hkind henter
  | @mismatched host kind rest s hkind =>
    have hhead := hsight.resolve_left (by simp)
    have hcurrent : s.cursor.current = (s.facing ahead).cursor.current := hhead.symm
    rw [hcurrent]
    exact .mismatched (by rwa [List.nil_append, State.kind_facing hhead])
  | @refused host n rest s hchoose =>
    have hhead := hsight.resolve_left (by simp)
    have hcurrent : s.cursor.current = (s.facing ahead).cursor.current := hhead.symm
    rw [hcurrent]
    exact .refused (by rwa [List.nil_append, State.kind_facing hhead])
  | vanished hchoose hrest ih =>
    have hkind := State.kind_facing (hrest.head?_append hsight)
    exact .vanished (by rwa [hkind]) (ih hsight)
  | called hchoose halt hcall hrest ihc ihr =>
    have hhead := hrest.head?_append hsight
    have hkind := State.kind_facing (hcall.head?_append (Or.inr hhead))
    rw [List.append_assoc]
    exact .called (by rwa [hkind]) halt (ihc (Or.inr hhead)) (ihr hsight)
  | broken hchoose halt hcall ih =>
    have hkind := State.kind_facing (hcall.head?_append hsight)
    exact .broken (by rwa [hkind]) halt (ih hsight)

end Language

namespace Fault

theorem place_redeclared (r : Redeclaration) (node consumed : Nat) :
    ((redeclared r).toFailure node).place consumed = consumed - 1 :=
  rfl

theorem place_of_not_redeclared {f : Fault} (h : ¬ ∃ r, f = redeclared r) (node consumed : Nat) :
    (f.toFailure node).place consumed = consumed := by
  rw [Failure.place, cause_eq_mismatch_iff.mpr h]

end Fault

namespace Language

variable {tokens tokens' : List Token} {s' : State} {ds : List (Derivation Nonterminal)}
  {ts : List Token} {fault : Fault}

theorem Runs.token_at_place
    (h : programLanguage.Runs .program programSymbols (State.start tokens) ds ts s' (some fault))
    (node : Nat) :
    (fault.toFailure node).token = tokens[(fault.toFailure node).place ts.length]? := by
  have htokens : tokens = ts ++ s'.cursor.rest := h.consumes.1
  by_cases hredeclared : ∃ r, fault = .redeclared r
  · obtain ⟨r, rfl⟩ := hredeclared
    obtain ⟨front, rfl, _⟩ := h.of_redeclared ends_programSymbols nameDue_start rfl
    rw [Fault.place_redeclared]
    simp [Fault.toFailure, Fault.token, htokens]
  · rw [Fault.place_of_not_redeclared hredeclared, h.getElem?_length]
    exact (h.token_of_fault rfl).resolve_left hredeclared

/-- Other tokens that are the same up to the place of a failure look the same to the run. -/
theorem Runs.sight_of_agree
    (h : programLanguage.Runs .program programSymbols (State.start tokens) ds ts s' (some fault))
    {node n : Nat} (hplace : (fault.toFailure node).place ts.length ≤ n)
    (hagree : tokens.take (n + 1) = tokens'.take (n + 1)) :
    ∃ ahead, tokens' = ts ++ ahead ∧ SameSight (some fault) ahead s'.cursor.rest := by
  have htokens : tokens = ts ++ s'.cursor.rest := h.consumes.1
  have hsplit (hle : ts.length ≤ n + 1) : tokens' = ts ++ tokens'.drop ts.length := by
    have htake : tokens'.take ts.length = ts := by
      rw [← Nat.min_eq_left hle, ← List.take_take, ← hagree, List.take_take, Nat.min_eq_left hle,
        htokens, List.take_left]
    calc
      tokens' = tokens'.take ts.length ++ tokens'.drop ts.length :=
        (List.take_append_drop ts.length tokens').symm
      _ = ts ++ tokens'.drop ts.length := by rw [htake]
  by_cases hredeclared : ∃ r, fault = .redeclared r
  · obtain ⟨r, rfl⟩ := hredeclared
    rw [Fault.place_redeclared] at hplace
    exact ⟨_, hsplit (by omega), Or.inl ⟨r, rfl⟩⟩
  · rw [Fault.place_of_not_redeclared hredeclared] at hplace
    refine ⟨_, hsplit (Nat.le_succ_of_le hplace), Or.inr ?_⟩
    have hlt := Nat.lt_succ_of_le hplace
    calc
      (tokens'.drop ts.length).head? = (tokens'.take (n + 1))[ts.length]? := by
        rw [List.head?_drop, List.getElem?_take_of_lt hlt]
      _ = tokens[ts.length]? := by rw [← hagree, List.getElem?_take_of_lt hlt]
      _ = s'.cursor.rest.head? := h.getElem?_length

end Language

/-- A failure depends on the tokens up to the one that it is about: with the same tokens up to
there, a parse fails in the same way, and leaves the same tree and the same names. -/
theorem parse_fails_locally {tokens tokens' : List Token} {depth : Nat} {session : Session}
    {f : Failure} {n : Nat} (h : parse tokens depth = some (session, some f))
    (hplace : f.place session.state.cursor.consumed ≤ n)
    (hagree : tokens.take (n + 1) = tokens'.take (n + 1)) :
    f.token = tokens[f.place session.state.cursor.consumed]? ∧
      ∃ session', parse tokens' depth = some (session', some f) ∧
        session'.tree = session.tree ∧
        session'.state.cursor.consumed = session.state.cursor.consumed ∧
        session'.state.scope = session.state.scope := by
  obtain ⟨ds, ts, state, fault, hrun, hlevels, hanswer⟩ := parse_eq_some_iff.mp h
  obtain ⟨rfl, hfailure⟩ := Prod.mk.inj hanswer
  obtain ⟨fault, rfl, rfl⟩ := Option.map_eq_some_iff.mp hfailure.symm
  have hconsumed : state.cursor.consumed = ts.length := hrun.consumes.2.trans (Nat.zero_add _)
  rw [hconsumed] at hplace ⊢
  obtain ⟨ahead, rfl, hsight⟩ := hrun.sight_of_agree hplace hagree
  have hparse := parse_eq_some_iff.mpr ⟨ds, ts, _, _, hrun.facing hsight, hlevels, rfl⟩
  exact ⟨hrun.token_at_place _, _, hparse, rfl, hconsumed, rfl⟩

/-- What `read` refuses, it refuses whatever comes next. -/
theorem parse_fails_locally_after_read :
    ∃ session f,
      parse [⟨.kwRead, "read", 1, 1⟩, ⟨.number, "7", 1, 6⟩] = some (session, some f) ∧
        f.place session.state.cursor.consumed = 1 ∧ f.token = some ⟨.number, "7", 1, 6⟩ ∧
        ∃ session',
          parse [⟨.kwRead, "read", 1, 1⟩, ⟨.number, "7", 1, 6⟩, ⟨.kwVar, "var", 2, 1⟩] =
            some (session', some f) ∧ session'.tree = session.tree := by
  have hfails : (parse [⟨.kwRead, "read", 1, 1⟩, ⟨.number, "7", 1, 6⟩]).map
      (fun p => p.2.map (·.place p.1.state.cursor.consumed)) = some (some 1) := by
    decide +kernel
  obtain ⟨⟨session, failure⟩, hparse, hfailure⟩ := Option.map_eq_some_iff.mp hfails
  obtain ⟨f, rfl, hplace⟩ := Option.map_eq_some_iff.mp hfailure
  have hagree : ([⟨.kwRead, "read", 1, 1⟩, ⟨.number, "7", 1, 6⟩] : List Token).take (1 + 1) =
      ([⟨.kwRead, "read", 1, 1⟩, ⟨.number, "7", 1, 6⟩, ⟨.kwVar, "var", 2, 1⟩] : List Token).take
        (1 + 1) := rfl
  obtain ⟨htoken, session', hparse', htree, _⟩ :=
    parse_fails_locally hparse (Nat.le_of_eq hplace) hagree
  rw [hplace] at htoken
  exact ⟨session, f, hparse, hplace, htoken, session', hparse', htree⟩

end TopDown
