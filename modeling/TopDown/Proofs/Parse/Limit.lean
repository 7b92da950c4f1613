import TopDown.Proofs.Derivation.Levels
import TopDown.Proofs.Parse.Program

/-!
# The depth limit

A parse is a run of the start symbol whose derivation stays within the depth that is allowed. Every
such run is a parse, so that there is no answer only where the derivation nests too deeply, whatever
the limit is. The session and the failure of the answer are those that the run leaves.
-/

namespace TopDown

open TopDown.Derivation

/-- The session and the failure that a run of the start symbol leaves. -/
def Session.leave (ds : List (Derivation Nonterminal)) (state : State) (fault : Option Fault) :
    Session × Option Failure :=
  let tree := Tree.graft {} 0 ((Derivation.production .program ds).toRose Nonterminal.name)
  let failure := fault.map fun f => f.toFailure tree.lastParent
  (⟨state, { tree with failure }⟩, failure)

theorem Session.tree_leave_none (ds : List (Derivation Nonterminal)) (state : State) :
    (leave ds state none).1.tree =
      Tree.graft {} 0 ((Derivation.production .program ds).toRose Nonterminal.name) := by
  have hfailure : (Tree.graft {} 0
      ((Derivation.production .program ds).toRose Nonterminal.name)).failure = none :=
    Tree.failure_graft {} 0 _
  exact congrArg (Tree.mk _) hfailure.symm

theorem Language.Runs.program {host : Nonterminal} {s s' : State}
    {ds : List (Derivation Nonterminal)} {ts : List Token} {fault : Option Fault}
    (h : programLanguage.Runs .program programSymbols s ds ts s' fault) :
    programLanguage.Runs host [.nonterminal .program] s [.production .program ds] ts s' fault := by
  have honly : programLanguage.choose? .program s.kind = some programSymbols := rfl
  cases fault with
  | none => simpa using Runs.called honly (by simp [programSymbols]) h .nil
  | some f => exact .broken honly (by simp [programSymbols]) h

variable {tokens : List Token} {depth : Nat}

theorem parse_eq_graft (tokens : List Token) (depth : Nat) :
    parse tokens depth = (Session.start tokens).graft 0 Session.single
      (programLanguage.call depth .program (State.start tokens)) :=
  Session.call_eq_graft (Session.start tokens) .program 0 depth

/-- A parse by the sets written out. -/
theorem parse_eq_sets (tokens : List Token) (depth : Nat) :
    parse tokens depth = (Session.start tokens).graft 0 Session.single
      (Language.call { programLanguage with lookahead := programSets } depth .program
        (State.start tokens)) := by
  rw [parse_eq_graft, ← programLanguage_eq_sets]

theorem parse_of_call {ds : List (Derivation Nonterminal)} {state : State} {fault : Option Fault}
    (h : programLanguage.call depth .program (State.start tokens) =
      .settled (.production .program ds) state fault) :
    parse tokens depth = some (Session.leave ds state fault) := by
  rw [parse_eq_graft, h]
  cases fault with
  | none =>
    have htree := Session.tree_leave_none ds state
    exact congrArg (fun tree => some (Session.mk state tree, none)) htree.symm
  | some f => rfl

/-- A parse has an answer exactly if a run of the start symbol stays within the depth limit, and the
answer is what the run leaves. -/
theorem parse_eq_some_iff {answer : Session × Option Failure} :
    parse tokens depth = some answer ↔
      ∃ ds ts state fault,
        programLanguage.Runs .program programSymbols (State.start tokens) ds ts state fault ∧
          levelsBelow .program ds < depth ∧ answer = Session.leave ds state fault := by
  have hiff {d : Derivation Nonterminal} {state : State} {fault : Option Fault} :
      programLanguage.call depth .program (State.start tokens) = .settled d state fault ↔
        ∃ ds ts, d = .production .program ds ∧ levelsBelow .program ds < depth ∧
          programLanguage.Runs .program [.nonterminal .program] (State.start tokens) [d] ts state
            fault :=
    Language.call_eq_settled_iff Language.programLanguage_progressive
      Language.programLanguage_endsRecursive
  constructor
  · intro h
    have hsettled {d : Derivation Nonterminal} {state : State} {fault : Option Fault}
        (hcall : programLanguage.call depth .program (State.start tokens) =
          .settled d state fault) :
        ∃ ds ts state fault,
          programLanguage.Runs .program programSymbols (State.start tokens) ds ts state fault ∧
            levelsBelow .program ds < depth ∧ answer = Session.leave ds state fault := by
      obtain ⟨ds, ts, rfl, hlevels, hrun⟩ := hiff.mp hcall
      obtain ⟨_, hd, hrun⟩ := hrun.of_program
      obtain rfl := (Derivation.production.inj (List.singleton_inj.mp hd)).2
      have hanswer := Option.some.inj (h.symm.trans (parse_of_call hcall))
      exact ⟨ds, ts, state, fault, hrun, hlevels, hanswer⟩
    cases hcall : programLanguage.call depth .program (State.start tokens) with
    | done d state => exact @hsettled d state none hcall
    | failed d state f => exact @hsettled d state (some f) hcall
    | tooDeep =>
      rw [parse_eq_graft, hcall] at h
      cases h
  · rintro ⟨ds, ts, state, fault, hrun, hlevels, rfl⟩
    exact parse_of_call (hiff.mpr ⟨ds, ts, rfl, hlevels, hrun.program⟩)

end TopDown
