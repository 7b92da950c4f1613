import TopDown.Parser
import TopDown.Proofs.Grammar.Choice
import TopDown.Proofs.Parse.Descent

/-!
# Routines and descents

The routines test the current kind by hand and name the symbols of their alternatives one by one. A
descent takes the alternatives from the grammar and chooses with its lookahead sets. Routine by
routine they do the same, so that a call leaves the session and the failure of the descent.
-/

namespace TopDown

namespace Parsing

open Session

variable {α : Type} {s : Session} {node parent passes : Nat} {kind : Kind}

/-! ## Parts in a row -/

theorem outcome_bind (part : Parsing α) (next : α → Parsing Unit) (s : Session) :
    (part >>= next).outcome s =
      match part.run.run s with
      | some (.ok a, s) => (next a).outcome s
      | some (.error failure, s) => some (s, some failure)
      | none => none := by
  unfold outcome
  rw [ExceptT.run_bind, StateT.run_bind]
  rcases part.run.run s with _ | ⟨_ | _, _⟩ <;> rfl

@[simp] theorem outcome_andThen (first next : Parsing Unit) :
    (first >>= fun _ => next).outcome = fun s => andThen (first.outcome s) next.outcome := by
  funext s
  rw [outcome_bind, outcome]
  rcases first.run.run s with _ | ⟨_ | _, _⟩ <;> rfl

@[simp] theorem andThen_done (part : Progress) : andThen part (fun s => some (s, none)) = part := by
  rcases part with _ | ⟨_, _ | _⟩ <;> rfl

@[simp] theorem outcome_opened (n : Nonterminal) (next : Nat → Parsing Unit) :
    (opened parent n >>= next).outcome s =
      (next s.tree.size).outcome (s.attach parent (Node.nonterminal n.name)) :=
  rfl

@[simp] theorem outcome_currentKind (next : Kind → Parsing Unit) :
    (currentKind >>= next).outcome s = (next s.state.kind).outcome s :=
  rfl

@[simp] theorem outcome_passes (next : Nat → Parsing Unit) :
    (Parsing.passes >>= next).outcome s =
      (next (s.state.cursor.rest.length + 1)).outcome s :=
  rfl

@[simp] theorem outcome_leaveEmpty :
    (leaveEmpty node).outcome s = some (s.attach node Node.empty, none) :=
  rfl

@[simp] theorem kind_attach (s : Session) (node : Node) :
    (s.attach parent node).state.kind = s.state.kind :=
  rfl

theorem outcome_step {f : Session → Session × Except Failure Unit} :
    (step f).outcome s = settled (f s) := by
  show ((some (f s).swap).map _ : Progress) = _
  rcases f s with ⟨_, _ | _⟩ <;> rfl

/-- The kinds that are tested are those that are expected. -/
theorem outcome_refuse (n : Nonterminal) (kinds : List Kind) (hkinds : kinds = n.tested) :
    (refuse node kinds).outcome = fun s =>
      halt (s.refuse node (programLanguage.expected n)) := by
  have hsame : Kind.all.filter n.tested.contains =
      Kind.all.filter (programLanguage.expected n).contains := by
    rw [expected_programLanguage]
    apply List.filter_congr
    intro kind hkind
    simp [hkind]
  funext s
  show halt (s.refuse node kinds) = _
  rw [Session.refuse, Session.refuse, hkinds, hsame]

theorem outcome_matched (next : Option Token → Parsing Unit) :
    (matched node kind >>= next).outcome s =
      match s.expect node kind with
      | (s, .ok token) => (next token).outcome s
      | (s, .error failure) => some (s, some failure) := by
  have hrun : (matched node kind).run.run s = some (s.expect node kind).swap := rfl
  rw [outcome_bind, hrun]
  rcases s.expect node kind with ⟨_, _ | _⟩ <;> rfl

/-- A terminal that declares nothing. -/
theorem outcome_expect (host : Nonterminal) (kind : Kind)
    (hhost : programLanguage.declares host kind = false) :
    (expect node kind).outcome = fun s => s.take host node kind := by
  funext s
  show (matched node kind >>= fun _ => pure ()).outcome s = _
  rw [outcome_matched, take, hhost]
  rcases s.expect node kind with ⟨_, _ | _ | _⟩ <;> rfl

/-- A terminal that declares the name it matches. -/
theorem outcome_declare (host : Nonterminal) (kind : Kind)
    (hhost : programLanguage.declares host kind = true) :
    (matched node kind >>= declare node).outcome = fun s => s.take host node kind := by
  funext s
  rw [outcome_matched, take, hhost]
  rcases s.expect node kind with ⟨_, _ | _ | token⟩
  · rfl
  · rfl
  · exact outcome_step

/-! ## Routines -/

/-- What the calls of a routine do. -/
def outcomes (call : Nonterminal → Nat → Parsing Unit) : Nonterminal → Nat → Session → Progress :=
  fun n parent => (call n parent).outcome

variable {call : Nonterminal → Nat → Parsing Unit} {below : Nonterminal → Nat → Session → Progress}
  {n : Nonterminal} {alt : Alternative Nonterminal}

theorem visit_of_alternative (h : n.choice s.state.kind = some alt) (hne : alt ≠ []) :
    visit below (passes + 1) n parent s =
      walk below (visit below passes n) n s.tree.size alt
        (s.attach parent (Node.nonterminal n.name)) := by
  obtain ⟨symbol, rest, rfl⟩ := List.exists_cons_of_ne_nil hne
  rw [← choose?_programLanguage] at h
  simp only [visit, kind_attach, h]

theorem visit_of_empty (h : n.choice s.state.kind = some []) :
    visit below (passes + 1) n parent s =
      some ((s.attach parent (Node.nonterminal n.name)).attach s.tree.size Node.empty, none) := by
  rw [← choose?_programLanguage] at h
  simp only [visit, kind_attach, h]

theorem visit_of_refusal (h : n.choice s.state.kind = none) :
    visit below (passes + 1) n parent s =
      halt ((s.attach parent (Node.nonterminal n.name)).refuse s.tree.size
        (programLanguage.expected n)) := by
  rw [← choose?_programLanguage] at h
  simp only [visit, kind_attach, h]

/-- A routine with an empty alternative, which is taken on what follows its non-terminal. -/
theorem outcome_optional {body : Nat → Parsing Unit} {starts : Kind → Prop}
    [DecidablePred starts] {kinds : List Kind}
    (hchoice : ∀ kind, n.choice kind =
      if starts kind then some alt else if kind ∈ n.follow then some [] else none)
    (hne : alt ≠ []) (htested : kinds = n.tested)
    (hbody : ∀ node, (body node).outcome = walk below (visit below passes n) n node alt) :
    (do
      let node ← opened parent n
      let kind ← currentKind
      if starts kind then body node
      else if kind ∈ n.follow then leaveEmpty node
      else refuse node kinds : Parsing Unit).outcome s = visit below (passes + 1) n parent s := by
  have hchosen := hchoice s.state.kind
  by_cases hstarts : starts s.state.kind
  · rw [visit_of_alternative (hchosen.trans (if_pos hstarts)) hne]
    simp [hstarts, hbody]
  rw [if_neg hstarts] at hchosen
  by_cases hends : s.state.kind ∈ n.follow
  · rw [visit_of_empty (hchosen.trans (if_pos hends))]
    simp [hstarts, hends]
  · rw [visit_of_refusal (hchosen.trans (if_neg hends))]
    simp [hstarts, hends, outcome_refuse n kinds htested]

theorem outcome_stmtList :
    (Routine.stmtList call passes parent).outcome s =
      visit (outcomes call) passes .stmtList parent s := by
  induction passes generalizing parent s with
  | zero => rfl
  | succ passes ih =>
    have honward (node : Nat) : (Routine.stmtList call passes node).outcome =
        visit (outcomes call) passes .stmtList node :=
      funext fun _ => ih
    refine outcome_optional (fun _ => rfl) (List.cons_ne_nil _ _) rfl fun node => ?_
    funext s
    simp [walk, honward, outcomes]

theorem outcome_stmt :
    (Routine.stmt call parent).outcome s =
      visit (outcomes call) (passes + 1) .stmt parent s := by
  cases hkind : s.state.kind with
  | kwRead | kwWrite | kwVar | identifier | kwLet | kwIf | kwUntil =>
    rw [visit_of_alternative (congrArg (Nonterminal.choice .stmt) hkind) (List.cons_ne_nil _ _)]
    simp [Routine.stmt, hkind, walk, outcomes, outcome_expect .stmt _ rfl]
  | _ =>
    rw [visit_of_refusal (congrArg (Nonterminal.choice .stmt) hkind)]
    simp [Routine.stmt, hkind, outcome_refuse .stmt (Nonterminal.first .stmt) rfl]

theorem outcome_asgnStmt :
    (Routine.asgnStmt call parent).outcome s =
      visit (outcomes call) (passes + 1) .asgnStmt parent s := by
  cases hkind : s.state.kind with
  | assign | arrow =>
    rw [visit_of_alternative (congrArg (Nonterminal.choice .asgnStmt) hkind)
      (List.cons_ne_nil _ _)]
    simp [Routine.asgnStmt, hkind, walk, outcomes, outcome_expect .asgnStmt _ rfl]
  | _ =>
    rw [visit_of_refusal (congrArg (Nonterminal.choice .asgnStmt) hkind)]
    simp [Routine.asgnStmt, hkind, outcome_refuse .asgnStmt (Nonterminal.first .asgnStmt) rfl]

theorem outcome_argsTail :
    (Routine.argsTail call parent).outcome s =
      visit (outcomes call) (passes + 1) .argsTail parent s := by
  refine outcome_optional (fun _ => rfl) (List.cons_ne_nil _ _) rfl fun node => ?_
  funext s
  simp [walk, outcomes, outcome_expect .argsTail _ rfl]

theorem outcome_elseStmt :
    (Routine.elseStmt call parent).outcome s =
      visit (outcomes call) (passes + 1) .elseStmt parent s := by
  refine outcome_optional (fun _ => rfl) (List.cons_ne_nil _ _) rfl fun node => ?_
  funext s
  simp [walk, outcomes, outcome_expect .elseStmt _ rfl]

theorem outcome_termTail :
    (Routine.termTail call passes parent).outcome s =
      visit (outcomes call) passes .termTail parent s := by
  induction passes generalizing parent s with
  | zero => rfl
  | succ passes ih =>
    have honward (node : Nat) : (Routine.termTail call passes node).outcome =
        visit (outcomes call) passes .termTail node :=
      funext fun _ => ih
    refine outcome_optional (fun _ => rfl) (List.cons_ne_nil _ _) rfl fun node => ?_
    funext s
    simp [walk, honward, outcomes]

theorem outcome_factor :
    (Routine.factor call parent).outcome s =
      visit (outcomes call) (passes + 1) .factor parent s := by
  cases hkind : s.state.kind with
  | openParen | identifier | number =>
    rw [visit_of_alternative (congrArg (Nonterminal.choice .factor) hkind) (List.cons_ne_nil _ _)]
    simp [Routine.factor, hkind, walk, outcomes, outcome_expect .factor _ rfl]
  | _ =>
    rw [visit_of_refusal (congrArg (Nonterminal.choice .factor) hkind)]
    simp [Routine.factor, hkind, outcome_refuse .factor (Nonterminal.first .factor) rfl]

theorem outcome_factorTail :
    (Routine.factorTail call passes parent).outcome s =
      visit (outcomes call) passes .factorTail parent s := by
  induction passes generalizing parent s with
  | zero => rfl
  | succ passes ih =>
    have honward (node : Nat) : (Routine.factorTail call passes node).outcome =
        visit (outcomes call) passes .factorTail node :=
      funext fun _ => ih
    refine outcome_optional (fun _ => rfl) (List.cons_ne_nil _ _) rfl fun node => ?_
    funext s
    simp [walk, honward, outcomes]

/-- Any kind of its sort is an alternative of an operator. -/
theorem outcome_operator (n : Nonterminal) (hchoice : ∀ kind, n.choice kind =
    if kind ∈ n.first then some [.terminal kind] else none) (htested : n.first = n.tested)
    (hdeclares : ∀ kind, programLanguage.declares n kind = false) :
    (Routine.operator n parent).outcome s = visit (outcomes call) (passes + 1) n parent s := by
  by_cases hstarts : s.state.kind ∈ n.first
  · rw [visit_of_alternative ((hchoice _).trans (if_pos hstarts)) (List.cons_ne_nil _ _)]
    simp [Routine.operator, hstarts, walk, outcome_expect n _ (hdeclares _)]
  · rw [visit_of_refusal ((hchoice _).trans (if_neg hstarts))]
    simp [Routine.operator, hstarts, outcome_refuse n n.first htested]

/-- Every routine does what a visit does. Where there is only one alternative, the routine works
through it and tests nothing. -/
theorem outcome_routine (n : Nonterminal) :
    (routine call n parent).outcome s =
      visit (outcomes call) (s.state.cursor.rest.length + 1) n parent s := by
  cases n with
  | program =>
    rw [visit_of_alternative rfl (List.cons_ne_nil _ _)]
    simp [routine, Routine.program, walk, outcomes, outcome_expect .program _ rfl]
  | stmtList => exact outcome_stmtList
  | stmt => exact outcome_stmt
  | readStmt =>
    rw [visit_of_alternative rfl (List.cons_ne_nil _ _)]
    simp [routine, Routine.readStmt, walk, outcome_expect .readStmt _ rfl]
  | writeStmt =>
    rw [visit_of_alternative rfl (List.cons_ne_nil _ _)]
    simp [routine, Routine.writeStmt, walk, outcomes, outcome_expect .writeStmt _ rfl]
  | varDecl =>
    rw [visit_of_alternative rfl (List.cons_ne_nil _ _)]
    simp [routine, Routine.varDecl, walk, outcome_expect .varDecl .kwVar rfl,
      outcome_declare .varDecl .identifier rfl]
  | subrCall =>
    rw [visit_of_alternative rfl (List.cons_ne_nil _ _)]
    simp [routine, Routine.subrCall, walk, outcomes, outcome_expect .subrCall _ rfl]
  | asgnStmt => exact outcome_asgnStmt
  | argList =>
    rw [visit_of_alternative rfl (List.cons_ne_nil _ _)]
    simp [routine, Routine.argList, walk, outcomes]
  | argsTail => exact outcome_argsTail
  | expr =>
    rw [visit_of_alternative rfl (List.cons_ne_nil _ _)]
    simp [routine, Routine.expr, walk, outcomes]
  | term =>
    rw [visit_of_alternative rfl (List.cons_ne_nil _ _)]
    simp [routine, Routine.term, walk, outcomes]
  | termTail => exact outcome_termTail
  | factor => exact outcome_factor
  | factorTail => exact outcome_factorTail
  | condition =>
    rw [visit_of_alternative rfl (List.cons_ne_nil _ _)]
    simp [routine, Routine.condition, walk, outcomes]
  | ifStmt =>
    rw [visit_of_alternative rfl (List.cons_ne_nil _ _)]
    simp [routine, Routine.ifStmt, walk, outcomes, outcome_expect .ifStmt _ rfl]
  | elseStmt => exact outcome_elseStmt
  | untilStmt =>
    rw [visit_of_alternative rfl (List.cons_ne_nil _ _)]
    simp [routine, Routine.untilStmt, walk, outcomes, outcome_expect .untilStmt _ rfl]
  | addOp | multOp | relOp => exact outcome_operator _ (fun _ => rfl) rfl (fun _ => rfl)

/-- A call descends: what its routines leave is what a descent leaves. -/
theorem outcomes_call (depth : Nat) : outcomes (Parsing.call depth) = descend depth := by
  induction depth with
  | zero => rfl
  | succ depth ih =>
    funext n parent s
    rw [descend, ← ih]
    exact outcome_routine n

end Parsing

namespace Session

/-- A call leaves the session and the failure of a descent. -/
theorem call_eq_descend (s : Session) (n : Nonterminal) (parent depth : Nat) :
    s.call n parent depth = descend depth n parent s :=
  congrFun (congrFun (congrFun (Parsing.outcomes_call depth) n) parent) s

/-- A call grafts what the production call derives. -/
theorem call_eq_graft (s : Session) (n : Nonterminal) (parent depth : Nat) :
    s.call n parent depth = s.graft parent single (programLanguage.call depth n s.state) :=
  (call_eq_descend s n parent depth).trans (descend_builds depth n parent s)

end Session

end TopDown
