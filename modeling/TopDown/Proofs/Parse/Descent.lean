import TopDown.Derivation.Production
import TopDown.Proofs.Tree.Graft
import TopDown.Proofs.Tree.Spelling
import TopDown.Session

/-!
# Descents

A descent builds the parse tree while it derives: a call opens its node and works through an
alternative below this node, each terminal is matched with a step of the session, and the first
failure stops all that is under way. A production call derives first, and what it derived can be
grafted afterwards. Both leave the same session and the same failure.
-/

namespace TopDown

open TopDown.Derivation

/-- The parent of the last node. -/
def Tree.lastParent (t : Tree) : Nat :=
  t.attachments.back?.elim 0 (·.parent)

@[simp] theorem Tree.lastParent_attach (t : Tree) (parent : Nat) (node : Node) :
    (t.attach parent node).lastParent = parent := by
  simp [lastParent, attach]

namespace Session

/-- What part of a descent leaves: the session, and the failure if there is one. There is nothing if
the descent nests too deeply. -/
abbrev Progress := Option (Session × Option Failure)

/-- Goes on where the first part did not fail. -/
def andThen (first : Progress) (next : Session → Progress) : Progress :=
  match first with
  | some (s, none) => next s
  | stopped => stopped

/-- The session that stopped, with its failure. -/
def halt (stopped : Session × Failure) : Progress :=
  some (stopped.1, some stopped.2)

/-- What a step of the session leaves. -/
def settled {α : Type} : Session × Except Failure α → Progress
  | (s, .ok _) => some (s, none)
  | (s, .error failure) => some (s, some failure)

/-- Matches a terminal of `host` at its node, and declares the name if `host` does so there. -/
def take (s : Session) (host : Nonterminal) (node : Nat) (kind : Kind) : Progress :=
  match s.expect node kind with
  | (s, .ok (some token)) =>
    if programLanguage.declares host kind then settled (s.declare node token) else some (s, none)
  | stepped => settled stepped

/-- Works through symbols of `host` below its node with the calls `below`, and with `again` for a
last symbol that is `host` itself. -/
def walk (below : Nonterminal → Nat → Session → Progress) (again : Nat → Session → Progress)
    (host : Nonterminal) (node : Nat) : List (Symbol Nonterminal) → Session → Progress
  | [], s => some (s, none)
  | .terminal kind :: rest, s => andThen (s.take host node kind) (walk below again host node rest)
  | .nonterminal n :: rest, s =>
    let call := if n = host ∧ rest = [] then again else below n
    andThen (call node s) (walk below again host node rest)

/-- Opens the node of a call and works through an alternative below it; what goes on at its own
depth does so at most `passes` times. -/
def visit (below : Nonterminal → Nat → Session → Progress) :
    (passes : Nat) → Nonterminal → Nat → Session → Progress
  | 0, _, _, _ => none
  | passes + 1, n, parent, s =>
    let node := s.tree.size
    let s := s.attach parent (Node.nonterminal n.name)
    match programLanguage.choose? n s.state.kind with
    | none => halt (s.refuse node (programLanguage.expected n))
    | some [] => some (s.attach node Node.empty, none)
    | some alt => walk below (visit below passes n) n node alt s

/-- Derives `n` below `parent` with `depth` levels to spend. -/
def descend : (depth : Nat) → Nonterminal → Nat → Session → Progress
  | 0, _, _, _ => none
  | depth + 1, n, parent, s => visit (descend depth) (s.state.cursor.rest.length + 1) n parent s

/-! ## What is derived, grafted -/

/-- The session after an outcome whose nodes are grafted below `node`. -/
def graft {α : Type} (s : Session) (node : Nat) (nodes : α → Forest Node) : Outcome α → Progress
  | .done a state => some (⟨state, s.tree.graftForest node (nodes a)⟩, none)
  | .failed a state fault =>
    let tree := s.tree.graftForest node (nodes a)
    let failure := fault.toFailure tree.lastParent
    some (⟨state, { tree with failure := some failure }⟩, some failure)
  | .tooDeep => none

/-- One derivation as nodes. -/
abbrev single (d : Derivation Nonterminal) : Forest Node :=
  [d.toRose Nonterminal.name]

variable {s : Session} {node parent : Nat} {host n : Nonterminal}

theorem graft_map {α β : Type} (f : α → β) (nodes : β → Forest Node) (o : Outcome α) :
    s.graft node nodes (o.map f) = s.graft node (nodes ∘ f) o := by
  cases o <;> rfl

/-- What two parts derived is grafted part by part. -/
theorem graft_append (first : Outcome (List (Derivation Nonterminal)))
    (next : State → Outcome (List (Derivation Nonterminal))) :
    s.graft node shown (first.append next) =
      andThen (s.graft node shown first) fun s₁ => s₁.graft node shown (next s₁.state) := by
  cases first with
  | done as state =>
    have hnodes (bs : List (Derivation Nonterminal)) :
        s.tree.graftForest node (shown (as ++ bs)) =
          (s.tree.graftForest node (shown as)).graftForest node (shown bs) := by
      rw [shown_append, Tree.graftForest_append]
    show s.graft node shown ((next state).map (as ++ ·)) =
      Session.graft ⟨state, s.tree.graftForest node (shown as)⟩ node shown (next state)
    rw [graft_map]
    cases next state with
    | done bs state' => simp only [graft, Function.comp_apply, hnodes]
    | failed bs state' fault => simp only [graft, Function.comp_apply, hnodes]
    | tooDeep => rfl
  | failed => rfl
  | tooDeep => rfl

/-- A new node has as its nodes what is derived below it. -/
theorem graft_production (n : Nonterminal) (o : Outcome (List (Derivation Nonterminal))) :
    s.graft parent single (o.map (.production n)) =
      (s.attach parent (Node.nonterminal n.name)).graft s.tree.size shown o := by
  cases o <;> rfl

/-! ## Descents and calls -/

theorem halt_stop (s : Session) (node : Nat) (fault : Fault) :
    halt (s.stop node fault) =
      s.graft node shown (.failed [Derivation.error fault] s.state fault) := by
  have hlast : (s.tree.graftForest node (shown [.error fault])).lastParent = node :=
    Tree.lastParent_attach s.tree node (Node.error fault.message)
  simp only [graft, hlast]
  rfl

/-- To refuse the kinds that are expected is to name them. -/
theorem halt_refuse (s : Session) (node : Nat) (n : Nonterminal) :
    halt (s.refuse node (programLanguage.expected n)) = s.graft node shown
      (Language.stop (.noAlternative (programLanguage.expected n) s.state.cursor.current)
        s.state) := by
  have hsame : Kind.all.filter (programLanguage.expected n).contains =
      programLanguage.expected n := by
    apply List.filter_congr
    intro kind hkind
    simp [Language.expected, hkind]
  rw [refuse, hsame, halt_stop]
  rfl

/-- A second declaration stops below the node, after its terminal. -/
theorem settled_declare {token : Token} (s : Session) (node : Nat) :
    settled (s.declare node token) =
      match s.state.scope.declare token with
      | .ok scope => some (⟨⟨s.state.cursor, scope⟩, s.tree⟩, none)
      | .error r => halt (s.stop node (.redeclared r)) := by
  unfold declare
  cases s.state.scope.declare token <;> rfl

/-- A terminal is matched as in the derivation. -/
theorem take_eq_graft (s : Session) (host : Nonterminal) (node : Nat) (kind : Kind) :
    s.take host node kind = s.graft node shown (programLanguage.terminal host kind s.state) := by
  unfold take expect Language.terminal
  by_cases hkind : s.state.kind = kind
  · obtain ⟨⟨⟨left, count⟩, scope⟩, tree⟩ := s
    rw [if_pos hkind, if_pos hkind]
    cases left with
    | nil => rfl
    | cons token left =>
      simp only [Cursor.current, List.head?_cons]
      split
      · rw [settled_declare]
        show (match scope.declare token with | .ok _ => _ | .error r => _) =
          graft _ _ _ (match scope.declare token with | .ok _ => _ | .error r => _)
        cases scope.declare token with
        | ok scope' => rfl
        | error r =>
          exact halt_stop ⟨State.advance ⟨⟨token :: left, count⟩, scope⟩,
            tree.attachMatch node kind token.lexeme⟩ node (.redeclared r)
      · rfl
  · rw [if_neg hkind, if_neg hkind]
    exact halt_stop s node _

section

variable {below : Nonterminal → State → Outcome (Derivation Nonterminal)}
  {again : State → Outcome (Derivation Nonterminal)}
  {calls : Nonterminal → Nat → Session → Progress}
  {onward : Nat → Session → Progress}

/-- The calls of a descent build what the calls of a derivation derive. -/
def Builds (calls : Nat → Session → Progress)
    (derives : State → Outcome (Derivation Nonterminal)) : Prop :=
  ∀ parent s, calls parent s = s.graft parent single (derives s.state)

theorem walk_eq_graft (hbelow : ∀ n, Builds (calls n) (below n)) (hagain : Builds onward again)
    (symbols : List (Symbol Nonterminal)) (s : Session) :
    walk calls onward host node symbols s =
      s.graft node shown (programLanguage.symbols below again host symbols s.state) := by
  induction symbols generalizing s with
  | nil => rfl
  | cons symbol rest ih =>
    cases symbol with
    | terminal kind =>
      rw [walk, Language.symbols, graft_append, take_eq_graft]
      exact congrArg (andThen _) (funext ih)
    | nonterminal n =>
      have hcall : (if n = host ∧ rest = [] then onward else calls n) node s =
          s.graft node single ((if n = host ∧ rest = [] then again else below n) s.state) := by
        split
        · exact hagain node s
        · exact hbelow n node s
      rw [walk, Language.symbols, graft_append, graft_map, hcall]
      exact congrArg (andThen _) (funext ih)

theorem visit_builds (hbelow : ∀ n, Builds (calls n) (below n)) (passes : Nat) (n : Nonterminal) :
    Builds (visit calls passes n) (programLanguage.produce below passes n) := by
  induction passes generalizing n with
  | zero => exact fun _ _ => rfl
  | succ passes ih =>
    intro parent s
    rw [Language.produce, graft_production, visit]
    show (match programLanguage.choose? n s.state.kind with
      | none => _
      | some [] => _
      | some alt => _) = _
    cases programLanguage.choose? n s.state.kind with
    | none => exact halt_refuse _ _ n
    | some alt =>
      cases alt with
      | nil => rfl
      | cons symbol alt => exact walk_eq_graft hbelow (ih n) (symbol :: alt) _

end

theorem descend_builds (depth : Nat) (n : Nonterminal) :
    Builds (descend depth n) (programLanguage.call depth n) := by
  induction depth generalizing n with
  | zero => exact fun _ _ => rfl
  | succ depth ih => exact fun parent s => visit_builds ih _ n parent s

end Session

end TopDown
