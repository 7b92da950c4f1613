import TopDown.Proofs.Parse.Routines
import TopDown.Proofs.Tree.Sink

/-!
# Trees of sessions

Every step of a session is one operation on its tree, at a node that is there, or none. A call only
works below its own parent and below nodes that it has opened itself, so that whatever it leaves,
failed or not, is a tree that operations have built.
-/

namespace TopDown

namespace Session

variable {s s' s'' : Session} {host n : Nonterminal} {node parent : Nat} {kind : Kind}

/-- A session goes on from another one: operations have built its tree, and it has lost no node. -/
structure Continues (s s' : Session) : Prop where
  built : s'.tree.Built
  size_le : s.tree.size ≤ s'.tree.size

theorem Continues.trans (h : s.Continues s') (h' : s'.Continues s'') : s.Continues s'' :=
  ⟨h'.built, h.size_le.trans h'.size_le⟩

theorem continues_apply (hs : s.tree.Built) (op : Tree.Op) (hparent : op.parent < s.tree.size)
    (state : State) : s.Continues ⟨state, s.tree.apply op⟩ :=
  ⟨hs.step op hparent, Nat.le_of_lt (Tree.size_lt_apply s.tree op)⟩

/-- What a part of a descent leaves goes on from the session before it. -/
def Leaves (s : Session) (part : Progress) : Prop :=
  ∀ s' failure, part = some (s', failure) → s.Continues s'

theorem leaves_none (s : Session) : s.Leaves none := by
  intro _ _ heq
  cases heq

theorem leaves_some {failure : Option Failure} (h : s.Continues s') :
    s.Leaves (some (s', failure)) := by
  intro _ _ heq
  obtain ⟨rfl, rfl⟩ := Prod.mk.inj (Option.some.inj heq)
  exact h

theorem Leaves.andThen {first : Progress} {next : Session → Progress} (hfirst : s.Leaves first)
    (hnext : ∀ s', s.Continues s' → s'.Leaves (next s')) : s.Leaves (andThen first next) := by
  intro s'' failure heq
  rcases first with _ | ⟨s', _ | stopped⟩
  · cases heq
  · have hmid := hfirst s' none rfl
    exact hmid.trans (hnext s' hmid s'' failure heq)
  · exact hfirst s'' failure heq

/-! ## Steps -/

theorem leaves_stop (hs : s.tree.Built) (hnode : node < s.tree.size) (fault : Fault) :
    s.Leaves (halt (s.stop node fault)) :=
  leaves_some (continues_apply hs (.fail (fault.toFailure node)) hnode s.state)

theorem leaves_declare (hs : s.tree.Built) (hnode : node < s.tree.size) (token : Token) :
    s.Leaves (settled (s.declare node token)) := by
  rw [settled_declare]
  cases s.state.scope.declare token with
  | ok scope => exact leaves_some ⟨hs, Nat.le_refl _⟩
  | error r => exact leaves_stop hs hnode (.redeclared r)

theorem leaves_take (hs : s.tree.Built) (hnode : node < s.tree.size) :
    s.Leaves (s.take host node kind) := by
  rw [take, expect]
  by_cases hkind : s.state.kind = kind
  · have hmatched : s.Continues ⟨s.state.advance, s.tree.attachMatch node kind _⟩ :=
      continues_apply hs (.attachTerminal node kind s.state.cursor.lexeme) hnode _
    rw [if_pos hkind]
    cases s.state.cursor.current with
    | none => exact leaves_some hmatched
    | some token =>
      dsimp only
      split
      · have hdeclared := leaves_declare hmatched.built (hnode.trans_le hmatched.size_le) token
        exact fun s' failure heq => hmatched.trans (hdeclared s' failure heq)
      · exact leaves_some hmatched
  · rw [if_neg hkind]
    exact leaves_stop hs hnode _

/-! ## Descents -/

section

variable {calls : Nonterminal → Nat → Session → Progress} {onward : Nat → Session → Progress}

/-- A call at a node that is there goes on from the session. -/
def Safe (call : Nat → Session → Progress) : Prop :=
  ∀ (parent : Nat) (s : Session), s.tree.Built → parent < s.tree.size → s.Leaves (call parent s)

theorem leaves_walk (hcalls : ∀ n, Safe (calls n)) (honward : Safe onward)
    (symbols : List (Symbol Nonterminal)) (hs : s.tree.Built) (hnode : node < s.tree.size) :
    s.Leaves (walk calls onward host node symbols s) := by
  induction symbols generalizing s with
  | nil => exact leaves_some ⟨hs, Nat.le_refl _⟩
  | cons symbol rest ih =>
    have hrest (s' : Session) (h : s.Continues s') :
        s'.Leaves (walk calls onward host node rest s') :=
      ih h.built (hnode.trans_le h.size_le)
    cases symbol with
    | terminal kind => exact (leaves_take hs hnode).andThen hrest
    | nonterminal n =>
      have hcall : s.Leaves ((if n = host ∧ rest = [] then onward else calls n) node s) := by
        split
        · exact honward node s hs hnode
        · exact hcalls n node s hs hnode
      exact hcall.andThen hrest

theorem safe_visit (hcalls : ∀ n, Safe (calls n)) (passes : Nat) (n : Nonterminal) :
    Safe (visit calls passes n) := by
  induction passes generalizing n with
  | zero => exact fun _ s _ _ => s.leaves_none
  | succ passes ih =>
    intro parent s hs hparent
    have hopened : s.Continues (s.attach parent (Node.nonterminal n.name)) :=
      continues_apply hs (.openNonterminal parent n.name) hparent s.state
    have hnode : s.tree.size < (s.attach parent (Node.nonterminal n.name)).tree.size := by
      simp [attach]
    have honward {part : Progress}
        (h : (s.attach parent (Node.nonterminal n.name)).Leaves part) : s.Leaves part :=
      fun s' failure heq => hopened.trans (h s' failure heq)
    apply honward
    rw [visit]
    split
    · exact leaves_stop hopened.built hnode _
    · exact leaves_some (continues_apply hopened.built (.attachEmpty s.tree.size) hnode _)
    · exact leaves_walk hcalls (ih n) _ hopened.built hnode

end

theorem safe_descend (depth : Nat) (n : Nonterminal) : Safe (descend depth n) := by
  induction depth generalizing n with
  | zero => exact fun _ s _ _ => s.leaves_none
  | succ depth ih => exact fun parent s => safe_visit ih _ n parent s

/-- Whatever a call leaves, operations have built its tree. -/
theorem continues_call {depth : Nat} {failure : Option Failure} (hs : s.tree.Built)
    (hparent : parent < s.tree.size) (h : s.call n parent depth = some (s', failure)) :
    s.Continues s' := by
  rw [call_eq_descend] at h
  exact safe_descend depth n parent s hs hparent s' failure h

end Session

/-- Operations have built the tree of a parse. -/
theorem built_of_parse {tokens : List Token} {depth : Nat} {session : Session}
    {failure : Option Failure} (h : parse tokens depth = some (session, failure)) :
    session.tree.Built :=
  (Session.continues_call .new Nat.one_pos h).built

end TopDown
