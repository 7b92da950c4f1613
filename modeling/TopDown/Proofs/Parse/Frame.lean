import Mathlib.Logic.Relation
import TopDown.Proofs.Parse.Dispatch
import TopDown.Proofs.Parse.Failure
import TopDown.Proofs.Tree.Sink

/-!
# The frame of a call

A session is led on by steps of any kind and in any order, and goes on after a failed step as that
step left it. Whatever came before, a call adds one node below its parent, which shows its
non-terminal, and all else that it adds is below this node, also if it fails. It never goes back in
the tokens, and it forgets no name.
-/

namespace TopDown

namespace Tree

variable {t : Tree} {id x : Nat}

/-- The node `id` is below `ancestor`, at any depth. -/
def Descendant (t : Tree) (ancestor id : Nat) : Prop :=
  Relation.TransGen (fun parent child => child ∈ t.children parent) ancestor id

theorem descendant_of_mem_walk {height : Nat} (h : x ∈ t.walk height id) (hne : x ≠ id) :
    t.Descendant id x := by
  induction height generalizing id with
  | zero => exact absurd (List.mem_singleton.mp h) hne
  | succ height ih =>
    rw [walk_succ, List.mem_cons, List.mem_flatMap] at h
    obtain ⟨c, hc, hx⟩ := h.resolve_left hne
    by_cases hchild : x = c
    · subst hchild
      exact .single hc
    · exact .head hc (ih hx hchild)

/-- In a grafted tree all is below its first node. -/
theorem descendant_of_graft {parent : Nat} (ht : t.Closed) (hparent : parent < t.size)
    (tree : Rose Node) (hlow : t.size < x) (hhigh : x < (t.graft parent tree).size) :
    (t.graft parent tree).Descendant t.size x := by
  rw [size_graft] at hhigh
  have hwalk : (t.graft parent tree).walk tree.size t.size = List.range' t.size tree.size :=
    preorder_growFrom_of_holds (grows_graft ht hparent tree).2 (Nat.le_refl _)
  have hmem : x ∈ (t.graft parent tree).walk tree.size t.size := by
    rw [hwalk, List.mem_range'_1]
    omega
  exact descendant_of_mem_walk hmem (Nat.ne_of_gt hlow)

theorem Descendant.congr {t' : Tree} (h : t.Descendant id x)
    (hsame : t'.attachments = t.attachments) : t'.Descendant id x := by
  obtain ⟨attachments, failure⟩ := t
  obtain ⟨attachments', failure'⟩ := t'
  obtain rfl : attachments' = attachments := hsame
  exact h

end Tree

namespace Language

variable {N : Type} {l : Language N} {host : N}

theorem tokens_prefix_of_enter {token : Token} {scope scope' : Scope}
    (h : l.enter host token scope = .ok scope') : scope.tokens <+: scope'.tokens := by
  unfold enter at h
  split at h
  · rw [Scope.tokens_of_declare_eq_ok h]
    exact List.prefix_append _ _
  · obtain rfl := Except.ok.inj h
    exact List.prefix_rfl

variable [DecidableEq N] {symbols : List (Symbol N)} {s s' : State} {ds : List (Derivation N)}
  {ts : List Token} {fault : Option Fault}

/-- A run forgets no name. -/
theorem Runs.scope_prefix (h : l.Runs host symbols s ds ts s' fault) :
    s.scope.tokens <+: s'.scope.tokens := by
  induction h with
  | nil => exact List.prefix_rfl
  | ended _ _ ih => exact ih
  | matched _ _ henter _ ih => exact (tokens_prefix_of_enter henter).trans ih
  | redeclared => exact List.prefix_rfl
  | mismatched => exact List.prefix_rfl
  | refused => exact List.prefix_rfl
  | vanished _ _ ih => exact ih
  | called _ _ _ _ ihc ihr => exact ihc.trans ihr
  | broken _ _ _ ih => exact ih

/-- The nodes of a call that fails end in its error. -/
theorem Runs.endsIn_of_call {host n : Nonterminal} {s s' : State} {d : Derivation Nonterminal}
    {ts : List Token} {f : Fault}
    (h : programLanguage.Runs host [.nonterminal n] s [d] ts s' (some f)) {t : Tree} {parent : Nat}
    (ht : t.Closed) (hparent : parent < t.size) :
    ∃ m, (t.graft parent (d.toRose Nonterminal.name)).EndsIn m f := by
  have hopened := Tree.node?_attach_size t parent (Node.nonterminal n.name)
  have hclosed : (t.attach parent (Node.nonterminal n.name)).Closed :=
    Tree.closed_attach ht hparent
  cases h with
  | refused => exact ⟨n, Tree.endsIn_attach hclosed hopened⟩
  | broken _ _ hcall =>
    obtain ⟨m, hends, _⟩ := hcall.endsIn rfl hclosed hopened
    exact ⟨m, hends⟩
  | vanished _ hnil => cases hnil
  | called _ _ _ hnil => cases hnil

end Language

namespace Session

/-! ## Sessions that steps lead to -/

/-- The sessions that steps lead to, from any tokens and names and from any tree. A call that nests
too deeply is cut off somewhere, and only what it has added by then is known to be below its parent.
-/
inductive Reachable : Session → Prop
  | start (state : State) {tree : Tree} (htree : tree.Built) : Reachable ⟨state, tree⟩
  | expect {s : Session} {parent : Nat} (kind : Kind) (h : Reachable s)
      (hparent : parent < s.tree.size) : Reachable (s.expect parent kind).1
  | refuse {s : Session} {node : Nat} (kinds : List Kind) (h : Reachable s)
      (hnode : node < s.tree.size) : Reachable (s.refuse node kinds).1
  | call {s s' : Session} {n : Nonterminal} {parent depth : Nat} {failure : Option Failure}
      (h : Reachable s) (hparent : parent < s.tree.size)
      (hcall : s.call n parent depth = some (s', failure)) : Reachable s'
  | tooDeep {s : Session} {n : Nonterminal} {parent depth : Nat} {tree : Tree} {ids : List Nat}
      (state : State) (h : Reachable s) (hparent : parent < s.tree.size)
      (hcall : s.call n parent depth = none) (htree : Tree.Grows s.tree tree parent ids) :
      Reachable ⟨state, tree⟩
  | operate {s : Session} (op : Tree.Op) (h : Reachable s) (hparent : op.parent < s.tree.size) :
      Reachable { s with tree := s.tree.apply op }
  | advance {s : Session} (h : Reachable s) : Reachable { s with state := s.state.advance }
  | declare {s : Session} {token : Token} {scope : Scope} (h : Reachable s)
      (hdeclare : s.state.scope.declare token = .ok scope) :
      Reachable { s with state := { s.state with scope } }

/-- To match a terminal is one operation on the tree, whether the token fits or not. -/
theorem exists_op_of_expect (s : Session) (parent : Nat) (kind : Kind) :
    ∃ op : Tree.Op, op.parent = parent ∧ (s.expect parent kind).1.tree = s.tree.apply op := by
  unfold expect
  split
  · exact ⟨.attachTerminal parent kind s.state.cursor.lexeme, rfl, rfl⟩
  · exact ⟨.fail _, rfl, rfl⟩

theorem Reachable.closed {s : Session} (h : s.Reachable) : s.tree.Closed := by
  induction h with
  | start _ htree => exact htree.sound.ordered.closed
  | @expect s parent kind _ hparent ih =>
    obtain ⟨op, rfl, htree⟩ := s.exists_op_of_expect parent kind
    rw [htree]
    exact (Tree.grows_apply ih hparent).closed
  | @refuse s node kinds _ hnode ih =>
    have hop : Tree.Op.parent (.fail (s.refuse node kinds).2) < s.tree.size := hnode
    exact (Tree.grows_apply ih hop).closed
  | call _ hparent hcall ih => exact closed_call ih hparent hcall
  | tooDeep _ _ _ _ htree => exact htree.closed
  | operate op _ hparent ih => exact (Tree.grows_apply ih hparent).closed
  | advance _ ih => exact ih
  | declare _ _ ih => exact ih

/-! ## Calls -/

/-- What a call for `n` below `parent` adds to a session, and what it keeps. -/
structure Frame (s s' : Session) (n : Nonterminal) (parent : Nat) : Prop where
  grows : Tree.Grows s.tree s'.tree parent [s.tree.size]
  opened : s'.tree.node? s.tree.size = some (Node.nonterminal n.name)
  below : ∀ id, s.tree.size < id → id < s'.tree.size → s'.tree.Descendant s.tree.size id
  tokens : ∃ ts, s.state.cursor.rest = ts ++ s'.state.cursor.rest ∧
    s'.state.cursor.consumed = s.state.cursor.consumed + ts.length
  scope : s.state.scope.tokens <+: s'.state.scope.tokens

variable {s s' : Session} {n : Nonterminal} {parent depth : Nat} {failure : Option Failure}

theorem frame_of_closed (ht : s.tree.Closed) (hparent : parent < s.tree.size)
    (hcall : s.call n parent depth = some (s', failure)) : s.Frame s' n parent := by
  obtain ⟨d, ts, fault, hrun, htree, _⟩ := call_eq_some hcall
  obtain ⟨children, hd, _⟩ := hrun.of_call
  obtain rfl := List.singleton_inj.mp hd
  obtain ⟨hgrows, hholds⟩ :=
    Tree.grows_graft ht hparent ((Derivation.production n children).toRose Nonterminal.name)
  have hgrows' : Tree.Grows s.tree s'.tree parent [s.tree.size] := hgrows.congr htree
  refine ⟨hgrows', ?_, ?_, ⟨ts, hrun.consumes⟩, hrun.scope_prefix⟩
  · rw [Tree.node?_congr htree]
    exact hholds.1
  · intro id hlow hhigh
    rw [Tree.size_congr htree] at hhigh
    exact (Tree.descendant_of_graft ht hparent _ hlow hhigh).congr htree

/-- The error of a failed call is the last node, and is below the node of the call. -/
theorem error_of_call (ht : s.tree.Closed) (hparent : parent < s.tree.size) {f : Failure}
    (hcall : s.call n parent depth = some (s', some f)) :
    s.tree.size < s'.tree.size - 1 ∧
      s'.tree.node? (s'.tree.size - 1) = some (Node.error f.message) ∧
      s'.tree.Descendant s.tree.size (s'.tree.size - 1) := by
  have hframe := frame_of_closed ht hparent hcall
  obtain ⟨d, ts, fault, hrun, htree, hfailure⟩ := call_eq_some hcall
  obtain ⟨fault, rfl, rfl⟩ := Option.map_eq_some_iff.mp hfailure.symm
  obtain ⟨m, hends⟩ : ∃ m, s'.tree.EndsIn m fault := by
    obtain ⟨m, hends⟩ := hrun.endsIn_of_call ht hparent
    exact ⟨m, hends.congr htree⟩
  have hlast : s'.tree.size - 1 ≠ s.tree.size := by
    intro hsame
    have hopened := hframe.opened
    rw [← hsame, hends.error] at hopened
    cases hopened
  have hlt : s.tree.size < s'.tree.size := Tree.lt_size_of_node?_eq_some hframe.opened
  have hnew : s.tree.size < s'.tree.size - 1 := by omega
  exact ⟨hnew, hends.error, hframe.below _ hnew (by omega)⟩

/-- A call has the same frame in every session that steps lead to, whether it is done or fails: one
node more below its parent, all other new nodes below this one, the error of a failure among them,
no token given back and no name forgotten. A call that is done leaves a remembered failure as it
is. -/
theorem call_frame (h : s.Reachable) (hparent : parent < s.tree.size)
    (hcall : s.call n parent depth = some (s', failure)) :
    s.Frame s' n parent ∧ (failure = none → s'.tree.failure = s.tree.failure) ∧
      ∀ f, failure = some f → s'.tree.failure = some f ∧ s.tree.size < s'.tree.size - 1 ∧
        s'.tree.node? (s'.tree.size - 1) = some (Node.error f.message) ∧
        s'.tree.Descendant s.tree.size (s'.tree.size - 1) := by
  have hremembers := failure_of_call hcall
  refine ⟨frame_of_closed h.closed hparent hcall, ?_, ?_⟩
  · rintro rfl
    exact hremembers
  · rintro f rfl
    exact ⟨hremembers, error_of_call h.closed hparent hcall⟩

/-- After a failed match a declaration is read below the error. -/
theorem call_frame_after_failure :
    ∃ s s' : Session, s.Reachable ∧ s.tree.failure.isSome = true ∧ 1 < s.tree.size ∧
      s.call .varDecl 1 = some (s', none) ∧ s.Frame s' .varDecl 1 ∧
      s'.tree.failure = s.tree.failure := by
  let tokens : List Token := [⟨.kwVar, "var", 1, 1⟩, ⟨.identifier, "x", 1, 5⟩]
  let s : Session := ((Session.start tokens).expect 0 .kwRead).1
  have hreachable : s.Reachable :=
    (Reachable.start (State.start tokens) .new).expect .kwRead Nat.one_pos
  have hparent : 1 < s.tree.size := by decide
  have hdone : (s.call .varDecl 1).map Prod.snd = some none := by
    decide +kernel
  obtain ⟨⟨s', failure⟩, hcall, hfailure⟩ := Option.map_eq_some_iff.mp hdone
  obtain rfl : failure = none := hfailure
  obtain ⟨hframe, hkeeps, _⟩ := call_frame hreachable hparent hcall
  exact ⟨s, s', hreachable, rfl, hparent, hcall, hframe, hkeeps rfl⟩

end Session

end TopDown
