import TopDown.Proofs.Parse.Program
import TopDown.Proofs.Tree.Graft
import TopDown.Proofs.Tree.Spelling

/-!
# Failures

Wherever a run fails, its error is the last node of the tree and hangs below the node of the
production that could not go on. So the outcome of a parse, its tree and its error agree: there is
one error if the parse failed and none if it did not, and it is about the token at which the parse
stopped, or about the name that it read last.
-/

namespace TopDown

open TopDown.Derivation

namespace Tree

variable {t t' : Tree} {parent : Nat} {n : Nonterminal} {f : Fault}

/-- The last node is the error of the fault, the last child of a production node for `n`. -/
structure EndsIn (t : Tree) (n : Nonterminal) (f : Fault) : Prop where
  error : t.node? (t.size - 1) = some (Node.error f.message)
  leaf : t.children (t.size - 1) = []
  parent : t.node? t.lastParent = some (Node.nonterminal n.name)
  last : (t.children t.lastParent).getLast? = some (t.size - 1)

theorem EndsIn.congr (h : t.EndsIn n f) (hsame : t'.attachments = t.attachments) :
    t'.EndsIn n f := by
  obtain ⟨attachments, failure⟩ := t
  obtain ⟨attachments', failure'⟩ := t'
  obtain rfl : attachments' = attachments := hsame
  exact ⟨h.error, h.leaf, h.parent, h.last⟩

theorem endsIn_attach (ht : t.Closed)
    (hparent : t.node? parent = some (Node.nonterminal n.name)) :
    (t.attach parent (Node.error f.message)).EndsIn n f := by
  have hlt := lt_size_of_node?_eq_some hparent
  have hlast := lastParent_attach t parent (Node.error f.message)
  have hsize : (t.attach parent (Node.error f.message)).size - 1 = t.size := by simp
  refine ⟨?_, ?_, ?_, ?_⟩
  · rw [hsize, node?_attach_size]
  · rw [hsize, children_attach ht hlt, children_of_le (Nat.le_refl _), if_neg (by omega)]
    rfl
  · rw [hlast, node?_attach_of_lt hlt, hparent]
  · rw [hlast, hsize, children_attach ht hlt, if_pos rfl, List.getLast?_concat]

/-- The nodes of a tree that shows a program, in the order of the trace. -/
theorem nodes_of_program {ds : List (Derivation Nonterminal)}
    (htree : t.attachments = (Tree.graft {} 0
      ((Derivation.production .program ds).toRose Nonterminal.name)).attachments) :
    t.nodes = Node.root :: Node.nonterminal Nonterminal.program.name ::
      Rose.forestOnto [] (shown ds) := by
  rw [nodes_congr htree, nodes_graft]
  rfl

/-- The errors of a tree that shows a program are those of what is derived below it. -/
theorem filter_error_of_program {ds : List (Derivation Nonterminal)}
    (htree : t.attachments = (Tree.graft {} 0
      ((Derivation.production .program ds).toRose Nonterminal.name)).attachments) :
    t.nodes.filter (·.role = .error) = errors (shown ds) := by
  rw [nodes_of_program htree, errors]
  simp [Node.root, Node.nonterminal]

theorem count_error_of_program {ds : List (Derivation Nonterminal)}
    (htree : t.attachments = (Tree.graft {} 0
      ((Derivation.production .program ds).toRose Nonterminal.name)).attachments) :
    t.count .error = (errors (shown ds)).length := by
  rw [count, List.countP_eq_length_filter, filter_error_of_program htree]

end Tree

namespace Language

variable {host : Nonterminal} {symbols : List (Symbol Nonterminal)} {s s' : State}
  {ds : List (Derivation Nonterminal)} {ts : List Token} {fault : Option Fault}

/-- The nodes of a run that fails end in its error. The error of a second declaration is below a
declaration. -/
theorem Runs.endsIn (h : programLanguage.Runs host symbols s ds ts s' fault) {f : Fault}
    (hf : fault = some f) {t : Tree} {node : Nat} (ht : t.Closed)
    (hnode : t.node? node = some (Node.nonterminal host.name)) :
    ∃ n, (t.graftForest node (shown ds)).EndsIn n f ∧
      ((∃ r, f = .redeclared r) → n = .varDecl) := by
  have hgrafted {tree : Rose Node} (t : Tree) {id : Nat} {a : Node} (ht : t.Closed)
      (hnode : t.node? id = some a) :
      (t.graft id tree).Closed ∧ (t.graft id tree).node? id = some a := by
    have hlt := Tree.lt_size_of_node?_eq_some hnode
    have hgrows := (Tree.grows_graft ht hlt tree).1
    exact ⟨hgrows.closed, (hgrows.node?_eq _ hlt).trans hnode⟩
  induction h generalizing t node with
  | nil => cases hf
  | ended _ _ ih | matched _ _ _ _ ih | vanished _ _ ih | called _ _ _ _ _ ih =>
    obtain ⟨hclosed, hsame⟩ := hgrafted t ht hnode
    exact ih hf hclosed hsame
  | redeclared _ _ henter =>
    obtain rfl := Option.some.inj hf
    obtain ⟨hclosed, hsame⟩ := hgrafted t ht hnode
    refine ⟨_, Tree.endsIn_attach hclosed hsame, fun _ => ?_⟩
    rw [enter_programLanguage] at henter
    split at henter
    · next hdeclares => exact hdeclares.1
    · cases henter
  | mismatched =>
    obtain rfl := Option.some.inj hf
    exact ⟨_, Tree.endsIn_attach ht hnode, by simp⟩
  | @refused _ n =>
    obtain rfl := Option.some.inj hf
    have hlt := Tree.lt_size_of_node?_eq_some hnode
    refine ⟨n, Tree.endsIn_attach (Tree.closed_attach ht hlt) ?_, by simp⟩
    exact Tree.node?_attach_size t node _
  | @broken _ n _ _ _ _ _ _ _ _ _ _ ih =>
    have hlt := Tree.lt_size_of_node?_eq_some hnode
    exact ih hf (Tree.closed_attach ht hlt) (Tree.node?_attach_size t node _)

/-- A tree that shows a failed run of the start symbol ends in the error of the run. -/
theorem Runs.endsIn_of_program {tokens : List Token} {f : Fault}
    (h : programLanguage.Runs .program programSymbols (State.start tokens) ds ts s' (some f))
    {t : Tree} (htree : t.attachments = (Tree.graft {} 0
      ((Derivation.production .program ds).toRose Nonterminal.name)).attachments) :
    ∃ n, t.EndsIn n f ∧ ((∃ r, f = .redeclared r) → n = .varDecl) := by
  have hopened : (Tree.attach {} 0 (Node.nonterminal Nonterminal.program.name)).node? 1 =
      some (Node.nonterminal Nonterminal.program.name) := rfl
  obtain ⟨n, hends, hdeclaration⟩ :=
    h.endsIn rfl (Tree.closed_attach Tree.closed_empty Nat.one_pos) hopened
  exact ⟨n, hends.congr htree, hdeclaration⟩

end Language

/-- The tree of a session remembers the failure of the call. -/
theorem Session.failure_of_call {s s' : Session} {n : Nonterminal} {parent depth : Nat}
    {failure : Option Failure} (h : s.call n parent depth = some (s', failure)) :
    s'.tree.failure = failure.or s.tree.failure := by
  rw [call_eq_graft] at h
  unfold graft at h
  split at h
  · obtain ⟨rfl, rfl⟩ := Prod.mk.inj (Option.some.inj h)
    exact Tree.failure_graft s.tree parent _
  · obtain ⟨rfl, rfl⟩ := Prod.mk.inj (Option.some.inj h)
    rfl
  · cases h

/-- The tree of a parse has the error of the failure and no other. -/
theorem filter_error_of_parse {tokens : List Token} {depth : Nat} {session : Session}
    {failure : Option Failure} (h : parse tokens depth = some (session, failure)) :
    session.tree.nodes.filter (·.role = .error) =
      (failure.map fun f => Node.error f.message).toList := by
  obtain ⟨ds, ts, fault, hrun, _, htree, rfl⟩ := parse_eq_some h
  rw [Tree.filter_error_of_program htree, hrun.errors_eq, Option.map_map]
  rfl

theorem accepted_of_parse {tokens : List Token} {depth : Nat} {session : Session}
    {failure : Option Failure} (h : parse tokens depth = some (session, failure)) :
    session.tree.accepted = failure.isNone := by
  have hfailure : session.tree.failure = failure :=
    (Session.failure_of_call h).trans Option.or_none
  obtain ⟨ds, ts, fault, _, _, htree, _⟩ := parse_eq_some h
  have hgrows := (Tree.grows_graft Tree.closed_empty Nat.one_pos
    ((Derivation.production .program ds).toRose Nonterminal.name)).1
  have hchild : session.tree.children 0 ≠ [] := by
    rw [Tree.children_congr htree, hgrows.children_eq 0 Nat.one_pos]
    simp
  rw [Bool.eq_iff_iff, Tree.accepted_iff, hfailure, Option.isNone_iff_eq_none]
  exact and_iff_left hchild

/-- A parse that succeeds leaves an accepted tree without an error. A parse that fails leaves a tree
with one error, which is the last node and the last child of the node of the failure, and the tree
remembers the failure. A mismatch is about the first token that is not consumed, a second
declaration about the last one that is. -/
theorem parse_outcome_agrees {tokens : List Token} {depth : Nat} {session : Session}
    {failure : Option Failure} (h : parse tokens depth = some (session, failure)) :
    session.tree.failure = failure ∧
      (failure = none → session.tree.accepted = true ∧ session.tree.count .error = 0) ∧
      ∀ f, failure = some f →
        session.tree.accepted = false ∧ session.tree.count .error = 1 ∧
          session.tree.node? (session.tree.size - 1) = some (Node.error f.message) ∧
          (session.tree.children f.node).getLast? = some (session.tree.size - 1) ∧
          session.tree.children (session.tree.size - 1) = [] ∧
          (f.cause = .mismatch → f.token = tokens[session.state.cursor.consumed]?) ∧
          (f.cause = .redeclaration → f.token ≠ none ∧
            f.token = (tokens.take session.state.cursor.consumed).getLast?) := by
  have hremembers : session.tree.failure = failure :=
    (Session.failure_of_call h).trans (Option.or_none)
  obtain ⟨ds, ts, fault, hrun, ⟨htokens, hconsumed⟩, htree, rfl⟩ := parse_eq_some h
  have hcount := Tree.count_error_of_program htree
  rw [hrun.errors_eq] at hcount
  refine ⟨hremembers, ?_, ?_⟩
  · intro hdone
    obtain rfl := Option.map_eq_none_iff.mp hdone
    refine ⟨Tree.accepted_iff.mpr ⟨hremembers, ?_⟩, hcount⟩
    have hgrows := (Tree.grows_graft Tree.closed_empty Nat.one_pos
      ((Derivation.production .program ds).toRose Nonterminal.name)).1
    rw [Tree.children_congr htree, hgrows.children_eq 0 Nat.one_pos]
    simp
  · intro f hf
    obtain ⟨fault, rfl, rfl⟩ := Option.map_eq_some_iff.mp hf
    obtain ⟨n, hends, _⟩ := hrun.endsIn_of_program htree
    have hrejected : session.tree.accepted ≠ true := fun haccepted => by
      simpa [hremembers] using (Tree.accepted_iff.mp haccepted).1
    refine ⟨by simpa using hrejected, hcount, hends.error, hends.last, hends.leaf, ?_, ?_⟩
    · intro hcause
      rw [hconsumed, hrun.getElem?_length]
      rcases hrun.token_of_fault rfl with hredeclared | htoken
      · exact absurd hredeclared (Fault.cause_eq_mismatch_iff.mp hcause)
      · exact htoken
    · intro hcause
      obtain ⟨r, rfl⟩ := Fault.cause_eq_redeclaration_iff.mp hcause
      have htake : tokens.take session.state.cursor.consumed = ts := by simp [htokens, hconsumed]
      obtain ⟨front, rfl, _⟩ := hrun.of_redeclared ends_programSymbols nameDue_start rfl
      rw [htake, List.getLast?_concat]
      exact ⟨by simp [Fault.toFailure, Fault.token], rfl⟩

/-- A second declaration leaves one error, and the tree is not accepted. -/
theorem parse_outcome_of_second_declaration :
    ∃ session f,
      parse [⟨.kwVar, "var", 1, 1⟩, ⟨.identifier, "x", 1, 5⟩, ⟨.kwVar, "var", 2, 1⟩,
          ⟨.identifier, "x", 2, 5⟩] = some (session, some f) ∧
        session.tree.failure = some f ∧ session.tree.accepted = false ∧
        session.tree.count .error = 1 ∧ f.token = some ⟨.identifier, "x", 2, 5⟩ := by
  have hfails : (parse [⟨.kwVar, "var", 1, 1⟩, ⟨.identifier, "x", 1, 5⟩, ⟨.kwVar, "var", 2, 1⟩,
      ⟨.identifier, "x", 2, 5⟩]).map
        (fun p => (p.1.state.cursor.consumed, p.2.map (·.cause))) =
      some (4, some .redeclaration) := by
    decide +kernel
  obtain ⟨⟨session, failure⟩, hparse, hanswer⟩ := Option.map_eq_some_iff.mp hfails
  obtain ⟨hconsumed, hfailure⟩ := Prod.mk.inj hanswer
  obtain ⟨f, rfl, hcause⟩ := Option.map_eq_some_iff.mp hfailure
  obtain ⟨hremembers, _, hfailed⟩ := parse_outcome_agrees hparse
  obtain ⟨hrejected, hcount, _, _, _, _, hagain⟩ := hfailed f rfl
  refine ⟨session, f, hparse, hremembers, hrejected, hcount, ?_⟩
  rw [(hagain hcause).2, hconsumed]
  rfl

end TopDown
