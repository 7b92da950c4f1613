import TopDown.Proofs.Parse.Failure
import TopDown.Proofs.Parse.Message
import TopDown.Proofs.Parse.Resumption

/-!
# Expectations are kept

The kinds that the message of a mismatch says were expected are those that the parse would have gone
on with. With one of them in the place of the token that did not fit, the parse builds the same
nodes up to the error, and at the node of the failure it adds another child instead of the error. If
there is an error all the same, then it is at another node, or after the token.
-/

namespace TopDown

open TopDown.Derivation

/-! ## Trees of resumed runs -/

namespace Tree

mutual
theorem attachments_prefix_graft (t : Tree) (parent : Nat) : ∀ tree : Rose Node,
    t.attachments.toList <+: (t.graft parent tree).attachments.toList
  | .node node forest => by
    have hattach : t.attachments.toList <+: (t.attach parent node).attachments.toList := by
      simp [attach]
    exact hattach.trans (attachments_prefix_graftForest _ _ forest)
theorem attachments_prefix_graftForest (t : Tree) (parent : Nat) : ∀ forest : Forest Node,
    t.attachments.toList <+: (t.graftForest parent forest).attachments.toList
  | [] => List.prefix_rfl
  | tree :: forest =>
    (attachments_prefix_graft t parent tree).trans (attachments_prefix_graftForest _ _ forest)
end

/-- The last of the roots that a tree holds in a row. -/
theorem HoldsForest.getLast? {t : Tree} {next : Nat} {forest : Forest Node} {tree : Rose Node}
    (h : t.HoldsForest next forest) (hlast : forest.getLast? = some tree) :
    ∃ id, (rootIds next forest).getLast? = some id ∧ t.node? id = some tree.value := by
  induction forest generalizing next with
  | nil => cases hlast
  | cons first forest ih =>
    obtain ⟨hfirst, hrest⟩ := h
    cases forest with
    | nil =>
      obtain rfl := Option.some.inj hlast
      obtain ⟨node, children⟩ := first
      exact ⟨next, rfl, hfirst.1⟩
    | cons second forest =>
      obtain ⟨id, hid, hnode⟩ := ih hrest (by simpa using hlast)
      exact ⟨id, by simpa [rootIds] using hid, hnode⟩

/-- The last attachment of a tree that ends in an error. -/
theorem EndsIn.attachments_eq {t : Tree} {n : Nonterminal} {f : Fault} (h : t.EndsIn n f) :
    t.attachments.toList =
      t.attachments.toList.dropLast ++ [⟨t.lastParent, Node.error f.message⟩] := by
  obtain ⟨⟨attachments⟩, failure⟩ := t
  rcases List.eq_nil_or_concat attachments with rfl | ⟨front, ⟨parent, node⟩, rfl⟩
  · cases h.error
  · have hnode : node = Node.error f.message := by
      simpa [size, node?] using h.error
    simp [lastParent, hnode]

end Tree

theorem getLast?_shown {ds : List (Derivation Nonterminal)} {d : Derivation Nonterminal}
    (h : ds.getLast? = some d) : (shown ds).getLast? = some (d.toRose Nonterminal.name) := by
  obtain ⟨front, rfl⟩ := List.getLast?_eq_some_iff.mp h
  rw [shown_append]
  exact List.getLast?_concat

namespace Language.Resumes

variable {mend ds es : List (Derivation Nonterminal)} {last : Derivation Nonterminal}

/-- The nodes up to the error are the same. -/
theorem attachments_prefix (h : Resumes mend ds es) (t : Tree) (node : Nat) :
    (t.graftForest node (shown ds)).attachments.toList.dropLast <+:
      (t.graftForest node (shown es)).attachments.toList := by
  induction h generalizing t node with
  | @here f =>
    have herror : (t.graftForest node (shown [.error f])).attachments.toList.dropLast =
        t.attachments.toList := by
      simp [Derivation.forest, Derivation.toRose, Tree.graftForest, Tree.graft, Tree.attach]
    rw [herror]
    exact t.attachments_prefix_graftForest node (shown mend)
  | @next d ds es _ ih => exact ih (t.graft node (d.toRose Nonterminal.name)) node
  | @inside n ds es rest _ ih =>
    exact (ih (t.attach node (Node.nonterminal n.name)) t.size).trans
      (Tree.attachments_prefix_graftForest _ node (shown rest))

/-- The node of the error has the last part of the mend as its last child instead. -/
theorem last_child (h : Resumes mend ds es) (hlast : mend.getLast? = some last) {t : Tree}
    {node : Nat} (ht : t.Closed) (hnode : node < t.size) {parent : Nat}
    (hparent : (t.graftForest node (shown ds)).lastParent = parent) :
    (parent = node ∨ t.size ≤ parent) ∧
      ∃ id, ((t.graftForest node (shown es)).children parent).getLast? = some id ∧
        (t.graftForest node (shown es)).node? id = some (last.toRose Nonterminal.name).value := by
  induction h generalizing t node with
  | @here f =>
    obtain rfl : node = parent := (Tree.lastParent_attach t node _).symm.trans hparent
    obtain ⟨hgrows, hholds⟩ := Tree.grows_graftForest ht hnode (shown mend)
    obtain ⟨id, hid, hvalue⟩ := hholds.getLast? (getLast?_shown hlast)
    refine ⟨Or.inl rfl, id, ?_, hvalue⟩
    rw [hgrows.children_eq node hnode, if_pos rfl, List.getLast?_append, hid]
    rfl
  | @next d ds es _ ih =>
    have hclosed := Tree.closed_graft ht hnode (d.toRose Nonterminal.name)
    have hsize := t.size_graft node (d.toRose Nonterminal.name)
    obtain ⟨hplace, hchild⟩ := ih hclosed (by omega) hparent
    exact ⟨by omega, hchild⟩
  | @inside n ds es rest _ ih =>
    have hgrows := Tree.grows_attach ht hnode (Node.nonterminal n.name)
    have hsize := t.size_attach node (Node.nonterminal n.name)
    obtain ⟨hplace, id, hid, hvalue⟩ := ih hgrows.closed (by omega) hparent
    have hbelow := (Tree.grows_graftForest hgrows.closed (by omega : t.size < _) (shown es)).1
    have hle := hbelow.size_le
    -- What comes after the production hangs below another node.
    have hrest := (Tree.grows_graftForest hbelow.closed (by omega : node < _) (shown rest)).1
    have hlt := Tree.lt_size_of_node?_eq_some hvalue
    have hplaced : parent < ((t.attach node (Node.nonterminal n.name)).graftForest t.size
        (shown es)).size := by
      by_contra hge
      rw [Tree.children_of_le (Nat.le_of_not_lt hge)] at hid
      cases hid
    refine ⟨by omega, id, ?_, (hrest.node?_eq id hlt).trans hvalue⟩
    have hsame := hrest.children_eq parent hplaced
    rw [if_neg (by omega : node ≠ parent), List.append_nil] at hsame
    exact (congrArg List.getLast? hsame).trans hid

end Language.Resumes

/-- Only an error is shown as one. -/
theorem Derivation.role_toRose {d : Derivation Nonterminal} (h : ∀ f, d ≠ .error f) :
    (d.toRose Nonterminal.name).value.role ≠ .error := by
  cases d with
  | error f => exact absurd rfl (h f)
  | production | terminal | empty => exact Role.noConfusion

/-! ## Programs -/

/-- Where a run resumes at the error of another, its tree has the nodes of the other up to the
error, and it ends in an error at the same node only if the mend does. -/
theorem Language.Resumes.tree {mend ds es : List (Derivation Nonterminal)}
    {last : Derivation Nonterminal} (h : Resumes mend ds es) (hlast : mend.getLast? = some last)
    {t t' : Tree}
    (ht : t.attachments =
      (Tree.graft {} 0 ((Derivation.production .program ds).toRose Nonterminal.name)).attachments)
    (ht' : t'.attachments =
      (Tree.graft {} 0 ((Derivation.production .program es).toRose Nonterminal.name)).attachments) :
    t.attachments.toList.dropLast <+: t'.attachments.toList ∧
      ((∃ n f, t'.EndsIn n f ∧ t'.lastParent = t.lastParent) → ∃ f, last = .error f) := by
  have hopened : (Tree.attach {} 0 (Node.nonterminal Nonterminal.program.name)).Closed :=
    Tree.closed_attach Tree.closed_empty Nat.one_pos
  constructor
  · rw [ht, ht']
    exact h.attachments_prefix (Tree.attach {} 0 (Node.nonterminal Nonterminal.program.name)) 1
  · rintro ⟨n, f, hends, hsame⟩
    have hparent : (Tree.graftForest
        (Tree.attach {} 0 (Node.nonterminal Nonterminal.program.name)) 1
        (shown ds)).lastParent = t'.lastParent := by
      rw [hsame, Tree.lastParent, Tree.lastParent, ht]
      rfl
    obtain ⟨_, id, hid, hvalue⟩ := h.last_child hlast hopened Nat.one_lt_two hparent
    have hid' : (t'.children t'.lastParent).getLast? = some id :=
      (congrArg List.getLast? (Tree.children_congr ht' _)).trans hid
    have hvalue' : t'.node? id = some (last.toRose Nonterminal.name).value :=
      (Tree.node?_congr ht' id).trans hvalue
    obtain rfl := Option.some.inj (hid'.symm.trans hends.last)
    have herror := Option.some.inj (hvalue'.symm.trans hends.error)
    by_contra hnone
    apply last.role_toRose fun f hf => hnone ⟨f, hf⟩
    rw [herror]
    rfl

/-- The message of a mismatch says what kinds were expected. There are some, and the kind that was
found is not one of them. With tokens ahead that begin with an expected kind in the place of the
token that did not fit, a parse builds the same nodes up to the error, and does not end in a
mismatch at the same node without a further token. -/
theorem parse_resumes_at_expected {tokens : List Token} {depth : Nat} {session : Session}
    {f : Failure} {c : Nat} (h : parse tokens depth = some (session, some f))
    (hcause : f.cause = .mismatch) (hc : session.state.cursor.consumed = c) :
    ∃ front, session.tree.attachments.toList = front ++ [⟨f.node, Node.error f.message⟩] ∧
      (∃ kinds, f.Expects kinds) ∧
      ∀ kinds, f.Expects kinds →
        kinds ≠ [] ∧ f.token.elim .endOfInput Token.kind ∉ kinds ∧
        ∀ ahead, Token.firstKind ahead ∈ kinds → ∀ depth' session' failure',
          parse (tokens.take c ++ ahead) depth' = some (session', failure') →
            front <+: session'.tree.attachments.toList ∧
            ¬ ∃ f', failure' = some f' ∧ f'.cause = .mismatch ∧ f'.node = f.node ∧
              session'.state.cursor.consumed = c := by
  obtain ⟨ds, ts, fault, hrun, ⟨htokens, hconsumed⟩, htree, hfailure⟩ := parse_eq_some h
  obtain ⟨fault, rfl, rfl⟩ := Option.map_eq_some_iff.mp hfailure.symm
  obtain rfl : ts.length = c := hconsumed.symm.trans hc
  have hmismatch := Fault.cause_eq_mismatch_iff.mp hcause
  have hexpects := Fault.expects hmismatch session.tree.lastParent
  obtain ⟨n, hends, _⟩ := hrun.endsIn_of_program htree
  refine ⟨_, hends.attachments_eq, ⟨_, hexpects⟩, fun kinds hkinds => ?_⟩
  obtain rfl := hexpects.unique hkinds
  obtain ⟨hne, hfound⟩ := hrun.expects rfl hmismatch
  refine ⟨hne, ?_, ?_⟩
  · have htoken : fault.token = session.state.cursor.current :=
      (hrun.token_of_fault rfl).resolve_left hmismatch
    rw [session.state.kind_eq_firstKind] at hfound
    show fault.token.elim _ _ ∉ _
    rw [htoken]
    exact hfound
  · intro ahead hahead depth' session' failure' h'
    have htake : tokens.take ts.length = ts := by simp [htokens]
    rw [htake] at h'
    obtain ⟨es, us, fault', hrun', ⟨_, hconsumed'⟩, htree', hfailure'⟩ := parse_eq_some h'
    obtain ⟨mend, more, last, rfl, hresumes, hlast, hsound⟩ :=
      hrun.resumes ends_programSymbols rfl hahead hrun'
    obtain ⟨hnodes, herror⟩ := hresumes.tree hlast htree htree'
    refine ⟨hnodes, ?_⟩
    rintro ⟨f', hf', _, hnode, hsame⟩
    obtain ⟨fault', rfl, rfl⟩ := Option.map_eq_some_iff.mp (hfailure'.symm.trans hf')
    obtain ⟨m, hends', _⟩ := hrun'.endsIn_of_program htree'
    obtain ⟨f'', rfl⟩ := herror ⟨m, fault', hends', hnode⟩
    have hmore : more = [] := by
      rw [hconsumed', List.length_append] at hsame
      exact List.eq_nil_of_length_eq_zero (by omega)
    exact hsound hmore f'' rfl

/-- After `write 1` a list of statements expects `else` rather than `)`, since it may stand in a
branch. With `else` it ends there, and only the program says that there is no branch. -/
theorem parse_resumes_at_else :
    ∃ session f session' f',
      parse [⟨.kwWrite, "write", 1, 1⟩, ⟨.number, "1", 1, 7⟩, ⟨.closeParen, ")", 1, 9⟩] =
          some (session, some f) ∧
        f.Expects [.endOfInput, .identifier, .kwRead, .kwWrite, .kwVar, .kwLet, .kwIf, .kwElse,
          .kwEndif, .kwUntil, .kwRepeat] ∧
        parse [⟨.kwWrite, "write", 1, 1⟩, ⟨.number, "1", 1, 7⟩, ⟨.kwElse, "else", 1, 9⟩] =
          some (session', some f') ∧
        session'.state.cursor.consumed = 2 ∧ f'.node ≠ f.node := by
  have hfails :
      (parse [⟨.kwWrite, "write", 1, 1⟩, ⟨.number, "1", 1, 7⟩, ⟨.closeParen, ")", 1, 9⟩]).map
        (fun p => (p.1.state.cursor.consumed, p.2.map fun f => (f.cause, f.message, f.token))) =
          some (2, some (.mismatch, "expected one of end-of-input, identifier, read, write, " ++
            "var, let, if, else, endif, until, repeat but found ) (close-paren)",
            some ⟨.closeParen, ")", 1, 9⟩)) := by
    rw [parse_eq_sets]
    decide +kernel
  have hfails' :
      (parse [⟨.kwWrite, "write", 1, 1⟩, ⟨.number, "1", 1, 7⟩, ⟨.kwElse, "else", 1, 9⟩]).map
        (fun p => (p.1.state.cursor.consumed, p.2.map fun f => f.cause)) =
          some (2, some .mismatch) := by
    rw [parse_eq_sets]
    decide +kernel
  obtain ⟨⟨session, failure⟩, hparse, hanswer⟩ := Option.map_eq_some_iff.mp hfails
  obtain ⟨hconsumed, hfailure⟩ := Prod.mk.inj hanswer
  obtain ⟨f, rfl, hfacts⟩ := Option.map_eq_some_iff.mp hfailure
  obtain ⟨hcause, hmessage, htoken⟩ : f.cause = _ ∧ f.message = _ ∧ f.token = _ := by
    simpa using hfacts
  obtain ⟨⟨session', failure'⟩, hparse', hanswer'⟩ := Option.map_eq_some_iff.mp hfails'
  obtain ⟨hconsumed', hfailure'⟩ := Prod.mk.inj hanswer'
  obtain ⟨f', rfl, hcause'⟩ := Option.map_eq_some_iff.mp hfailure'
  have hexpects : f.Expects [.endOfInput, .identifier, .kwRead, .kwWrite, .kwVar, .kwLet, .kwIf,
      .kwElse, .kwEndif, .kwUntil, .kwRepeat] := by
    right
    rw [hmessage, htoken]
    decide +kernel
  obtain ⟨front, _, _, hkinds⟩ := parse_resumes_at_expected hparse hcause hconsumed
  obtain ⟨_, _, hahead⟩ := hkinds _ hexpects
  obtain ⟨_, hother⟩ :=
    hahead [⟨.kwElse, "else", 1, 9⟩] (by decide) depthLimit session' (some f') hparse'
  refine ⟨session, f, session', f', hparse, hexpects, hparse', hconsumed', fun hnode => ?_⟩
  exact hother ⟨f', rfl, hcause', hnode, hconsumed'⟩

end TopDown
