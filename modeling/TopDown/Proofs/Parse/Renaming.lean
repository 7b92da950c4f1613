import TopDown.Proofs.Derivation.Renaming
import TopDown.Proofs.Parse.Limit
import TopDown.Proofs.Tree.Terminals

/-!
# Renaming

Parsing commutes with renaming. If the lexemes of the tokens are renamed one to one and their places
are changed in any way, then the parse ends in the same way, with the same tree but for the lexemes
that it shows, and with the renamed names.
-/

namespace TopDown

open TopDown.Derivation

/-! ## Frames -/

/-- The node without the text that it shows: the lexeme of a terminal or the message of an error. -/
def Node.frame (a : Node) : Node :=
  if a.role = .terminal ∨ a.role = .error then ⟨a.role, ""⟩ else a

namespace Tree

/-- The nodes without the texts that they show, each below its parent. -/
def frames (t : Tree) : List Attachment :=
  t.attachments.toList.map fun a => ⟨a.parent, a.node.frame⟩

variable {t t' : Tree}

theorem size_eq_of_frames (h : t'.frames = t.frames) : t'.size = t.size := by
  have hlength := congrArg List.length h
  simp only [frames, List.length_map, Array.length_toList] at hlength
  rw [size, size, hlength]

theorem lastParent_eq (t : Tree) : t.lastParent = t.frames.getLast?.elim 0 (·.parent) := by
  rw [lastParent, frames, List.getLast?_map, ← Array.getLast?_toList]
  cases t.attachments.toList.getLast? <;> rfl

theorem frames_attach (parent : Nat) (node : Node) :
    (t.attach parent node).frames = t.frames ++ [⟨parent, node.frame⟩] := by
  simp [frames, attach]

theorem frames_attach_eq (h : t'.frames = t.frames) (parent : Nat) {node node' : Node}
    (hnode : node'.frame = node.frame) :
    (t'.attach parent node').frames = (t.attach parent node).frames := by
  rw [frames_attach, frames_attach, h, hnode]

end Tree

/-- Derivations that are alike are shown by the same nodes but for the texts. -/
theorem Derivation.Alike.frames_graftForest {N : Type} {name : N → String}
    {ds ds' : List (Derivation N)} (h : Alike ds ds') {t t' : Tree} (ht : t'.frames = t.frames)
    (parent : Nat) :
    (t'.graftForest parent (forest name ds')).frames =
      (t.graftForest parent (forest name ds)).frames := by
  induction h generalizing t t' parent with
  | nil => exact ht
  | production n _ _ ihc ihr =>
    have hopened := Tree.frames_attach_eq ht parent (rfl : (Node.nonterminal (name n)).frame = _)
    refine ihr ?_ parent
    rw [toRose, toRose, Tree.graft, Tree.graft, Tree.size_eq_of_frames ht]
    exact ihc hopened t.size
  | terminal kind lexeme lexeme' _ ih =>
    have hwrapper := Tree.frames_attach_eq ht parent (rfl : (Node.wrapper kind).frame = _)
    refine ih ?_ parent
    rw [toRose, toRose, Tree.graft, Tree.graft, Tree.size_eq_of_frames ht]
    exact Tree.frames_attach_eq hwrapper t.size rfl
  | empty => exact Tree.frames_attach_eq ht parent rfl
  | error f f' => exact Tree.frames_attach_eq ht parent rfl

/-! ## What a run leaves -/

/-- The labels of the terminals, in the order of their ids. -/
def Tree.terminalLabels (t : Tree) : List String :=
  Node.terminalLabels t.nodes

namespace Session

variable {ds ds' : List (Derivation Nonterminal)} {state state' : State}
  {fault fault' : Option Fault}

theorem terminalLabels_leave {ts : List Token} {ends : Nat}
    (hleaves : leavesOf ds = ts.map Token.leaf ++ List.replicate ends endLeaf) :
    (leave ds state fault).1.tree.terminalLabels =
      ts.map Token.lexeme ++ List.replicate ends Kind.endOfInput.name := by
  have hnodes : (leave ds state fault).1.tree.nodes = Node.root ::
      ((Derivation.production .program ds).toRose Nonterminal.name).preorder :=
    Tree.nodes_graft {} 0 _
  calc
    (leave ds state fault).1.tree.terminalLabels =
        Node.terminalLabels
          ((Derivation.production .program ds).toRose Nonterminal.name).preorder := by
      rw [Tree.terminalLabels, hnodes]
      rfl
    _ = (leavesOf ds).map Prod.snd := terminalLabels_toRose _ _
    _ = ts.map Token.lexeme ++ List.replicate ends Kind.endOfInput.name := by
      simp [hleaves, Token.leaf, endLeaf, Function.comp_def]

theorem frames_leave : (leave ds state fault).1.tree.frames =
    (Tree.graftForest {} 0 (shown [.production .program ds])).frames := by
  simp only [leave, Tree.frames, Derivation.forest, Tree.graftForest]

theorem frames_leave_eq (h : Alike ds ds') :
    (leave ds' state' fault').1.tree.frames = (leave ds state fault).1.tree.frames := by
  have hprogram : Alike [.production .program ds] [.production .program ds'] :=
    .production .program h .nil
  rw [frames_leave, frames_leave]
  exact hprogram.frames_graftForest (Eq.refl (Tree.frames {})) 0

/-- The failure of a fault is noticed at the parent of the last node. -/
theorem failure_leave : (leave ds state fault).2 =
    fault.map fun f => f.toFailure (leave ds state fault).1.tree.lastParent :=
  rfl

theorem failure_leave_eq (h : Alike ds ds')
    (hfault : fault'.map Fault.cause = fault.map Fault.cause) :
    (leave ds' state' fault').2.map (fun f => (f.cause, f.node)) =
      (leave ds state fault).2.map fun f => (f.cause, f.node) := by
  have hparent : (leave ds' state' fault').1.tree.lastParent =
      (leave ds state fault).1.tree.lastParent := by
    rw [Tree.lastParent_eq, Tree.lastParent_eq, frames_leave_eq h]
  rw [failure_leave, failure_leave, hparent, Option.map_map, Option.map_map]
  cases fault <;> cases fault' <;> simp_all [Fault.cause, Fault.toFailure]

end Session

/-! ## Parses -/

/-- Over related tokens a parse ends in the same way, and leaves the same nodes but for their
texts. -/
theorem parse_alike {R : Token → Token → Prop} (hR : Faithful R) {tokens tokens' : List Token}
    (htokens : List.Forall₂ R tokens tokens') {depth : Nat} {session : Session}
    {failure : Option Failure} (h : parse tokens depth = some (session, failure)) :
    ∃ session' failure', parse tokens' depth = some (session', failure') ∧
      failure'.map (fun f => (f.cause, f.node)) = failure.map (fun f => (f.cause, f.node)) ∧
      session.state.Alike R session'.state ∧ session'.tree.frames = session.tree.frames ∧
      ∃ ts ts' last, tokens = ts ++ session.state.cursor.rest ∧
        session.state.cursor.consumed = ts.length ∧ List.Forall₂ R ts ts' ∧
        session.tree.terminalLabels = ts.map Token.lexeme ++ last ∧
        session'.tree.terminalLabels = ts'.map Token.lexeme ++ last := by
  obtain ⟨ds, ts, state, fault, hrun, hlevels, hanswer⟩ := parse_eq_some_iff.mp h
  obtain rfl : session = (Session.leave ds state fault).1 := congrArg Prod.fst hanswer
  obtain rfl : failure = (Session.leave ds state fault).2 := congrArg Prod.snd hanswer
  have hstart : (State.start tokens).Alike R (State.start tokens') := ⟨htokens, rfl, .nil⟩
  obtain ⟨ds', ts', state', fault', hrun', hds, hts, hstate, hfault⟩ := hrun.alike hR hstart
  rw [← hds.levelsBelow_eq] at hlevels
  have hparse := parse_eq_some_iff.mpr ⟨ds', ts', state', fault', hrun', hlevels, rfl⟩
  obtain ⟨ends, hleaves, _⟩ := hrun.leaves
  obtain ⟨ends', hleaves', _⟩ := hrun'.leaves
  -- There are as many leaves, and as many of them show tokens.
  have hends : ends' = ends := by
    have hlength := hds.length_leavesOf
    rw [hleaves, hleaves'] at hlength
    simp only [List.length_append, List.length_map, List.length_replicate, hts.length_eq] at hlength
    omega
  subst hends
  obtain ⟨htaken, hconsumed⟩ := hrun.consumes
  exact ⟨(Session.leave ds' state' fault').1, (Session.leave ds' state' fault').2, hparse,
    Session.failure_leave_eq hds hfault, hstate, Session.frames_leave_eq hds, ts, ts', _, htaken,
    hconsumed.trans (Nat.zero_add _), hts, Session.terminalLabels_leave hleaves,
    Session.terminalLabels_leave hleaves'⟩

/-- Over related tokens a parse nests too deeply on both sides or on none. -/
theorem parse_eq_none_iff_of_alike {R : Token → Token → Prop} (hR : Faithful R)
    {tokens tokens' : List Token} (htokens : List.Forall₂ R tokens tokens') {depth : Nat} :
    parse tokens' depth = none ↔ parse tokens depth = none := by
  constructor
  · intro hnone
    cases h : parse tokens depth with
    | none => rfl
    | some answer =>
      obtain ⟨_, _, h', _⟩ := parse_alike hR htokens h
      cases hnone.symm.trans h'
  · intro hnone
    cases h : parse tokens' depth with
    | none => rfl
    | some answer =>
      obtain ⟨_, _, h', _⟩ := parse_alike hR.symm htokens.flip h
      cases hnone.symm.trans h'

/-- The token renamed by `f`, in any place. -/
def Token.RenamedBy (f : String → String) (t t' : Token) : Prop :=
  t'.kind = t.kind ∧ t'.lexeme = f t.lexeme

theorem faithful_of_renamedBy {f : String → String} {tokens tokens' : List Token}
    (hinj : ∀ t ∈ tokens, ∀ u ∈ tokens, f t.lexeme = f u.lexeme → t.lexeme = u.lexeme)
    (hsame : List.Forall₂ (Token.RenamedBy f) tokens tokens') :
    Faithful fun t t' => (t, t') ∈ tokens.zip tokens' where
  kind h := (List.forall₂_zip hsame h).1
  lexeme {t t' u u'} ht hu := by
    rw [(List.forall₂_zip hsame ht).2, (List.forall₂_zip hsame hu).2]
    constructor
    · exact hinj t (List.of_mem_zip ht).1 u (List.of_mem_zip hu).1
    · exact congrArg f

/-- Parsing commutes with renaming: where the lexemes of the tokens are renamed one to one, and
their places are changed in any way, a parse ends in the same way and consumes as many tokens, its
nodes are the same but for the lexemes of these tokens, which are renamed, and the message of an
error, and it declares the renamed tokens. -/
theorem parse_renames {f : String → String} {tokens tokens' : List Token}
    (hinj : ∀ t ∈ tokens, ∀ u ∈ tokens, f t.lexeme = f u.lexeme → t.lexeme = u.lexeme)
    (hsame : List.Forall₂ (Token.RenamedBy f) tokens tokens') (depth : Nat) :
    (parse tokens' depth = none ↔ parse tokens depth = none) ∧
      ∀ session failure, parse tokens depth = some (session, failure) →
        ∃ session' failure', parse tokens' depth = some (session', failure') ∧
          failure'.map Failure.cause = failure.map Failure.cause ∧
          session'.state.cursor.consumed = session.state.cursor.consumed ∧
          session'.tree.frames = session.tree.frames ∧
          (∃ last, session.tree.terminalLabels =
              (tokens.take session.state.cursor.consumed).map Token.lexeme ++ last ∧
            session'.tree.terminalLabels =
              ((tokens.take session.state.cursor.consumed).map Token.lexeme).map f ++ last) ∧
          session'.state.scope.names = session.state.scope.names.map f ∧
          List.Forall₂ (fun t t' => (t, t') ∈ tokens.zip tokens') session.state.scope.tokens
            session'.state.scope.tokens := by
  have hfaithful := faithful_of_renamedBy hinj hsame
  have hzip : List.Forall₂ (fun t t' => (t, t') ∈ tokens.zip tokens') tokens tokens' :=
    List.forall₂_iff_zip.mpr ⟨hsame.length_eq, id⟩
  have hlexemes {ts ts' : List Token}
      (h : List.Forall₂ (fun t t' => (t, t') ∈ tokens.zip tokens') ts ts') :
      ts'.map Token.lexeme = (ts.map Token.lexeme).map f := by
    induction h with
    | nil => rfl
    | cons ht _ ih =>
      rw [List.map_cons, ih, (List.forall₂_zip hsame ht).2]
      rfl
  refine ⟨parse_eq_none_iff_of_alike hfaithful hzip, fun session failure h => ?_⟩
  obtain ⟨session', failure', h', hfailure, hstate, hframes, ts, ts', last, htokens, hconsumed, hts,
    hlabels, hlabels'⟩ := parse_alike hfaithful hzip h
  have htake : tokens.take session.state.cursor.consumed = ts := by
    rw [hconsumed, htokens, List.take_left]
  have hcause : failure'.map Failure.cause = failure.map Failure.cause := by
    simpa [Function.comp_def] using congrArg (Option.map Prod.fst) hfailure
  refine ⟨session', failure', h', hcause, hstate.consumed, hframes, ⟨last, ?_, ?_⟩,
    hlexemes hstate.scope, hstate.scope⟩
  · rw [htake, hlabels]
  · rw [htake, hlabels', hlexemes hts]

/-- A declaration of another name elsewhere is parsed as the declaration is. -/
theorem parse_renames_declaration :
    ∃ session session',
      parse [⟨.kwVar, "var", 1, 1⟩, ⟨.identifier, "x", 1, 5⟩] = some (session, none) ∧
        parse [⟨.kwVar, "var", 7, 2⟩, ⟨.identifier, "xs", -1, 0⟩] = some (session', none) ∧
        session'.tree.frames = session.tree.frames ∧
        session'.state.scope.names =
          session.state.scope.names.map (if · = "x" then "xs" else "var") := by
  have haccepted : (parse [⟨.kwVar, "var", 1, 1⟩, ⟨.identifier, "x", 1, 5⟩]).map
      (fun p => p.2.isNone) = some true := by
    decide +kernel
  obtain ⟨⟨session, failure⟩, hparse, hanswer⟩ := Option.map_eq_some_iff.mp haccepted
  obtain rfl := Option.isNone_iff_eq_none.mp hanswer
  have hsame : List.Forall₂ (Token.RenamedBy (if · = "x" then "xs" else "var"))
      [⟨.kwVar, "var", 1, 1⟩, ⟨.identifier, "x", 1, 5⟩]
      [⟨.kwVar, "var", 7, 2⟩, ⟨.identifier, "xs", -1, 0⟩] :=
    .cons ⟨rfl, by decide⟩ (.cons ⟨rfl, by decide⟩ .nil)
  obtain ⟨_, hsame⟩ := parse_renames (by decide) hsame depthLimit
  obtain ⟨session', failure', hparse', hfailure, _, hframes, _, hnames, _⟩ :=
    hsame session none hparse
  obtain rfl := Option.map_eq_none_iff.mp hfailure
  exact ⟨session, session', hparse, hparse', hframes, hnames⟩

end TopDown
