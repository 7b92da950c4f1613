import Mathlib.Data.List.Forall2
import TopDown.Proofs.Derivation.Word
import TopDown.Proofs.Grammar.Program
import TopDown.Proofs.Tree.Rose

/-!
# What the nodes of a derivation spell

The children of a node spell symbols: a terminal shows as its wrapper with one lexeme, a
non-terminal as the node of its production. Below the node of a production that is done they spell a
whole alternative. A production that was cut short has an error somewhere below it, and its
children, but for the error, spell the beginning of an alternative.
-/

namespace TopDown

open TopDown.Derivation

/-- The node shows the symbol. -/
def Shows : Symbol Nonterminal → Rose Node → Prop
  | .terminal kind, tree =>
    ∃ lexeme, tree = .node (Node.wrapper kind) [.node (Node.terminal lexeme) []]
  | .nonterminal n, tree => tree.value = Node.nonterminal n.name

/-- The nodes spell the whole alternative; the empty one shows as a leaf of its own. -/
def SpellsWhole (alt : Alternative Nonterminal) (forest : Forest Node) : Prop :=
  if alt = [] then forest = [.node Node.empty []] else List.Forall₂ Shows alt forest

/-- But for an error the nodes spell a prefix of the symbols. -/
def SpellsPrefix (symbols : List (Symbol Nonterminal)) (forest : Forest Node) : Prop :=
  ∃ front, front <+: symbols ∧
    List.Forall₂ Shows front (forest.filter (·.value.role ≠ .error))

/-- There is an error at or below the node. -/
def Rose.HasError (tree : Rose Node) : Prop :=
  ∃ node ∈ tree.preorder, node.role = .error

/-- The children of a production node spell an alternative, or a prefix of one if there is an error
below the node. -/
def SpellsAlternative (tree : Rose Node) : Prop :=
  ∀ n, tree.value = Node.nonterminal n.name →
    ∃ alt ∈ programGrammar.alternatives n,
      (¬ tree.HasError → SpellsWhole alt tree.children) ∧
        (tree.HasError → SpellsPrefix alt tree.children)

/-! ## Names -/

theorem Node.nonterminal_injective {name name' : String}
    (h : Node.nonterminal name = Node.nonterminal name') : name = name' := by
  have hlabel : "<" ++ name ++ ">" = "<" ++ name' ++ ">" := congrArg Node.label h
  have hlist := congrArg String.toList hlabel
  simp only [String.toList_append, List.append_cancel_right_eq, List.append_cancel_left_eq] at hlist
  exact String.toList_injective hlist

theorem Nonterminal.name_injective {n m : Nonterminal} (h : n.name = m.name) : n = m := by
  have hcheck : ∀ n ∈ Nonterminal.all, ∀ m ∈ Nonterminal.all, n.name = m.name → n = m := by
    decide +kernel
  exact hcheck n n.mem_all m m.mem_all h

theorem Node.wrapper_ne_nonterminal (kind : Kind) (n : Nonterminal) :
    Node.wrapper kind ≠ Node.nonterminal n.name := by
  have hcheck : ∀ kind ∈ Kind.all, ∀ n ∈ Nonterminal.all, kind.name ≠ n.name := by
    decide +kernel
  intro h
  exact hcheck kind kind.mem_all n n.mem_all (Node.nonterminal_injective h)

/-! ## Prefixes -/

theorem Shows.role {symbol : Symbol Nonterminal} {tree : Rose Node} (h : Shows symbol tree) :
    tree.value.role = .nonterminal := by
  cases symbol with
  | terminal kind =>
    obtain ⟨lexeme, rfl⟩ := h
    rfl
  | nonterminal n =>
    have hvalue : tree.value = Node.nonterminal n.name := h
    rw [hvalue]
    rfl

theorem spellsPrefix_nil {symbols : List (Symbol Nonterminal)} : SpellsPrefix symbols [] :=
  ⟨[], List.nil_prefix, .nil⟩

/-- An error is left out. -/
theorem SpellsPrefix.error {symbols : List (Symbol Nonterminal)} {forest : Forest Node}
    (h : SpellsPrefix symbols forest) (message : String) :
    SpellsPrefix symbols (.node (Node.error message) [] :: forest) := by
  obtain ⟨front, hfront, hshows⟩ := h
  exact ⟨front, hfront, hshows⟩

theorem SpellsPrefix.cons {symbol : Symbol Nonterminal} {rest : List (Symbol Nonterminal)}
    {tree : Rose Node} {forest : Forest Node} (hshows : Shows symbol tree)
    (h : SpellsPrefix rest forest) : SpellsPrefix (symbol :: rest) (tree :: forest) := by
  obtain ⟨front, hfront, hall⟩ := h
  refine ⟨symbol :: front, (List.prefix_cons_inj symbol).mpr hfront, ?_⟩
  have hkept : (tree :: forest).filter (·.value.role ≠ .error) =
      tree :: forest.filter (·.value.role ≠ .error) :=
    List.filter_cons_of_pos (by simp [hshows.role])
  rw [hkept]
  exact .cons hshows hall

/-! ## Derivations as nodes -/

/-- The nodes that show derivations. -/
abbrev shown (ds : List (Derivation Nonterminal)) : Forest Node :=
  Derivation.forest Nonterminal.name ds

theorem shown_append (ds es : List (Derivation Nonterminal)) :
    shown (ds ++ es) = shown ds ++ shown es := by
  induction ds with
  | nil => rfl
  | cons d ds ih => exact congrArg (d.toRose Nonterminal.name :: ·) ih

theorem shows_terminal (kind : Kind) (lexeme : String) :
    Shows (.terminal kind) ((Derivation.terminal kind lexeme).toRose Nonterminal.name) :=
  ⟨lexeme, rfl⟩

theorem shows_production (n : Nonterminal) (ds : List (Derivation Nonterminal)) :
    Shows (.nonterminal n) ((Derivation.production n ds).toRose Nonterminal.name) :=
  rfl

namespace Language

variable {host : Nonterminal} {symbols : List (Symbol Nonterminal)} {s s' : State}
  {ds : List (Derivation Nonterminal)} {ts : List Token} {fault : Option Fault}

/-- A run that is done shows all of its symbols. -/
theorem Runs.spells (h : programLanguage.Runs host symbols s ds ts s' fault)
    (hdone : fault = none) : List.Forall₂ Shows symbols (shown ds) := by
  induction h with
  | nil => exact .nil
  | ended _ _ ih => exact .cons (shows_terminal _ _) (ih hdone)
  | matched _ _ _ _ ih => exact .cons (shows_terminal _ _) (ih hdone)
  | redeclared => cases hdone
  | mismatched => cases hdone
  | refused => cases hdone
  | vanished _ _ ih => exact .cons (shows_production _ _) (ih hdone)
  | called _ _ _ _ _ ih => exact .cons (shows_production _ _) (ih hdone)
  | broken => cases hdone

/-- But for its error a run shows those of its symbols that it came to. -/
theorem Runs.spellsPrefix (h : programLanguage.Runs host symbols s ds ts s' fault) :
    SpellsPrefix symbols (shown ds) := by
  induction h with
  | nil => exact spellsPrefix_nil
  | ended _ _ ih => exact .cons (shows_terminal _ _) ih
  | matched _ _ _ _ ih => exact .cons (shows_terminal _ _) ih
  | redeclared => exact .cons (shows_terminal _ _) (spellsPrefix_nil.error _)
  | mismatched => exact spellsPrefix_nil.error _
  | refused => exact .cons (shows_production _ _) spellsPrefix_nil
  | vanished _ _ ih => exact .cons (shows_production _ _) ih
  | called _ _ _ _ _ ih => exact .cons (shows_production _ _) ih
  | broken => exact .cons (shows_production _ _) spellsPrefix_nil

end Language

/-! ## Errors -/

/-- The error nodes of a forest, in pre-order. -/
def errors (forest : Forest Node) : List Node :=
  (Rose.forestOnto [] forest).filter (·.role = .error)

@[simp] theorem errors_nil : errors (shown []) = [] :=
  rfl

@[simp] theorem errors_production (n : Nonterminal) (children ds : List (Derivation Nonterminal)) :
    errors (shown (.production n children :: ds)) =
      errors (shown children) ++ errors (shown ds) := by
  rw [errors, shown, Derivation.forest, Rose.forestOnto_cons, Derivation.toRose, Rose.preorder_node]
  simp [errors, Node.nonterminal]

@[simp] theorem errors_terminal (kind : Kind) (lexeme : String)
    (ds : List (Derivation Nonterminal)) :
    errors (shown (.terminal kind lexeme :: ds)) = errors (shown ds) := by
  simp [errors, Derivation.forest, Derivation.toRose, Rose.forestOnto, Rose.preorderOnto,
    Node.wrapper, Node.nonterminal, Node.terminal]

@[simp] theorem errors_empty (ds : List (Derivation Nonterminal)) :
    errors (shown (.empty :: ds)) = errors (shown ds) := by
  simp [errors, Derivation.forest, Derivation.toRose, Rose.forestOnto, Rose.preorderOnto,
    Node.empty]

@[simp] theorem errors_error (fault : Fault) (ds : List (Derivation Nonterminal)) :
    errors (shown (.error fault :: ds)) = Node.error fault.message :: errors (shown ds) := by
  simp [errors, Derivation.forest, Derivation.toRose, Rose.forestOnto, Rose.preorderOnto,
    Node.error]

/-- The errors below a node are those below its children. -/
theorem hasError_production_iff {n : Nonterminal} {children : List (Derivation Nonterminal)} :
    ((Derivation.production n children).toRose Nonterminal.name).HasError ↔
      errors (shown children) ≠ [] := by
  rw [Rose.HasError, Derivation.toRose, Rose.preorder_node]
  simp [errors, Node.nonterminal, List.filter_eq_nil_iff]

namespace Language

variable {host : Nonterminal} {symbols : List (Symbol Nonterminal)} {s s' : State}
  {ds : List (Derivation Nonterminal)} {ts : List Token} {fault : Option Fault}

/-- A run that is done shows no error, and one that fails shows its fault and no other. -/
theorem Runs.errors_eq (h : programLanguage.Runs host symbols s ds ts s' fault) :
    errors (shown ds) = (fault.map fun f => Node.error f.message).toList := by
  induction h with
  | nil => rfl
  | ended _ _ ih | matched _ _ _ _ ih => simpa using ih
  | redeclared => simp
  | mismatched => simp
  | refused => simp
  | vanished _ _ ih => simpa using ih
  | called _ _ _ _ ihc ihr => simp [ihc, ihr]
  | broken _ _ _ ih => simp [ih]

/-! ## Production nodes -/

/-- The node of a call spells the alternative that the call works through. -/
theorem Runs.spellsAlternative {n : Nonterminal} {alt : Alternative Nonterminal}
    (h : programLanguage.Runs n alt s ds ts s' fault) (halt : alt ∈ programGrammar.alternatives n)
    (hne : alt ≠ []) :
    SpellsAlternative ((Derivation.production n ds).toRose Nonterminal.name) := by
  intro m hm
  obtain rfl : n = m := Nonterminal.name_injective (Node.nonterminal_injective hm)
  refine ⟨alt, halt, fun hdone => ?_, fun _ => h.spellsPrefix⟩
  have hnone : fault = none := by
    by_contra hsome
    obtain ⟨f, rfl⟩ := Option.ne_none_iff_exists'.mp hsome
    exact hdone (hasError_production_iff.mpr (by simp [h.errors_eq]))
  rw [SpellsWhole, if_neg hne]
  exact h.spells hnone

end Language

theorem spellsAlternative_vanished {n : Nonterminal} (halt : [] ∈ programGrammar.alternatives n) :
    SpellsAlternative ((Derivation.production n [.empty]).toRose Nonterminal.name) := by
  intro m hm
  obtain rfl : n = m := Nonterminal.name_injective (Node.nonterminal_injective hm)
  refine ⟨[], halt, fun _ => rfl, fun herror => ?_⟩
  rw [hasError_production_iff] at herror
  exact absurd (errors_empty []) herror

theorem spellsAlternative_refused (n : Nonterminal) (fault : Fault) :
    SpellsAlternative ((Derivation.production n [.error fault]).toRose Nonterminal.name) := by
  intro m hm
  obtain rfl : n = m := Nonterminal.name_injective (Node.nonterminal_injective hm)
  obtain ⟨word, hword⟩ := programGrammar_productive n
  obtain ⟨alt, halt, _⟩ := Grammar.yields_singleton_iff.mp hword
  refine ⟨alt, halt, fun hdone => ?_, fun _ => spellsPrefix_nil.error _⟩
  exact absurd (hasError_production_iff.mpr (by simp)) hdone

/-- Only the nodes of productions show the name of a non-terminal. -/
theorem spellsAlternative_of_value {tree : Rose Node}
    (h : ∀ n : Nonterminal, tree.value ≠ Node.nonterminal n.name) : SpellsAlternative tree :=
  fun n hn => absurd hn (h n)

/-- Every production node of the derivations spells an alternative, or a prefix above an error. -/
def AllSpell (ds : List (Derivation Nonterminal)) : Prop :=
  ∀ tree ∈ Rose.subtreesOf (shown ds), SpellsAlternative tree

theorem allSpell_nil : AllSpell [] := by
  simp [AllSpell, Derivation.forest, Rose.subtreesOf]

theorem allSpell_cons {d : Derivation Nonterminal} {ds : List (Derivation Nonterminal)} :
    AllSpell (d :: ds) ↔
      (∀ tree ∈ (d.toRose Nonterminal.name).subtrees, SpellsAlternative tree) ∧ AllSpell ds := by
  rw [AllSpell, shown, Derivation.forest, Rose.subtreesOf]
  exact List.forall_mem_append

theorem allSpell_production {n : Nonterminal} {children ds : List (Derivation Nonterminal)} :
    AllSpell (.production n children :: ds) ↔
      SpellsAlternative ((Derivation.production n children).toRose Nonterminal.name) ∧
        AllSpell children ∧ AllSpell ds := by
  rw [allSpell_cons, ← and_assoc]
  exact and_congr_left' List.forall_mem_cons

theorem allSpell_leaf {node : Node} (hnode : ∀ n : Nonterminal, node ≠ Node.nonterminal n.name) :
    ∀ tree ∈ (Rose.node node []).subtrees, SpellsAlternative tree := by
  intro tree htree
  obtain rfl : tree = .node node [] := by simpa [Rose.subtrees, Rose.subtreesOf] using htree
  exact spellsAlternative_of_value hnode

theorem allSpell_terminal {kind : Kind} {lexeme : String} {ds : List (Derivation Nonterminal)} :
    AllSpell (.terminal kind lexeme :: ds) ↔ AllSpell ds := by
  rw [allSpell_cons, and_iff_right_iff_imp]
  intro _ tree htree
  rcases List.mem_cons.mp htree with rfl | hbelow
  · exact spellsAlternative_of_value (Node.wrapper_ne_nonterminal kind)
  · rw [Rose.subtreesOf, Rose.subtreesOf, List.append_nil] at hbelow
    exact allSpell_leaf (fun n => by simp [Node.terminal, Node.nonterminal]) tree hbelow

theorem allSpell_empty : AllSpell [.empty] :=
  allSpell_cons.mpr ⟨allSpell_leaf (fun n => by simp [Node.empty, Node.nonterminal]), allSpell_nil⟩

theorem allSpell_error (fault : Fault) : AllSpell [.error fault] :=
  allSpell_cons.mpr ⟨allSpell_leaf (fun n => by simp [Node.error, Node.nonterminal]), allSpell_nil⟩

theorem Language.Runs.allSpell {host : Nonterminal} {symbols : List (Symbol Nonterminal)}
    {s s' : State} {ds : List (Derivation Nonterminal)} {ts : List Token} {fault : Option Fault}
    (h : programLanguage.Runs host symbols s ds ts s' fault) : AllSpell ds := by
  induction h with
  | nil => exact allSpell_nil
  | ended _ _ ih | matched _ _ _ _ ih => exact allSpell_terminal.mpr ih
  | redeclared => exact allSpell_terminal.mpr (allSpell_error _)
  | mismatched => exact allSpell_error _
  | refused =>
    exact allSpell_production.mpr ⟨spellsAlternative_refused _ _, allSpell_error _, allSpell_nil⟩
  | vanished hchoose _ ih =>
    have halt := mem_alternatives_of_choose? hchoose
    exact allSpell_production.mpr ⟨spellsAlternative_vanished halt, allSpell_empty, ih⟩
  | called hchoose hne hcall _ ihc ihr =>
    have halt := mem_alternatives_of_choose? hchoose
    exact allSpell_production.mpr ⟨hcall.spellsAlternative halt hne, ihc, ihr⟩
  | broken hchoose hne hcall ih =>
    have halt := mem_alternatives_of_choose? hchoose
    exact allSpell_production.mpr ⟨hcall.spellsAlternative halt hne, ih, allSpell_nil⟩

end TopDown
