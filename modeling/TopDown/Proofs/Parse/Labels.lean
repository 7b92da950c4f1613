import TopDown.Proofs.Lexicon.Layout
import TopDown.Proofs.Lexicon.Words
import TopDown.Proofs.Parse.Failure
import TopDown.Proofs.Parse.Locality
import TopDown.Render.Outline

/-!
# Labels of parse trees

A label is a name, a lexeme or a message. Names are fixed words, a lexeme that is scanned from a
text holds no blank, and a message is made of names, of one lexeme and of numbers. So no label in
the tree of a program text holds a line end, and none starts with a space or the mark of an error.
-/

namespace TopDown

open TopDown.Text

namespace Text

/-- No line ends in the text. -/
def OneLine (text : String) : Prop :=
  ∀ c ∈ text.toList, isLineEnd c = false

instance (text : String) : Decidable (OneLine text) :=
  List.decidableBAll _ text.toList

@[simp] theorem oneLine_append {a b : String} : OneLine (a ++ b) ↔ OneLine a ∧ OneLine b := by
  rw [OneLine, String.toList_append, List.forall_mem_append]
  rfl

theorem oneLine_of_not_blank {text : String} (h : ∀ c ∈ text.toList, isBlank c = false) :
    OneLine text := by
  intro c hc
  rw [← Bool.not_eq_true]
  intro hend
  simpa [h c hc] using isBlank_of_isLineEnd hend

theorem oneLine_intercalate {between : String} (hbetween : OneLine between) {parts : List String}
    (hparts : ∀ part ∈ parts, OneLine part) : OneLine (between.intercalate parts) := by
  induction parts with
  | nil => nofun
  | cons part parts ih =>
    obtain ⟨hpart, hrest⟩ := List.forall_mem_cons.mp hparts
    cases parts with
    | nil => simpa using hpart
    | cons next parts =>
      rw [String.intercalate_cons_cons]
      simp [hbetween, hpart, ih hrest]

theorem head?_append {a b : String} {c : Char} (h : a.toList.head? = some c) :
    (a ++ b).toList.head? = some c := by
  rw [String.toList_append, List.head?_append, h]
  rfl

theorem oneLine_nat (n : Nat) : OneLine (toString n) := by
  apply oneLine_of_not_blank
  intro c hc
  rw [Nat.toString_eq_ofList_toDigits, String.toList_ofList] at hc
  exact Lexeme.isBlank_eq_false_of_isDigit (Nat.isDigit_of_mem_toDigits (by decide) (by decide) hc)

theorem oneLine_int (n : Int) : OneLine (toString n) := by
  cases n with
  | ofNat n => exact oneLine_nat n
  | negSucc n => exact oneLine_append.mpr ⟨by decide, oneLine_nat (n + 1)⟩

end Text

/-! ## Plain labels -/

/-- The label stays on its line, and starts neither with a space nor with the mark of an error. -/
structure Outline.Plain (label : String) : Prop where
  oneLine : OneLine label
  unindented : label.toList.head? ≠ some ' '
  unmarked : ¬ Outline.errorMark.toList <+: label.toList

namespace Outline

theorem plain_of_not_blank {label : String} (h : ∀ c ∈ label.toList, isBlank c = false) :
    Plain label where
  oneLine := oneLine_of_not_blank h
  unindented := fun hhead => absurd (h ' ' (List.mem_of_head? hhead)) (by decide)
  unmarked := fun hmark => absurd (h ' ' (hmark.subset (by decide))) (by decide)

theorem plain_of_head {label : String} {c : Char} (hhead : label.toList.head? = some c)
    (hc : c.isAlpha = true) (hline : OneLine label) : Plain label where
  oneLine := hline
  unindented := by
    rw [hhead, ne_eq, Option.some_inj]
    rintro rfl
    exact absurd hc (by decide)
  unmarked := by
    rintro ⟨rest, hrest⟩
    obtain rfl : c = '!' := by
      rw [← hrest] at hhead
      exact (Option.some.inj hhead).symm
    exact absurd hc (by decide)

theorem plain_of_all {label : String} (h : label.toList.all (!isBlank ·) = true) : Plain label :=
  plain_of_not_blank (by simpa using h)

theorem plain_nonterminal (n : Nonterminal) : Plain (Node.nonterminal n.name).label := by
  apply plain_of_all
  cases n <;> decide

theorem plain_wrapper (kind : Kind) : Plain (Node.wrapper kind).label := by
  apply plain_of_all
  cases kind <;> decide

end Outline

/-! ## Messages -/

theorem Kind.oneLine_name (kind : Kind) : OneLine kind.name := by
  cases kind <;> decide

namespace Fault

theorem oneLine_describeFound {found : Option Token} (h : ∀ t ∈ found, OneLine t.lexeme) :
    OneLine (describeFound found) := by
  cases found with
  | none => decide
  | some t =>
    show OneLine (t.lexeme ++ " (" ++ t.kind.name ++ ")")
    have ht := h t rfl
    have hkind := t.kind.oneLine_name
    simp only [oneLine_append, ht, hkind, true_and, and_true]
    decide

/-- A message is on one line if the lexeme that it names is. -/
theorem oneLine_message {f : Fault} (h : ∀ t ∈ f.token, OneLine t.lexeme) : OneLine f.message := by
  cases f with
  | unexpected expected found =>
    show OneLine ("expected " ++ expected.name ++ " but found " ++ describeFound found)
    have hfound : OneLine (describeFound found) := oneLine_describeFound h
    simp only [oneLine_append, expected.oneLine_name, hfound, and_true]
    decide
  | noAlternative expected found =>
    show OneLine ("expected one of " ++ ", ".intercalate (expected.map Kind.name) ++
      " but found " ++ describeFound found)
    have hfound : OneLine (describeFound found) := oneLine_describeFound h
    have hnames : OneLine (", ".intercalate (expected.map Kind.name)) := by
      apply oneLine_intercalate (by decide)
      simp [Kind.oneLine_name]
    simp only [oneLine_append, hnames, hfound, and_true]
    decide
  | redeclared r =>
    show OneLine ("semantic error: " ++ ("'" ++ r.again.lexeme ++ "' is already declared (" ++
      ("line " ++ toString r.first.line ++ ", col " ++ toString r.first.column) ++ ")"))
    have hname : OneLine r.again.lexeme := h _ rfl
    simp only [oneLine_append, hname, oneLine_int, and_true]
    decide

/-- A message starts with a letter. -/
theorem head?_message (f : Fault) : ∃ c, f.message.toList.head? = some c ∧ c.isAlpha = true := by
  cases f with
  | unexpected => exact ⟨'e', head?_append (head?_append (head?_append (by decide))), by decide⟩
  | noAlternative => exact ⟨'e', head?_append (head?_append (head?_append (by decide))), by decide⟩
  | redeclared => exact ⟨'s', head?_append (by decide), by decide⟩

theorem plain_message {f : Fault} (h : ∀ t ∈ f.token, OneLine t.lexeme) :
    Outline.Plain f.message := by
  obtain ⟨c, hhead, hletter⟩ := f.head?_message
  exact Outline.plain_of_head hhead hletter (oneLine_message h)

end Fault

/-! ## Labels of runs -/

/-- Every label that the derivations show has the property. -/
def AllLabels (P : String → Prop) (ds : List (Derivation Nonterminal)) : Prop :=
  ∀ node ∈ Rose.forestOnto [] (shown ds), P node.label

section AllLabels

variable {P : String → Prop} {ds : List (Derivation Nonterminal)}

theorem allLabels_nil : AllLabels P [] :=
  nofun

theorem allLabels_production {n : Nonterminal} {children : List (Derivation Nonterminal)} :
    AllLabels P (.production n children :: ds) ↔
      P (Node.nonterminal n.name).label ∧ AllLabels P children ∧ AllLabels P ds := by
  rw [AllLabels, shown, Derivation.forest, Rose.forestOnto_cons, List.forall_mem_append,
    Derivation.toRose, Rose.preorder_node, List.forall_mem_cons, and_assoc]
  rfl

theorem allLabels_terminal {kind : Kind} {lexeme : String} :
    AllLabels P (.terminal kind lexeme :: ds) ↔
      P (Node.wrapper kind).label ∧ P lexeme ∧ AllLabels P ds := by
  rw [AllLabels, shown, Derivation.forest, Rose.forestOnto_cons, List.forall_mem_append,
    Derivation.toRose, Rose.preorder_node, List.forall_mem_cons, and_assoc]
  have hleaf : (∀ node ∈ Rose.forestOnto [] [.node (Node.terminal lexeme) []], P node.label) ↔
      P lexeme := by
    simp [Rose.forestOnto, Rose.preorderOnto, Node.terminal]
  exact and_congr_right' (and_congr_left' hleaf)

theorem allLabels_empty : AllLabels P (.empty :: ds) ↔ P Node.empty.label ∧ AllLabels P ds :=
  List.forall_mem_cons

theorem allLabels_error {f : Fault} : AllLabels P (.error f :: ds) ↔ P f.message ∧ AllLabels P ds :=
  List.forall_mem_cons

end AllLabels

namespace Language

variable {host : Nonterminal} {symbols : List (Symbol Nonterminal)} {s s' : State}
  {ds : List (Derivation Nonterminal)} {ts : List Token} {fault : Option Fault}

/-- The labels of a run are fixed names, the lexemes that it consumes and the message of its
fault. -/
theorem Runs.allLabels {P : String → Prop}
    (h : programLanguage.Runs host symbols s ds ts s' fault)
    (hname : ∀ n : Nonterminal, P (Node.nonterminal n.name).label)
    (hwrapper : ∀ kind, P (Node.wrapper kind).label) (hempty : P Node.empty.label)
    (hend : P Kind.endOfInput.name) (hleaf : ∀ t ∈ ts, P t.lexeme)
    (hfault : ∀ f ∈ fault, P f.message) : AllLabels P ds := by
  induction h with
  | nil => exact allLabels_nil
  | ended _ _ ih => exact allLabels_terminal.mpr ⟨hwrapper _, hend, ih hleaf hfault⟩
  | matched _ _ _ _ ih =>
    obtain ⟨hlexeme, hrest⟩ := List.forall_mem_cons.mp hleaf
    exact allLabels_terminal.mpr ⟨hwrapper _, hlexeme, ih hrest hfault⟩
  | redeclared =>
    have herror := allLabels_error.mpr ⟨hfault _ rfl, allLabels_nil⟩
    exact allLabels_terminal.mpr ⟨hwrapper _, hleaf _ (List.mem_singleton_self _), herror⟩
  | mismatched => exact allLabels_error.mpr ⟨hfault _ rfl, allLabels_nil⟩
  | refused =>
    have herror := allLabels_error.mpr ⟨hfault _ rfl, allLabels_nil⟩
    exact allLabels_production.mpr ⟨hname _, herror, allLabels_nil⟩
  | vanished _ _ ih =>
    have hleft := allLabels_empty.mpr ⟨hempty, allLabels_nil⟩
    exact allLabels_production.mpr ⟨hname _, hleft, ih hleaf hfault⟩
  | called _ _ _ _ ihc ihr =>
    obtain ⟨hcalled, hrest⟩ := List.forall_mem_append.mp hleaf
    exact allLabels_production.mpr ⟨hname _, ihc hcalled (by simp), ihr hrest hfault⟩
  | broken _ _ _ ih => exact allLabels_production.mpr ⟨hname _, ih hleaf hfault, allLabels_nil⟩

/-- The token of a fault is one of the tokens of the program. -/
theorem Runs.mem_of_token {tokens : List Token} {f : Fault}
    (h : programLanguage.Runs .program programSymbols (State.start tokens) ds ts s' (some f))
    {t : Token} (ht : t ∈ f.token) : t ∈ tokens := by
  have hplace : f.token = tokens[(f.toFailure 0).place ts.length]? := h.token_at_place 0
  exact List.mem_of_getElem? (hplace.symm.trans ht)

end Language

/-- Every label in the tree of a program text is plain. -/
theorem plain_of_parse_scan {text : String} {depth : Nat} {session : Session}
    {failure : Option Failure} (h : parse (Token.scan text) depth = some (session, failure)) :
    ∀ node ∈ session.tree.nodes, Outline.Plain node.label := by
  obtain ⟨ds, ts, fault, hrun, ⟨htokens, _⟩, htree, _⟩ := parse_eq_some h
  have hblank : ∀ t ∈ Token.scan text, ∀ c ∈ t.lexeme.toList, isBlank c = false :=
    fun t ht => (Token.found_of_mem_scan ht).2.1
  have hleaf : ∀ t ∈ ts, Outline.Plain t.lexeme := by
    intro t ht
    exact Outline.plain_of_not_blank (hblank t (htokens ▸ List.mem_append_left _ ht))
  have hfault : ∀ f ∈ fault, Outline.Plain f.message := by
    rintro f rfl
    exact Fault.plain_message fun t ht => oneLine_of_not_blank (hblank t (hrun.mem_of_token ht))
  have hempty : Outline.Plain Node.empty.label := Outline.plain_of_all (by decide)
  have hend : Outline.Plain Kind.endOfInput.name := Outline.plain_of_all (by decide)
  have hbelow : AllLabels Outline.Plain ds :=
    hrun.allLabels Outline.plain_nonterminal Outline.plain_wrapper hempty hend hleaf hfault
  have hroot : Outline.Plain Node.root.label :=
    Outline.plain_of_head (c := 'P') (by decide) (by decide) (by decide)
  rw [Tree.nodes_of_program htree, List.forall_mem_cons, List.forall_mem_cons]
  exact ⟨hroot, Outline.plain_nonterminal .program, hbelow⟩

end TopDown
