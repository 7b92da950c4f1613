import Mathlib.Data.List.Infix
import TopDown.Derivation.Production
import TopDown.Proofs.Derivation.Forced
import TopDown.Proofs.Grammar.Sets

/-!
# Facts of the grammar of programs

The grammar has a prediction table, every non-terminal yields a word, and nothing below the start
symbol yields end-of-input. The name of a variable declaration is the only symbol that comes after
`var`, and no other alternative ends in such a name alone.
-/

namespace TopDown

/-! ## Ranks and closed sets of non-terminals -/

namespace Grammar

variable {N : Type} [DecidableEq N] {g : Grammar N}

/-- A rank that falls along some alternative of each non-terminal leads to a word. -/
theorem productive_of_rank (rank : N → Nat)
    (h : ∀ n, ∃ alt ∈ g.alternatives n, ∀ m, .nonterminal m ∈ alt → rank m < rank n) :
    g.Productive := by
  intro n
  induction hrank : rank n using Nat.strong_induction_on generalizing n with
  | h r ih =>
    obtain ⟨alt, halt, hfall⟩ := h n
    have hword : ∀ symbols : List (Symbol N), symbols ⊆ alt → ∃ word, g.Yields symbols word := by
      intro symbols hsub
      induction symbols with
      | nil => exact ⟨[], .nil⟩
      | cons symbol rest ihs =>
        obtain ⟨hsymbol, hrest⟩ := List.cons_subset.mp hsub
        obtain ⟨back, hback⟩ := ihs hrest
        cases symbol with
        | terminal kind => exact ⟨kind :: back, .terminal hback⟩
        | nonterminal m =>
          obtain ⟨front, hfront⟩ := ih (rank m) (hrank ▸ hfall m hsymbol) m rfl
          exact ⟨front ++ back, yields_append_iff.mpr ⟨front, back, rfl, hfront, hback⟩⟩
    obtain ⟨word, hyields⟩ := hword alt (List.Subset.refl alt)
    exact ⟨word, yields_singleton_iff.mpr ⟨alt, halt, hyields⟩⟩

/-- Whether a symbol is another terminal than `kind` or a non-terminal of the set. -/
def lacks (set : N → Prop) (kind : Kind) : Symbol N → Prop
  | .terminal k => k ≠ kind
  | .nonterminal n => set n

/-- A kind that no alternative of a closed set of non-terminals holds is in no word of them. -/
theorem not_mem_of_yields (set : N → Prop) {kind : Kind}
    (hclosed : ∀ n, set n → ∀ alt ∈ g.alternatives n, ∀ symbol ∈ alt, lacks set kind symbol)
    {symbols : List (Symbol N)} {word : List Kind} (h : g.Yields symbols word)
    (hsymbols : ∀ symbol ∈ symbols, lacks set kind symbol) : kind ∉ word := by
  induction h with
  | nil => simp
  | terminal _ ih =>
    obtain ⟨hfirst, hrest⟩ := List.forall_mem_cons.mp hsymbols
    simpa [lacks, eq_comm] using And.intro hfirst (ih hrest)
  | nonterminal halt _ _ ihf ihb =>
    obtain ⟨hfirst, hrest⟩ := List.forall_mem_cons.mp hsymbols
    rw [List.mem_append, not_or]
    exact ⟨ihf (hclosed _ hfirst _ halt), ihb hrest⟩

end Grammar

/-! ## Programs -/

theorem alternatives_programGrammar (n : Nonterminal) :
    programGrammar.alternatives n = programAlternatives n := by
  cases n <;> rfl

/-- The language of programs with its sets written out, as what is evaluated should have it. -/
theorem programLanguage_eq_sets :
    programLanguage = { programLanguage with lookahead := programSets } := by
  rw [← lookahead_programGrammar]
  rfl

theorem isOk_prediction : programGrammar.prediction.isOk = true := by
  unfold Grammar.prediction
  rw [lookahead_programGrammar]
  decide +kernel

theorem exists_prediction : ∃ table, programGrammar.prediction = .ok table := by
  have hok := isOk_prediction
  generalize programGrammar.prediction = prediction at hok ⊢
  cases prediction with
  | error defect => cases hok
  | ok table => exact ⟨table, rfl⟩

theorem programLanguage_predictive : programLanguage.Predictive where
  lookahead_eq := rfl
  table := exists_prediction

/-- How far a non-terminal is from a word. -/
def Nonterminal.rank : Nonterminal → Nat
  | program => 8
  | subrCall | condition => 5
  | writeStmt | argList => 4
  | expr => 3
  | term => 2
  | stmt | asgnStmt | ifStmt | untilStmt => 6
  | _ => 1

theorem programGrammar_productive : programGrammar.Productive := by
  apply Grammar.productive_of_rank Nonterminal.rank
  intro n
  have hcheck : ∀ n ∈ Nonterminal.all, ∃ alt ∈ programGrammar.alternatives n,
      ∀ symbol ∈ alt, ∀ m ∈ Nonterminal.all, symbol = .nonterminal m → m.rank < n.rank := by
    decide +kernel
  obtain ⟨alt, halt, hfall⟩ := hcheck n n.mem_all
  exact ⟨alt, halt, fun m hm => hfall _ hm m m.mem_all rfl⟩

theorem lacks_endOfInput {n : Nonterminal} (hn : n ≠ .program) {alt : Alternative Nonterminal}
    (halt : alt ∈ programGrammar.alternatives n) :
    ∀ symbol ∈ alt, Grammar.lacks (· ≠ .program) .endOfInput symbol := by
  have hcheck : ∀ n ∈ Nonterminal.all, n ≠ .program → ∀ alt ∈ programGrammar.alternatives n,
      ∀ symbol ∈ alt, symbol ≠ .terminal .endOfInput ∧ symbol ≠ .nonterminal .program := by
    decide +kernel
  intro symbol hsymbol
  obtain ⟨hkind, hname⟩ := hcheck n n.mem_all hn alt halt symbol hsymbol
  cases symbol with
  | terminal kind => simpa [Grammar.lacks] using hkind
  | nonterminal m => simpa [Grammar.lacks] using hname

theorem lacks_of_ends {host : Nonterminal} {symbols : List (Symbol Nonterminal)}
    (hn : host ≠ .program) (hhost : programGrammar.Ends host symbols) :
    ∀ symbol ∈ symbols, Grammar.lacks (· ≠ .program) .endOfInput symbol := by
  obtain ⟨alt, halt, hsuffix⟩ := hhost
  exact fun symbol hsymbol => lacks_endOfInput hn halt symbol (hsuffix.subset hsymbol)

/-- Only a program itself holds an end of input. -/
theorem endOfInput_not_mem_of_lacks {symbols : List (Symbol Nonterminal)} {word : List Kind}
    (h : programGrammar.Yields symbols word)
    (hsymbols : ∀ symbol ∈ symbols, Grammar.lacks (· ≠ .program) .endOfInput symbol) :
    .endOfInput ∉ word :=
  Grammar.not_mem_of_yields (· ≠ .program) (fun _ hn _ halt => lacks_endOfInput hn halt) h hsymbols

theorem endOfInput_not_mem_of_yields {word : List Kind}
    (h : programGrammar.Yields [.nonterminal .stmtList] word) : .endOfInput ∉ word :=
  endOfInput_not_mem_of_lacks h (by simp [Grammar.lacks])

/-! ## Variable declarations -/

/-- The name of a variable declaration is due. -/
def NameDue (host : Nonterminal) (symbols : List (Symbol Nonterminal)) : Prop :=
  host = .varDecl ∧ symbols = [.terminal .identifier]

instance (host : Nonterminal) (symbols : List (Symbol Nonterminal)) :
    Decidable (NameDue host symbols) :=
  inferInstanceAs (Decidable (_ ∧ _))

/-- The name is due after `var` and nowhere else. -/
theorem nameDue_iff {host : Nonterminal} {symbol : Symbol Nonterminal}
    {rest : List (Symbol Nonterminal)} (h : programGrammar.Ends host (symbol :: rest)) :
    NameDue host rest ↔ symbol = .terminal .kwVar := by
  have hcheck : ∀ n ∈ Nonterminal.all, ∀ alt ∈ programGrammar.alternatives n, ∀ tail ∈ alt.tails,
      ∀ symbol ∈ tail.head?, (NameDue n tail.tail ↔ symbol = .terminal .kwVar) := by
    decide +kernel
  obtain ⟨alt, halt, hsuffix⟩ := h
  exact hcheck host host.mem_all alt halt _ ((List.mem_tails _ _).mpr hsuffix) symbol rfl

theorem not_nameDue_of_mem {n : Nonterminal} {alt : Alternative Nonterminal}
    (h : alt ∈ programGrammar.alternatives n) : ¬ NameDue n alt := by
  have hcheck : ∀ n ∈ Nonterminal.all, ∀ alt ∈ programGrammar.alternatives n,
      ¬ NameDue n alt := by
    decide +kernel
  exact hcheck n n.mem_all alt h

theorem nameDue_of_declares {host : Nonterminal} {kind : Kind} {rest : List (Symbol Nonterminal)}
    (h : programGrammar.Ends host (.terminal kind :: rest))
    (hdeclares : programLanguage.declares host kind = true) :
    NameDue host (.terminal kind :: rest) ∧ kind = .identifier := by
  have hcheck : ∀ alt ∈ programGrammar.alternatives .varDecl, ∀ tail ∈ alt.tails,
      tail.head? = some (.terminal .identifier) → tail = [.terminal .identifier] := by
    decide +kernel
  obtain ⟨alt, halt, hsuffix⟩ := h
  obtain ⟨rfl, rfl⟩ : host = .varDecl ∧ kind = .identifier := by
    simpa [programLanguage] using hdeclares
  exact ⟨⟨rfl, hcheck alt halt _ ((List.mem_tails _ _).mpr hsuffix) rfl⟩, rfl⟩

end TopDown
