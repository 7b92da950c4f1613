import Mathlib.Data.List.Basic
import TopDown.Lexicon.Scan
import TopDown.Proofs.Lexicon.Lexeme

/-!
# Words

The words of a text are its runs of characters between blanks. Line ends are blanks, so that the
words of a text are those of its lines. Where each word is one lexeme and none opens a comment, the
tokens of a text are its words.
-/

namespace TopDown

namespace Text

def words (text : List Char) : List (List Char) :=
  (text.splitOnP isBlank).filter (· ≠ [])

/-- The words in order, with blanks between them and perhaps before and after. -/
inductive Spaced : List (List Char) → List Char → Prop
  | nil : Spaced [] []
  | blank {c : Char} {words : List (List Char)} {text : List Char} (hc : isBlank c = true)
      (htext : Spaced words text) : Spaced words (c :: text)
  | word {word : List Char} {c : Char} {words : List (List Char)} {text : List Char}
      (hc : isBlank c = true) (htext : Spaced words text) :
      Spaced (word :: words) (word ++ c :: text)
  | last (word : List Char) : Spaced [word] word

@[simp] theorem words_nil : words [] = [] := by
  simp [words]

theorem words_append_cons {c : Char} (hc : isBlank c = true) (front rest : List Char) :
    words (front ++ c :: rest) = words front ++ words rest := by
  rw [words, List.splitOnP_append_cons _ _ hc, List.filter_append]
  rfl

theorem words_cons {c : Char} (hc : isBlank c = true) (rest : List Char) :
    words (c :: rest) = words rest := by
  simpa using words_append_cons hc [] rest

theorem words_eq_singleton {word : List Char} (hne : word ≠ [])
    (hword : ∀ c ∈ word, isBlank c = false) : words word = [word] := by
  rw [words, List.splitOnP_eq_singleton hword]
  simp [hne]

theorem Spaced.words_eq {ws : List (List Char)} {text : List Char} (h : Spaced ws text)
    (hws : ∀ word ∈ ws, word ≠ [] ∧ ∀ c ∈ word, isBlank c = false) : words text = ws := by
  induction h with
  | nil => exact words_nil
  | blank hc _ ih => rw [words_cons hc, ih hws]
  | word hc _ ih =>
    obtain ⟨hword, hrest⟩ := List.forall_mem_cons.mp hws
    rw [words_append_cons hc, words_eq_singleton hword.1 hword.2, ih hrest, List.singleton_append]
  | last word =>
    obtain ⟨hne, hword⟩ := hws word (by simp)
    exact words_eq_singleton hne hword

/-- A text that starts with no blank starts with a word, and goes on with a blank or not at all. -/
theorem words_of_not_blank {c : Char} (hc : isBlank c = false) (rest : List Char) :
    ∃ word tail, rest = word ++ tail ∧ (∀ d ∈ tail.head?, isBlank d = true) ∧
      words (c :: rest) = (c :: word) :: words tail := by
  have hrest : rest = rest.takeWhile (!isBlank ·) ++ rest.dropWhile (!isBlank ·) :=
    List.takeWhile_append_dropWhile.symm
  have hword : words (c :: rest.takeWhile (!isBlank ·)) = [c :: rest.takeWhile (!isBlank ·)] := by
    apply words_eq_singleton (List.cons_ne_nil _ _)
    exact List.forall_mem_cons.mpr ⟨hc, fun d hd => by simpa using List.mem_takeWhile_imp hd⟩
  have hstop : ∀ d ∈ (rest.dropWhile (!isBlank ·)).head?, isBlank d = true := by
    intro d hd
    have hnot := List.head?_dropWhile_not (!isBlank ·) rest
    rw [hd] at hnot
    simpa using hnot
  refine ⟨_, _, hrest, hstop, ?_⟩
  cases htail : rest.dropWhile (!isBlank ·) with
  | nil =>
    rw [htail, List.append_nil] at hrest
    rw [words_nil, ← hword, ← hrest]
  | cons d tail =>
    have hd : isBlank d = true := hstop d (by rw [htail]; rfl)
    rw [htail] at hrest
    calc words (c :: rest)
        = words ((c :: rest.takeWhile (!isBlank ·)) ++ d :: tail) := by
          rw [List.cons_append, ← hrest]
      _ = (c :: rest.takeWhile (!isBlank ·)) :: words (d :: tail) := by
          rw [words_append_cons hd, hword, words_cons hd, List.singleton_append]

/-! ## Lines -/

theorem isBlank_of_isLineEnd {c : Char} (h : isLineEnd c = true) : isBlank c = true := by
  simp only [isLineEnd, isBlank, within, lineEndRanges, blankRanges, List.any_cons, List.any_nil,
    Bool.or_eq_true, Bool.and_eq_true, decide_eq_true_eq, Bool.false_eq_true, or_false] at h ⊢
  omega

theorem flatMap_words_linesFrom (line text : List Char) :
    (linesFrom line text).flatMap words = words (line.reverse ++ text) := by
  fun_induction linesFrom line text with
  | case1 line hline => simp [List.isEmpty_iff.mp hline]
  | case2 line => simp
  | case3 line rest ih =>
    rw [List.flatMap_cons, ih, words_append_cons (by decide), words_cons (by decide)]
    rfl
  | case4 line c rest _ hend ih =>
    rw [List.flatMap_cons, ih, words_append_cons (isBlank_of_isLineEnd hend)]
    rfl
  | case5 line c rest _ _ ih => simpa using ih

/-- The words of a text are those of its lines. -/
theorem flatMap_words_lines (text : List Char) : (lines text).flatMap words = words text :=
  flatMap_words_linesFrom [] text

end Text

open TopDown.Text

/-! ## Tokens -/

theorem lexemes_skip (column skip : Nat) (text : List Char) :
    lexemes column skip text = lexemes (column + skip) 0 (text.drop skip) := by
  induction skip generalizing column text with
  | zero => simp
  | succ skip ih =>
    cases text with
    | nil => simp [lexemes]
    | cons c rest => rw [lexemes, ih, List.drop_succ_cons, Nat.add_assoc, Nat.add_comm 1]

/-- A line whose words are one lexeme each has its words for lexemes. -/
theorem map_snd_lexemes (column : Nat) {line : List Char}
    (h : ∀ word ∈ words line, Lexeme.length word = word.length) :
    (lexemes column 0 line).map Prod.snd = words line := by
  induction hn : line.length using Nat.strong_induction_on generalizing line column with
  | h n ih =>
    cases line with
    | nil => simp [lexemes]
    | cons c rest =>
      by_cases hc : isBlank c = true
      · rw [words_cons hc] at h ⊢
        rw [lexemes, if_pos hc]
        exact ih rest.length (by simp [← hn]) _ h rfl
      · rw [Bool.not_eq_true] at hc
        obtain ⟨word, tail, rfl, htail, hwords⟩ := words_of_not_blank hc rest
        rw [hwords, List.forall_mem_cons] at h
        have hlength : Lexeme.length (c :: (word ++ tail)) = word.length + 1 := by
          rw [← List.cons_append, Lexeme.length_append htail, h.1, List.length_cons]
        have htake : (c :: (word ++ tail)).take (word.length + 1) = c :: word := by simp
        have hdrop : (word ++ tail).drop (word.length + 1 - 1) = tail := by simp
        have hshorter : tail.length < n := by
          rw [← hn, List.length_cons, List.length_append]
          omega
        rw [lexemes, if_neg (by simp [hc]), hwords]
        simp only [hlength, htake, List.map_cons]
        rw [lexemes_skip, hdrop, ih tail.length hshorter _ h.2 rfl]

/-- A line none of whose words opens a comment is no comment. -/
theorem isComment_eq_false {line : List Char}
    (h : ∀ word ∈ words line, word.head? ≠ some commentMark) : isComment line = false := by
  unfold isComment
  induction line with
  | nil => rfl
  | cons c rest ih =>
    by_cases hc : isBlank c = true
    · rw [words_cons hc] at h
      simpa [hc] using ih h
    · rw [Bool.not_eq_true] at hc
      obtain ⟨word, tail, _, _, hwords⟩ := words_of_not_blank hc rest
      have hfirst := h (c :: word) (by simp [hwords])
      simpa [hc] using hfirst

/-- Where no line is a comment the program lines are all lines. -/
theorem flatMap_programLines {α : Type} {text : String}
    (h : ∀ line ∈ lines text.toList, isComment line = false) (f : List Char → List α) :
    (programLines text).flatMap (fun p => f p.2) = (lines text.toList).flatMap f := by
  unfold programLines
  generalize lines text.toList = ls at h ⊢
  generalize 1 = number
  induction ls generalizing number with
  | nil => rfl
  | cons line rest ih =>
    obtain ⟨hline, hrest⟩ := List.forall_mem_cons.mp h
    simp [hline, ih hrest]

/-- The kind and the lexeme of a text. -/
def classified (text : List Char) : Kind × String :=
  (Kind.ofLexeme (String.ofList text), String.ofList text)

theorem map_scanLine (number : Nat) (line : List Char) :
    (Token.scanLine number line).map (fun t => (t.kind, t.lexeme)) =
      ((lexemes 1 0 line).map Prod.snd).map classified := by
  simp [Token.scanLine, classified, Function.comp_def]

/-- The text is a word that is one lexeme and opens no comment. -/
structure Whole (text : List Char) : Prop where
  ne_nil : text ≠ []
  no_blank : ∀ c ∈ text, isBlank c = false
  length_eq : Lexeme.length text = text.length
  no_comment : text.head? ≠ some commentMark

/-- The tokens of a text are its words, if these are whole. -/
theorem map_scan {text : String} (h : ∀ word ∈ words text.toList, Whole word) :
    (Token.scan text).map (fun t => (t.kind, t.lexeme)) =
      (words text.toList).map classified := by
  rw [← flatMap_words_lines] at h ⊢
  have hwords (line : List Char) (hline : line ∈ lines text.toList) (word : List Char)
      (hword : word ∈ words line) : Whole word :=
    h word (List.mem_flatMap.mpr ⟨line, hline, hword⟩)
  have hcomment (line : List Char) (hline : line ∈ lines text.toList) : isComment line = false :=
    isComment_eq_false fun word hword => (hwords line hline word hword).no_comment
  have htokens (line : List Char) (hline : line ∈ lines text.toList) :
      ((lexemes 1 0 line).map Prod.snd).map classified = (words line).map classified := by
    rw [map_snd_lexemes 1 fun word hword => (hwords line hline word hword).length_eq]
  simp only [Token.scan, List.map_flatMap, map_scanLine]
  rw [flatMap_programLines hcomment fun line => ((lexemes 1 0 line).map Prod.snd).map classified]
  exact List.flatMap_congr htokens

/-- The tokens of a text of whole words with blanks between them are these words. -/
theorem map_scan_of_spaced {ws : List (List Char)} {text : String} (hws : ∀ word ∈ ws, Whole word)
    (htext : Spaced ws text.toList) :
    (Token.scan text).map (fun t => (t.kind, t.lexeme)) = ws.map classified := by
  have hwords : words text.toList = ws :=
    htext.words_eq fun word hword => ⟨(hws word hword).ne_nil, (hws word hword).no_blank⟩
  rw [map_scan (hwords ▸ hws), hwords]

/-! ## Recognised texts -/

section Recognised

variable {text : List Char} (htrim : trim text = text)
  (hend : Kind.ofLexeme (String.ofList text) ≠ .endOfInput)
  (hknown : Kind.ofLexeme (String.ofList text) ≠ .unrecognized)
include htrim hend hknown

/-- A trimmed text of a known kind opens no comment. -/
theorem head?_ne_commentMark : text.head? ≠ some commentMark := by
  intro hmark
  obtain ⟨rest, rfl⟩ := List.head?_eq_some_iff.mp hmark
  obtain ⟨_, hnumber | ⟨kind, hreserved⟩ | hidentifier⟩ := Kind.shape_of_ofLexeme htrim hend hknown
  · simp [Lexeme.numberLength, commentMark] at hnumber
  · have hcheck : ∀ kind ∈ Kind.all, ∀ lexeme ∈ kind.spelling,
        lexeme.toList.head? ≠ some commentMark := by
      decide +kernel
    have hspelling := Kind.spelling_of_reserved? hreserved
    exact hcheck kind kind.mem_all _ hspelling (by rw [String.toList_ofList]; rfl)
  · simp [Lexeme.identifierLength, commentMark] at hidentifier

theorem whole_of_ofLexeme : Whole text where
  ne_nil := (Kind.shape_of_ofLexeme htrim hend hknown).1
  no_blank := Kind.isBlank_eq_false_of_ofLexeme htrim hend hknown
  length_eq := Kind.length_of_ofLexeme htrim hend hknown
  no_comment := head?_ne_commentMark htrim hend hknown

end Recognised

end TopDown
