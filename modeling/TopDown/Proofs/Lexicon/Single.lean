import Mathlib.Data.List.DropRight
import TopDown.Proofs.Lexicon.Joined
import TopDown.Proofs.Lexicon.Munch

/-!
# Texts of one token

A text is classified by what is left of it when it is trimmed, whatever the blanks around it are
and on whichever of its lines it stands. If it is of a known kind, then it is one token and of this
kind. A line that is one token is this token with blanks around it, and so it is of the same kind.
-/

namespace TopDown

open TopDown.Text

namespace Text

/-! ## Words with blanks around them -/

/-- The text is the word with blanks before and after it. -/
inductive Padded (word : List Char) : List Char → Prop
  | intro {front back : List Char} (hfront : ∀ c ∈ front, isBlank c = true)
      (hback : ∀ c ∈ back, isBlank c = true) : Padded word (front ++ (word ++ back))

/-- No blank is at either end of the word. -/
structure Trimmed (word : List Char) : Prop where
  head : ∀ c ∈ word.head?, isBlank c = false
  last : ∀ c ∈ word.getLast?, isBlank c = false

variable {word text : List Char}

theorem trimmed_of_not_blank (h : ∀ c ∈ word, isBlank c = false) : Trimmed word where
  head c hc := h c (List.mem_of_mem_head? hc)
  last c hc := h c (List.mem_of_getLast? hc)

theorem Padded.refl (word : List Char) : Padded word word := by
  have hpadded : Padded word ([] ++ (word ++ [])) := .intro nofun nofun
  simpa using hpadded

/-- What is trimmed off a text is blank. -/
theorem padded_trim (text : List Char) : Padded (trim text) text := by
  have hback : text.dropWhile isBlank = trim text ++ (text.dropWhile isBlank).rtakeWhile isBlank :=
    List.rdropWhile_append_rtakeWhile.symm
  have htext : text = text.takeWhile isBlank ++
      (trim text ++ (text.dropWhile isBlank).rtakeWhile isBlank) := by
    rw [← hback, List.takeWhile_append_dropWhile]
  have hpadded : Padded (trim text) (text.takeWhile isBlank ++
      (trim text ++ (text.dropWhile isBlank).rtakeWhile isBlank)) :=
    .intro (fun _ => List.mem_takeWhile_imp) (fun _ => List.mem_rtakeWhile_imp)
  rwa [← htext] at hpadded

theorem trimmed_trim (text : List Char) : Trimmed (trim text) where
  head := by
    intro c hc
    obtain ⟨rest, hrest⟩ := List.head?_eq_some_iff.mp hc
    have hprefix : trim text <+: text.dropWhile isBlank := List.rdropWhile_prefix isBlank _
    obtain ⟨back, hback⟩ := hprefix
    have hnot := List.head?_dropWhile_not isBlank text
    rw [← hback, hrest] at hnot
    simpa using hnot
  last := by
    intro c hc
    have hnot := List.head?_dropWhile_not isBlank (text.dropWhile isBlank).reverse
    rw [trim, List.getLast?_reverse] at hc
    rw [hc] at hnot
    simpa using hnot

theorem Padded.trim_eq (h : Padded word text) (hword : Trimmed word) : trim text = word := by
  obtain @⟨front, back, hfront, hback⟩ := h
  rw [trim, List.dropWhile_append_of_pos hfront]
  cases word with
  | nil => simp [List.dropWhile_eq_nil_iff.mpr hback]
  | cons c rest =>
    have hc : isBlank c = false := hword.head c rfl
    have hblank : ∀ d ∈ back.reverse, isBlank d = true := by simpa using hback
    rw [List.cons_append, List.dropWhile_cons_of_neg (by simp [hc]), ← List.cons_append,
      List.reverse_append, List.dropWhile_append_of_pos hblank]
    cases hlast : (c :: rest).reverse with
    | nil => simp at hlast
    | cons d front =>
      have hd : isBlank d = false := hword.last d (by
        rw [← List.head?_reverse, hlast]
        rfl)
      rw [List.dropWhile_cons_of_neg (by simp [hd]), ← hlast, List.reverse_reverse]

theorem trim_trim (text : List Char) : trim (trim text) = trim text :=
  (Padded.refl _).trim_eq (trimmed_trim text)

/-- A word with blanks around it is the one word of the text. -/
theorem Padded.spaced (h : Padded word text) : Spaced [word] text := by
  have hblanks {blanks : List Char} (h : ∀ c ∈ blanks, isBlank c = true) : Spaced [] blanks := by
    induction blanks with
    | nil => exact .nil
    | cons c blanks ih =>
      obtain ⟨hc, hrest⟩ := List.forall_mem_cons.mp h
      exact .blank hc (ih hrest)
  obtain @⟨front, back, hfront, hback⟩ := h
  induction front with
  | nil =>
    cases back with
    | nil =>
      rw [List.append_nil]
      exact .last word
    | cons c back =>
      obtain ⟨hc, hrest⟩ := List.forall_mem_cons.mp hback
      exact .word hc (hblanks hrest)
  | cons c front ih =>
    obtain ⟨hc, hrest⟩ := List.forall_mem_cons.mp hfront
    exact .blank hc (ih hrest)

/-- A text that holds no line end is one line, if it holds anything. -/
theorem lines_of_no_end (hne : text ≠ []) (h : ∀ c ∈ text, isLineEnd c = false) :
    lines text = [text] := by
  have hline := linesFrom_append_of_no_end h [] []
  rw [List.append_nil, List.append_nil] at hline
  rw [lines, hline, linesFrom, if_neg (by simpa using hne), List.reverse_reverse]

end Text

/-! ## Lines with one lexeme -/

namespace Laid

variable {column place : Nat} {lexeme text : List Char}

theorem blank_of_nil (h : Laid column text []) : ∀ c ∈ text, isBlank c = true := by
  generalize hspans : ([] : List (Nat × List Char)) = spans at h
  induction h with
  | nil => nofun
  | blank hc _ ih => exact List.forall_mem_cons.mpr ⟨hc, ih hspans⟩
  | lexeme => cases hspans

/-- A line with one lexeme is this lexeme with blanks around it. -/
theorem padded (h : Laid column text [(place, lexeme)]) : Padded lexeme text := by
  generalize hspans : [(place, lexeme)] = spans at h
  induction h with
  | nil => cases hspans
  | @blank column c text spans hc _ ih =>
    obtain ⟨hfront, hback⟩ := ih hspans
    exact Padded.intro (List.forall_mem_cons.mpr ⟨hc, hfront⟩) hback
  | lexeme hne hblank hrest _ =>
    obtain ⟨hspan, rfl⟩ := List.cons.inj hspans
    obtain ⟨rfl, rfl⟩ := Prod.mk.inj hspan
    have hpadded : Padded lexeme ([] ++ (lexeme ++ _)) := .intro nofun hrest.blank_of_nil
    exact hpadded

end Laid

/-! ## One token -/

/-- Blanks around a text do not change its kind. -/
theorem Kind.ofLexeme_trim (text : String) :
    ofLexeme (String.ofList (trim text.toList)) = ofLexeme text := by
  simp only [ofLexeme, String.toList_ofList, trim_trim]

namespace Token

/-- The tokens of a line, if it is no comment. -/
theorem scan_of_no_end {text : String} (hne : text.toList ≠ [])
    (h : ∀ c ∈ text.toList, isLineEnd c = false) :
    scan text = if isComment text.toList then [] else scanLine 1 text.toList := by
  rw [scan_eq_scanLines, lines_of_no_end hne h, scanLines]
  simp

/-- To scan and to classify a text agree: a text of a known kind is one token, which is the text
without the blanks around it and is of this kind, and where a line is one token, this token is the
line without the blanks around it and of the kind of the line. -/
theorem scan_classifies (text : String) :
    (Kind.ofLexeme text ≠ .endOfInput → Kind.ofLexeme text ≠ .unrecognized →
      ∃ t, scan text = [t] ∧ t.lexeme = String.ofList (trim text.toList) ∧
        t.kind = Kind.ofLexeme text) ∧
    ((∀ c ∈ text.toList, isLineEnd c = false) → ∀ t, scan text = [t] →
      t.kind = Kind.ofLexeme text ∧ t.lexeme = String.ofList (trim text.toList)) := by
  constructor
  · intro hend hknown
    have hword : Whole (trim text.toList) := by
      rw [← Kind.ofLexeme_trim] at hend hknown
      exact whole_of_ofLexeme (trim_trim _) hend hknown
    have htokens := map_scan_of_spaced (by simpa using hword) (padded_trim text.toList).spaced
    obtain ⟨t, hscan, ht⟩ := List.map_eq_singleton_iff.mp htokens
    obtain ⟨hkind, hlexeme⟩ := Prod.mk.inj ht
    exact ⟨t, hscan, hlexeme, hkind.trans (Kind.ofLexeme_trim text)⟩
  · intro hplain t hscan
    have hne : text.toList ≠ [] := by
      intro hnil
      rw [scan_eq_scanLines, hnil] at hscan
      cases hscan
    rw [scan_of_no_end hne hplain] at hscan
    split at hscan
    · cases hscan
    · obtain ⟨⟨column, lexeme⟩, hspans, rfl⟩ := List.map_eq_singleton_iff.mp hscan
      have hlaid := laid_lexemes 1 text.toList
      rw [hspans] at hlaid
      obtain ⟨_, hblank, _⟩ := hlaid.slice (List.mem_singleton_self _)
      have htrim : trim text.toList = lexeme := hlaid.padded.trim_eq (trimmed_of_not_blank hblank)
      refine ⟨?_, by rw [htrim]⟩
      rw [← Kind.ofLexeme_trim, htrim]

/-- A number between blanks of several lines is one token, and so is an operator that no statement
has, but the kind of this one is not known. -/
theorem scan_classifies_padded :
    (∃ t, scan "\r\n\x1f 12.5\t\u2028\n" = [t] ∧ t.lexeme = "12.5" ∧ t.kind = .number) ∧
      ∃ t, scan "\u3000&& " = [t] ∧ t.kind = .unrecognized ∧
        t.kind = Kind.ofLexeme "\u3000&& " ∧ t.lexeme = "&&" := by
  obtain ⟨t, hscan, hlexeme, hkind⟩ :=
    (scan_classifies "\r\n\x1f 12.5\t\u2028\n").1 (by decide) (by decide)
  have hsingle : scan "\u3000&& " = [⟨.unrecognized, "&&", 1, 2⟩] := by decide
  have hplain : "\u3000&& ".toList.all (!isLineEnd ·) = true := by decide
  obtain ⟨hsame, htrimmed⟩ :=
    (scan_classifies "\u3000&& ").2 (fun c hc => by simpa using List.all_eq_true.mp hplain c hc) _
      hsingle
  exact ⟨⟨t, hscan, hlexeme.trans (by decide), hkind.trans (by decide)⟩,
    _, hsingle, rfl, hsame, htrimmed.trans (by decide)⟩

end Token

end TopDown
