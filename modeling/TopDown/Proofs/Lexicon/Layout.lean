import Mathlib.Data.List.Range
import TopDown.Proofs.Lexicon.Scan
import TopDown.Proofs.Lexicon.Words

/-!
# The layout of a text

The lexemes of a line lie along it in order, and what lies between them is blank. So each token of a
text is found at the place that it states, no two tokens overlap, and apart from the comments no
character is lost that is not blank.
-/

namespace TopDown

open TopDown.Text

/-! ## Lines -/

/-- Lexemes with their columns lie in order along a text that starts at the given column; no blank
lies in one of them, and only blanks lie between them. -/
inductive Laid : Nat → List Char → List (Nat × List Char) → Prop
  | nil {column : Nat} : Laid column [] []
  | blank {column : Nat} {c : Char} {text : List Char} {spans : List (Nat × List Char)}
      (hc : isBlank c = true) (hrest : Laid (column + 1) text spans) : Laid column (c :: text) spans
  | lexeme {column : Nat} {lexeme text : List Char} {spans : List (Nat × List Char)}
      (hne : lexeme ≠ []) (hblank : ∀ c ∈ lexeme, isBlank c = false)
      (hrest : Laid (column + lexeme.length) text spans) :
      Laid column (lexeme ++ text) ((column, lexeme) :: spans)

/-- A text that starts with no blank starts with a lexeme; the lexemes of the rest come after it. -/
theorem lexemes_of_not_blank (column : Nat) {c : Char} (hc : isBlank c = false) (rest : List Char) :
    ∃ lexeme tail, c :: rest = lexeme ++ tail ∧ lexeme ≠ [] ∧ (∀ d ∈ lexeme, isBlank d = false) ∧
      lexemes column 0 (c :: rest) =
        (column, lexeme) :: lexemes (column + lexeme.length) 0 tail := by
  have hblank : ∀ d ∈ (c :: rest).take (Lexeme.length (c :: rest)), isBlank d = false :=
    fun d => Lexeme.isBlank_eq_false_of_mem_take (by simpa using hc)
  obtain ⟨n, hn⟩ := Nat.exists_eq_succ_of_ne_zero (Nat.ne_of_gt (Lexeme.length_pos (c :: rest)))
  rw [hn, List.take_succ_cons] at hblank
  refine ⟨c :: rest.take n, rest.drop n, by simp, List.cons_ne_nil _ _, hblank, ?_⟩
  rw [lexemes, if_neg (by simp [hc])]
  simp only [hn, Nat.succ_eq_add_one, Nat.add_sub_cancel, List.take_succ_cons]
  rw [lexemes_skip, List.length_cons, List.length_take]
  by_cases hlong : n ≤ rest.length
  · rw [Nat.min_eq_left hlong, Nat.add_assoc, Nat.add_comm 1]
  · rw [List.drop_eq_nil_of_le (by omega), lexemes, lexemes]

theorem laid_lexemes (column : Nat) (text : List Char) :
    Laid column text (lexemes column 0 text) := by
  induction hn : text.length using Nat.strong_induction_on generalizing text column with
  | h n ih =>
    cases text with
    | nil => exact .nil
    | cons c rest =>
      by_cases hc : isBlank c = true
      · rw [lexemes, if_pos hc]
        exact .blank hc (ih rest.length (by simp [← hn]) _ rest rfl)
      · rw [Bool.not_eq_true] at hc
        obtain ⟨lexeme, tail, htext, hne, hblank, hlexemes⟩ := lexemes_of_not_blank column hc rest
        have hshorter : tail.length < n := by
          have hpos := List.length_pos_iff.mpr hne
          rw [← hn, htext, List.length_append]
          omega
        rw [hlexemes, htext]
        exact .lexeme hne hblank (ih tail.length hshorter _ tail rfl)

namespace Laid

variable {column : Nat} {text : List Char} {spans : List (Nat × List Char)}

/-- A lexeme is what the text has at its column. -/
theorem slice (h : Laid column text spans) {place : Nat} {lexeme : List Char}
    (hmem : (place, lexeme) ∈ spans) :
    lexeme ≠ [] ∧ (∀ c ∈ lexeme, isBlank c = false) ∧
      ∃ i, place = column + i ∧ lexeme = (text.drop i).take lexeme.length := by
  induction h with
  | nil => cases hmem
  | @blank column c text spans hc hrest ih =>
    obtain ⟨hne, hblank, i, rfl, hslice⟩ := ih hmem
    exact ⟨hne, hblank, i + 1, by omega, hslice⟩
  | @lexeme column first text spans hne hblank hrest ih =>
    rcases List.mem_cons.mp hmem with hfirst | hlater
    · obtain ⟨rfl, rfl⟩ := Prod.mk.inj hfirst
      exact ⟨hne, hblank, 0, rfl, by simp⟩
    · obtain ⟨hne, hblank, i, rfl, hslice⟩ := ih hlater
      refine ⟨hne, hblank, first.length + i, by omega, ?_⟩
      rw [List.drop_length_add_append]
      exact hslice

/-- A lexeme ends before the next one starts. -/
theorem apart (h : Laid column text spans) :
    spans.Pairwise fun a b => a.1 + a.2.length ≤ b.1 := by
  induction h with
  | nil => exact .nil
  | blank _ _ ih => exact ih
  | lexeme hne hblank hrest ih =>
    refine List.pairwise_cons.mpr ⟨?_, ih⟩
    rintro ⟨place, lexeme⟩ hmem
    obtain ⟨_, _, i, rfl, _⟩ := hrest.slice hmem
    exact Nat.le_add_right _ _

/-- Each character that is not blank lies in a lexeme. -/
theorem covers (h : Laid column text spans) {i : Nat} {c : Char} (hc : text[i]? = some c)
    (hblank : isBlank c = false) :
    ∃ span ∈ spans, span.1 ≤ column + i ∧ column + i < span.1 + span.2.length := by
  induction h generalizing i with
  | nil => cases hc
  | @blank column d text spans hd hrest ih =>
    cases i with
    | zero =>
      obtain rfl : d = c := by simpa using hc
      simp [hd] at hblank
    | succ i =>
      obtain ⟨span, hmem, hfrom, hto⟩ := ih hc
      exact ⟨span, hmem, by omega, by omega⟩
  | @lexeme column first text spans _ _ hrest ih =>
    by_cases hi : i < first.length
    · exact ⟨(column, first), by simp, Nat.le_add_right _ _, Nat.add_lt_add_left hi _⟩
    · rw [List.getElem?_append_right (Nat.le_of_not_lt hi)] at hc
      obtain ⟨span, hmem, hfrom, hto⟩ := ih hc
      exact ⟨span, List.mem_cons_of_mem _ hmem, by omega, by omega⟩

end Laid

/-! ## Texts -/

theorem pairwise_programLines (text : String) :
    (programLines text).Pairwise fun a b => a.1 < b.1 := by
  have hnumbers : ((lines text.toList).zipIdx 1).Pairwise fun a b => a.2 < b.2 := by
    rw [← List.pairwise_map (f := Prod.snd) (R := (· < ·)), List.zipIdx_map_snd]
    exact List.pairwise_lt_range' 1
  refine hnumbers.filterMap _ ?_
  rintro ⟨line, number⟩ ⟨line', number'⟩ hlt b hb b' hb'
  simp only [Option.ite_none_left_eq_some, Option.some.injEq] at hb hb'
  obtain ⟨_, rfl⟩ := hb
  obtain ⟨_, rfl⟩ := hb'
  exact hlt

/-- A numbered line of a program is a line of the text, and no comment. -/
theorem mem_programLines_iff {text : String} {number : Nat} {line : List Char} :
    (number, line) ∈ programLines text ↔
      ∃ i, number = i + 1 ∧ (lines text.toList)[i]? = some line ∧ isComment line = false := by
  constructor
  · intro h
    obtain ⟨⟨line', number'⟩, hmem, hline⟩ := List.mem_filterMap.mp h
    simp only [Option.ite_none_left_eq_some, Option.some.injEq, Bool.not_eq_true] at hline
    obtain ⟨hcomment, hsame⟩ := hline
    obtain ⟨rfl, rfl⟩ := Prod.mk.inj hsame
    obtain ⟨hfrom, hget⟩ := List.mk_mem_zipIdx_iff_le_and_getElem?_sub.mp hmem
    exact ⟨number' - 1, by omega, hget, hcomment⟩
  · rintro ⟨i, rfl, hget, hcomment⟩
    refine List.mem_filterMap.mpr ⟨(line, i + 1), ?_, by simp [hcomment]⟩
    exact List.mk_mem_zipIdx_iff_le_and_getElem?_sub.mpr ⟨by omega, hget⟩

namespace Token

/-- The token of a lexeme on a line. -/
def placed (number : Nat) (span : Nat × List Char) : Token :=
  ⟨Kind.ofLexeme (String.ofList span.2), String.ofList span.2, number, span.1⟩

/-- The tokens of a text are those of its lines that are no comments. -/
theorem mem_scan_iff {text : String} {t : Token} :
    t ∈ scan text ↔ ∃ i line, (lines text.toList)[i]? = some line ∧ isComment line = false ∧
      ∃ span ∈ lexemes 1 0 line, t = placed (i + 1) span := by
  constructor
  · intro h
    obtain ⟨⟨number, line⟩, hline, hmem⟩ := List.mem_flatMap.mp h
    obtain ⟨i, rfl, hget, hcomment⟩ := mem_programLines_iff.mp hline
    obtain ⟨span, hspan, rfl⟩ := List.mem_map.mp hmem
    exact ⟨i, line, hget, hcomment, span, hspan, rfl⟩
  · rintro ⟨i, line, hget, hcomment, span, hspan, rfl⟩
    have hline := mem_programLines_iff.mpr ⟨i, rfl, hget, hcomment⟩
    exact List.mem_flatMap.mpr ⟨_, hline, List.mem_map_of_mem hspan⟩

/-- Whether the token ends before the other one starts. -/
def Before (t u : Token) : Prop :=
  t.line < u.line ∨ t.line = u.line ∧ t.column + t.lexeme.length ≤ u.column

/-- Whether the character in a place belongs to the token. -/
def Covers (t : Token) (line column : Int) : Prop :=
  t.line = line ∧ t.column ≤ column ∧ column < t.column + t.lexeme.length

theorem pairwise_before_scan (text : String) : (scan text).Pairwise Before := by
  refine List.pairwise_flatMap.mpr ⟨?_, ?_⟩
  · rintro ⟨number, line⟩ _
    refine List.pairwise_map.mpr ((laid_lexemes 1 line).apart.imp ?_)
    rintro ⟨column, lexeme⟩ ⟨column', lexeme'⟩ hapart
    exact Or.inr ⟨rfl, by simpa using Int.ofNat_le.mpr hapart⟩
  · refine (pairwise_programLines text).imp ?_
    rintro ⟨number, line⟩ ⟨number', line'⟩ hlt t ht u hu
    obtain ⟨_, _, rfl⟩ := List.mem_map.mp ht
    obtain ⟨_, _, rfl⟩ := List.mem_map.mp hu
    exact Or.inl (Int.ofNat_lt.mpr hlt)

/-- A character in a place belongs to one token at most. -/
theorem eq_of_covers {text : String} {t u : Token} {line column : Int} (ht : t ∈ scan text)
    (hu : u ∈ scan text) (htc : t.Covers line column) (huc : u.Covers line column) : t = u := by
  have hapart : (scan text).Pairwise fun a b =>
      ¬ (a.Covers line column ∧ b.Covers line column) := by
    refine (pairwise_before_scan text).imp ?_
    rintro a b hbefore ⟨⟨hline, _, hto⟩, ⟨hline', hfrom, _⟩⟩
    rcases hbefore with hlt | ⟨_, hle⟩ <;> omega
  have hsymm : Std.Symm fun a b : Token => ¬ (a.Covers line column ∧ b.Covers line column) :=
    ⟨fun _ _ hnot hboth => hnot hboth.symm⟩
  by_contra hne
  exact hapart.forall ht hu hne ⟨htc, huc⟩

/-- Whether the text has the lexeme where the token says, on a line that is no comment. -/
def FoundIn (t : Token) (text : String) : Prop :=
  ∃ (number column : Nat) (line : List Char), t.line = number + 1 ∧ t.column = column + 1 ∧
    (lines text.toList)[number]? = some line ∧ isComment line = false ∧
    t.lexeme.toList = (line.drop column).take t.lexeme.length

theorem found_of_mem_scan {text : String} {t : Token} (h : t ∈ scan text) :
    t.lexeme ≠ "" ∧ (∀ c ∈ t.lexeme.toList, isBlank c = false) ∧ t.FoundIn text := by
  obtain ⟨number, line, hline, hcomment, ⟨place, lexeme⟩, hspan, rfl⟩ := mem_scan_iff.mp h
  obtain ⟨hne, hblank, column, rfl, hlexeme⟩ := (laid_lexemes 1 line).slice hspan
  refine ⟨by simpa [placed] using hne, by simpa [placed] using hblank, number, column, line, ?_⟩
  refine ⟨by simp [placed], ?_, hline, hcomment, by simpa [placed] using hlexeme⟩
  show ((1 + column : Nat) : Int) = column + 1
  omega

/-- The tokens of a text lie in it in order, each where it says, and do not overlap. Comments have
none, and elsewhere each character that is not blank belongs to exactly one. -/
theorem scan_lays_out (text : String) :
    (scan text).Pairwise (fun t u => t.line < u.line ∨ t.line = u.line ∧ t.column < u.column) ∧
      (scan text).Pairwise (fun t u : Token =>
        t.line = u.line → t.column + t.lexeme.length ≤ u.column) ∧
      (∀ t ∈ scan text,
        t.lexeme ≠ "" ∧ (∀ c ∈ t.lexeme.toList, isBlank c = false) ∧ t.FoundIn text) ∧
      ∀ (number column : Nat) (chars : List Char) (c : Char),
        (lines text.toList)[number]? = some chars → isComment chars = false →
        chars[column]? = some c → isBlank c = false →
        ∃! t, t ∈ scan text ∧ t.Covers (number + 1) (column + 1) := by
  have hbefore := pairwise_before_scan text
  refine ⟨?_, ?_, fun t => found_of_mem_scan, ?_⟩
  · refine hbefore.imp_of_mem fun {t u} ht _ htu => htu.imp_right fun hsame => ⟨hsame.1, ?_⟩
    have hpos : 0 < t.lexeme.length := by
      rw [← String.length_toList]
      exact List.length_pos_iff.mpr (by simpa using (found_of_mem_scan ht).1)
    have hle := hsame.2
    omega
  · exact hbefore.imp fun {t u} htu hline => (htu.resolve_left (by omega)).2
  · intro number column chars c hchars hcomment hc hblank
    obtain ⟨span, hspan, hfrom, hto⟩ := (laid_lexemes 1 chars).covers hc hblank
    have hmem := mem_scan_iff.mpr ⟨number, chars, hchars, hcomment, span, hspan, rfl⟩
    have hcovers : (placed (number + 1) span).Covers (number + 1) (column + 1) := by
      refine ⟨by simp [placed], ?_, ?_⟩
      · show (span.1 : Int) ≤ column + 1
        omega
      · show (column + 1 : Int) < span.1 + ((String.ofList span.2).length : Nat)
        rw [String.length_ofList]
        omega
    exact ⟨_, ⟨hmem, hcovers⟩, fun u hu => eq_of_covers hu.1 hmem hu.2 hcovers⟩

end Token

end TopDown
