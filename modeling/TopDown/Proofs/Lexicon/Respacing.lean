import TopDown.Proofs.Lexicon.Joined
import TopDown.Proofs.Lexicon.Layout
import TopDown.Proofs.Lexicon.Shapes

/-!
# Respacing

How a text is laid out does not matter to its tokens, apart from their places. Its program lines can
be joined to one line, and its lexemes can be set one space apart: the line that this gives is no
comment, no two lexemes of it run into one, and none comes apart.
-/

namespace TopDown

open TopDown.Text

namespace Lexeme

/-- The lexemes of a line, without their columns. -/
def split (line : List Char) : List (List Char) :=
  (lexemes 1 0 line).map Prod.snd

theorem map_snd_lexemes_eq (column column' skip : Nat) (line : List Char) :
    (lexemes column skip line).map Prod.snd = (lexemes column' skip line).map Prod.snd := by
  fun_induction lexemes column skip line generalizing column' with
  | case1 => simp [lexemes]
  | case2 column skip c rest ih =>
    rw [lexemes]
    exact ih (column' + 1)
  | case3 column c rest hblank ih =>
    rw [lexemes, if_pos hblank]
    exact ih (column' + 1)
  | case4 column c rest hblank length ih =>
    rw [lexemes, if_neg hblank]
    exact congrArg ((c :: rest).take length :: ·) (ih (column' + 1))

@[simp] theorem split_nil : split [] = [] :=
  rfl

theorem split_cons_of_blank {c : Char} (hc : isBlank c = true) (rest : List Char) :
    split (c :: rest) = split rest := by
  rw [split, lexemes, if_pos hc]
  exact map_snd_lexemes_eq _ _ _ _

theorem split_cons_of_not_blank {c : Char} (hc : isBlank c = false) (rest : List Char) :
    split (c :: rest) = (c :: rest).take (length (c :: rest)) ::
      split ((c :: rest).drop (length (c :: rest))) := by
  obtain ⟨n, hn⟩ := Nat.exists_eq_succ_of_ne_zero (Nat.ne_of_gt (length_pos (c :: rest)))
  rw [split, lexemes, if_neg (by simp [hc])]
  simp only [List.map_cons, hn, Nat.succ_eq_add_one, Nat.add_sub_cancel, List.drop_succ_cons]
  rw [lexemes_skip, map_snd_lexemes_eq _ 1]
  rfl

/-- What is known of the lexemes of a line is known by going from lexeme to lexeme. -/
theorem split_induction {P : List Char → Prop} (hnil : P [])
    (hblank : ∀ c rest, isBlank c = true → P rest → P (c :: rest))
    (hlexeme : ∀ c rest, isBlank c = false →
      P ((c :: rest).drop (length (c :: rest))) → P (c :: rest)) (line : List Char) : P line := by
  induction hn : line.length using Nat.strong_induction_on generalizing line with
  | h n ih =>
    cases line with
    | nil => exact hnil
    | cons c rest =>
      by_cases hc : isBlank c = true
      · exact hblank c rest hc (ih rest.length (by simp [← hn]) rest rfl)
      · have hpos := length_pos (c :: rest)
        refine hlexeme c rest (by simpa using hc) (ih _ ?_ _ rfl)
        rw [← hn, List.length_drop, List.length_cons]
        omega

/-- The lexemes of a line are those before a blank, and then those from the blank on. -/
theorem split_append (front : List Char) {rest : List Char}
    (hrest : ∀ c ∈ rest.head?, isBlank c = true) :
    split (front ++ rest) = split front ++ split rest := by
  induction front using split_induction with
  | hnil => rfl
  | hblank c front hc ih =>
    rw [List.cons_append, split_cons_of_blank hc, split_cons_of_blank hc, ih]
  | hlexeme c front hc ih =>
    have hle := (length_take (List.cons_ne_nil c front)).2
    have hsame : length (c :: front ++ rest) = length (c :: front) := length_append hrest
    rw [List.cons_append, split_cons_of_not_blank hc, split_cons_of_not_blank hc,
      ← List.cons_append, hsame, List.take_append_of_le_length hle,
      List.drop_append_of_le_length hle, ih, List.cons_append]

/-- A lexeme of a line is the only lexeme of itself. -/
theorem split_of_mem_split {line lexeme : List Char} (h : lexeme ∈ split line) :
    split lexeme = [lexeme] := by
  induction line using split_induction with
  | hnil => cases h
  | hblank c rest hc ih =>
    rw [split_cons_of_blank hc] at h
    exact ih h
  | hlexeme c rest hc ih =>
    rw [split_cons_of_not_blank hc] at h
    rcases List.mem_cons.mp h with rfl | hlater
    · have hself := (length_take (List.cons_ne_nil c rest)).1
      obtain ⟨n, hn⟩ := Nat.exists_eq_succ_of_ne_zero (Nat.ne_of_gt (length_pos (c :: rest)))
      rw [hn, List.take_succ_cons] at hself ⊢
      rw [split_cons_of_not_blank hc, hself, List.take_succ_cons, List.drop_succ_cons,
        List.take_take, Nat.min_self, List.drop_take, Nat.sub_self, List.take_zero, split_nil]
    · exact ih hlater

theorem isBlank_of_mem_split {line lexeme : List Char} (h : lexeme ∈ split line) :
    ∀ c ∈ lexeme, isBlank c = false := by
  obtain ⟨⟨column, lexeme⟩, hmem, rfl⟩ := List.mem_map.mp h
  exact ((laid_lexemes 1 line).slice hmem).2.1

theorem isLineEnd_of_mem_split {line lexeme : List Char} (h : lexeme ∈ split line) :
    ∀ c ∈ lexeme, isLineEnd c = false := by
  intro c hc
  by_contra hend
  have hblank := isBlank_of_isLineEnd (by simpa using hend)
  simp [isBlank_of_mem_split h c hc] at hblank

/-! ## Parts with a space between them -/

/-- The parts with a space between each and the next. -/
def oneLine (parts : List (List Char)) : List Char :=
  [' '].intercalate parts

@[simp] theorem oneLine_nil : oneLine [] = [] :=
  rfl

@[simp] theorem oneLine_singleton (part : List Char) : oneLine [part] = part :=
  List.intercalate_singleton

theorem oneLine_cons_cons (part next : List Char) (parts : List (List Char)) :
    oneLine (part :: next :: parts) = part ++ ' ' :: oneLine (next :: parts) := by
  rw [oneLine, List.intercalate_cons_cons, List.append_assoc]
  rfl

theorem intercalate_space (parts : List (List Char)) :
    " ".intercalate (parts.map String.ofList) = String.ofList (oneLine parts) := by
  rw [← String.toList_inj, String.toList_intercalate, String.toList_ofList, List.map_map]
  simp [oneLine, Function.comp_def]

theorem split_oneLine (parts : List (List Char)) : split (oneLine parts) = parts.flatMap split := by
  induction parts with
  | nil => rfl
  | cons part parts ih =>
    cases parts with
    | nil => simp
    | cons next parts =>
      have hspace : isBlank ' ' = true := by decide
      rw [oneLine_cons_cons, split_append part (by simp [hspace]), split_cons_of_blank hspace, ih]
      rfl

/-- Lexemes that are set apart are the same lexemes. -/
theorem split_oneLine_split (line : List Char) : split (oneLine (split line)) = split line := by
  rw [split_oneLine]
  have hself : (split line).flatMap split = (split line).flatMap fun lexeme => [lexeme] :=
    List.flatMap_congr fun _ => split_of_mem_split
  rw [hself, List.flatMap_singleton']

-- A space keeps apart what would be one lexeme without it.
example : split "3.14 3 . 14".toList =
    ["3.14".toList, "3".toList, ".".toList, "14".toList] := by
  decide +kernel

/-- A line is a comment if the mark opens its first lexeme. -/
theorem isComment_iff {line : List Char} :
    isComment line = true ↔ ∃ rest, (split line).head? = some (commentMark :: rest) := by
  induction line using split_induction with
  | hnil => simp [isComment]
  | hblank c rest hc ih =>
    have hsame : isComment (c :: rest) = isComment rest := by simp [isComment, hc]
    rw [hsame, split_cons_of_blank hc, ih]
  | hlexeme c rest hc ih =>
    obtain ⟨n, hn⟩ := Nat.exists_eq_succ_of_ne_zero (Nat.ne_of_gt (length_pos (c :: rest)))
    rw [split_cons_of_not_blank hc, hn, List.take_succ_cons]
    simp [isComment, hc]

theorem isComment_oneLine {parts : List (List Char)}
    (h : ∀ part ∈ parts, isComment part = false) : isComment (oneLine parts) = false := by
  by_contra hcomment
  obtain ⟨rest, hhead⟩ := isComment_iff.mp (by simpa using hcomment)
  rw [split_oneLine, List.head?_flatMap] at hhead
  obtain ⟨part, hpart, hfirst⟩ := List.exists_of_findSome?_eq_some hhead
  have hmark := isComment_iff.mpr ⟨rest, hfirst⟩
  simp [h part hpart] at hmark

theorem isComment_oneLine_split (line : List Char) :
    isComment (oneLine (split line)) = isComment line := by
  rw [Bool.eq_iff_iff, isComment_iff, isComment_iff, split_oneLine_split]

/-- A space ends no line. -/
theorem isLineEnd_oneLine {parts : List (List Char)}
    (h : ∀ part ∈ parts, ∀ c ∈ part, isLineEnd c = false) :
    ∀ c ∈ oneLine parts, isLineEnd c = false := by
  induction parts with
  | nil => simp
  | cons part parts ih =>
    obtain ⟨hpart, hparts⟩ := List.forall_mem_cons.mp h
    cases parts with
    | nil => simpa using hpart
    | cons next parts =>
      rw [oneLine_cons_cons, List.forall_mem_append, List.forall_mem_cons]
      exact ⟨hpart, by decide, ih hparts⟩

end Lexeme

/-! ## Lines -/

namespace Text

theorem linesFrom_of_no_end (front : List Char) {text : List Char}
    (h : ∀ c ∈ text, isLineEnd c = false) (hne : text ≠ []) :
    linesFrom front text = [front.reverse ++ text] := by
  rw [← List.append_nil text, linesFrom_append_of_no_end h, linesFrom, if_neg (by simp [hne])]
  simp

end Text

/-! ## Tokens -/

namespace Token

open TopDown.Lexeme

/-- A program line holds no end of a line and is no comment. -/
theorem plain_of_mem_programLines {text : String} {line : List Char}
    (h : line ∈ (programLines text).map Prod.snd) :
    (∀ c ∈ line, isLineEnd c = false) ∧ isComment line = false := by
  obtain ⟨⟨number, line⟩, hline, rfl⟩ := List.mem_map.mp h
  obtain ⟨i, _, hget, hcomment⟩ := mem_programLines_iff.mp hline
  exact ⟨isLineEnd_of_mem_lines (List.mem_of_getElem? hget), hcomment⟩

/-- The tokens of a text, but for their places, are the lexemes of its program lines. -/
theorem map_scan_eq (text : String) :
    (scan text).map (fun t => (t.kind, t.lexeme)) =
      ((programLines text).flatMap fun p => split p.2).map classified := by
  simp only [scan, List.map_flatMap, map_scanLine]
  rfl

/-- The tokens of a text that is one line and no comment are the lexemes of the line. -/
theorem map_scan_of_line {line : List Char} (hends : ∀ c ∈ line, isLineEnd c = false)
    (hcomment : isComment line = false) :
    (scan (String.ofList line)).map (fun t => (t.kind, t.lexeme)) = (split line).map classified := by
  rw [scan_eq_scanLines, String.toList_ofList]
  by_cases hne : line = []
  · subst hne
    rfl
  · rw [lines, linesFrom_of_no_end [] hends hne]
    simp only [scanLines, List.zipIdx_singleton, List.flatMap_singleton, List.reverse_nil,
      List.nil_append, hcomment, Bool.false_eq_true, if_false, map_scanLine]
    rfl

/-- The layout of a text and its comments carry no meaning: the program lines of the text joined by
single spaces have the same tokens, but for their places, and so have its lexemes. -/
theorem scan_ignores_layout (text : String) :
    (scan (" ".intercalate ((programLines text).map fun p => String.ofList p.2))).map
        (fun t => (t.kind, t.lexeme)) = (scan text).map (fun t => (t.kind, t.lexeme)) ∧
      (scan (" ".intercalate ((scan text).map lexeme))).map (fun t => (t.kind, t.lexeme)) =
        (scan text).map (fun t => (t.kind, t.lexeme)) := by
  generalize hline : oneLine ((programLines text).map Prod.snd) = line
  have hcomment : isComment line = false :=
    hline ▸ isComment_oneLine fun _ hpart => (plain_of_mem_programLines hpart).2
  have hends : ∀ c ∈ line, isLineEnd c = false :=
    hline ▸ isLineEnd_oneLine fun _ hpart => (plain_of_mem_programLines hpart).1
  have hscan : (scan text).map (fun t => (t.kind, t.lexeme)) = (split line).map classified := by
    rw [map_scan_eq, ← hline, split_oneLine, List.flatMap_map]
  have hlexemes : (scan text).map lexeme = (split line).map String.ofList := by
    have hsnd := congrArg (List.map Prod.snd) hscan
    rw [List.map_map, List.map_map] at hsnd
    exact hsnd
  constructor
  · have htexts : (programLines text).map (fun p => String.ofList p.2) =
        ((programLines text).map Prod.snd).map String.ofList := by
      rw [List.map_map]
      rfl
    rw [htexts, intercalate_space, hline, map_scan_of_line hends hcomment, hscan]
  · have hcomment' : isComment (oneLine (split line)) = false := by
      rw [isComment_oneLine_split, hcomment]
    have hends' : ∀ c ∈ oneLine (split line), isLineEnd c = false :=
      isLineEnd_oneLine fun _ => isLineEnd_of_mem_split
    rw [hlexemes, intercalate_space, map_scan_of_line hends' hcomment', split_oneLine_split, hscan]

end Token

end TopDown
