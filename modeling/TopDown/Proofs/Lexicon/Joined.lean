import TopDown.Proofs.Lexicon.Words

/-!
# Joined texts

A line feed after a text ends its last line, or adds a line that is empty. So the tokens of two
texts with a line feed between them are those of the first, and then those of the second further
down.
-/

namespace TopDown

namespace Text

/-- A character that is not the first half of a line end is looked at alone. -/
theorem linesFrom_cons {c : Char} {rest : List Char} (h : c = '\r' → rest.head? ≠ some '\n')
    (line : List Char) : linesFrom line (c :: rest) =
      if isLineEnd c then line.reverse :: linesFrom [] rest else linesFrom (c :: line) rest := by
  rw [linesFrom]
  rintro tail rfl rfl
  exact h rfl rfl

theorem linesFrom_newline (line rest : List Char) :
    linesFrom line ('\n' :: rest) = line.reverse :: linesFrom [] rest := by
  rw [linesFrom_cons (by simp), if_pos (by decide)]

theorem linesFrom_cons_of_no_end {c : Char} (hc : isLineEnd c = false) (line rest : List Char) :
    linesFrom line (c :: rest) = linesFrom (c :: line) rest := by
  have halone : c = '\r' → rest.head? ≠ some '\n' := by
    rintro rfl
    exact absurd hc (by decide)
  rw [linesFrom_cons halone, if_neg (by simp [hc])]

theorem linesFrom_append_of_no_end {text : List Char} (h : ∀ c ∈ text, isLineEnd c = false)
    (line rest : List Char) :
    linesFrom line (text ++ rest) = linesFrom (text.reverse ++ line) rest := by
  induction text generalizing line with
  | nil => rfl
  | cons c text ih =>
    obtain ⟨hc, htext⟩ := List.forall_mem_cons.mp h
    rw [List.cons_append, linesFrom_cons_of_no_end hc, ih htext]
    simp

/-- Text after a character leaves it alone if it was alone before. -/
theorem head?_append_ne {c : Char} {rest text : List Char}
    (hno : ∀ tail, c = '\r' → rest = '\n' :: tail → False)
    (htext : c = '\r' → rest = [] → text.head? ≠ some '\n') :
    c = '\r' → (rest ++ text).head? ≠ some '\n' := by
  intro hreturn hhead
  cases rest with
  | nil => exact htext hreturn rfl hhead
  | cons d rest =>
    obtain rfl : d = '\n' := Option.some.inj hhead
    exact hno rest hreturn rfl

/-- A line feed ends the last line of the text before it if there is one, and else an empty line. -/
theorem linesFrom_append_newline (line a : List Char) :
    ∃ front, (front = linesFrom line a ∨ front = linesFrom line a ++ [[]]) ∧
      ∀ b, linesFrom line (a ++ '\n' :: b) = front ++ linesFrom [] b := by
  fun_induction linesFrom line a with
  | case1 line hline =>
    obtain rfl := List.isEmpty_iff.mp hline
    exact ⟨[[]], Or.inr rfl, linesFrom_newline []⟩
  | case2 line => exact ⟨[line.reverse], Or.inl rfl, linesFrom_newline line⟩
  | case3 line rest ih =>
    obtain ⟨front, hfront, hlines⟩ := ih
    refine ⟨line.reverse :: front, hfront.imp (congrArg _) (congrArg _), fun b => ?_⟩
    exact congrArg _ (hlines b)
  | case4 line c rest hno hend ih =>
    by_cases hhalf : c = '\r' ∧ rest = []
    · -- The line feed is the second half of the line end.
      obtain ⟨rfl, rfl⟩ := hhalf
      exact ⟨[line.reverse], Or.inl rfl, fun b => rfl⟩
    · obtain ⟨front, hfront, hlines⟩ := ih
      refine ⟨line.reverse :: front, hfront.imp (congrArg _) (congrArg _), fun b => ?_⟩
      have halone : c = '\r' → (rest ++ '\n' :: b).head? ≠ some '\n' :=
        head?_append_ne hno fun hreturn hnil => absurd ⟨hreturn, hnil⟩ hhalf
      rw [List.cons_append, linesFrom_cons halone, if_pos hend, hlines]
      rfl
  | case5 line c rest _ hend ih =>
    obtain ⟨front, hfront, hlines⟩ := ih
    refine ⟨front, hfront, fun b => ?_⟩
    rw [List.cons_append, linesFrom_cons_of_no_end (by simpa using hend), hlines]

/-- The lines of joined texts are those of the first text with a line feed after it, and then those
of the second; the line feed adds an empty line at most. -/
theorem lines_append_newline (a b : List Char) :
    lines (a ++ '\n' :: b) = lines (a ++ ['\n']) ++ lines b ∧
      (lines (a ++ ['\n']) = lines a ∨ lines (a ++ ['\n']) = lines a ++ [[]]) := by
  obtain ⟨front, hfront, hlines⟩ := linesFrom_append_newline [] a
  have hfirst : lines (a ++ ['\n']) = front := by
    rw [lines, hlines, linesFrom]
    exact List.append_nil front
  rw [hfirst]
  exact ⟨hlines b, hfront⟩

theorem isLineEnd_of_mem_linesFrom {front text line : List Char}
    (hfront : ∀ c ∈ front, isLineEnd c = false) (h : line ∈ linesFrom front text) :
    ∀ c ∈ line, isLineEnd c = false := by
  have hback : ∀ c ∈ front.reverse, isLineEnd c = false := by simpa using hfront
  fun_induction linesFrom front text with
  | case1 => cases h
  | case2 front hne =>
    rw [List.mem_singleton.mp h]
    exact hback
  | case3 front rest ih | case4 front c rest _ hend ih =>
    rcases List.mem_cons.mp h with rfl | hlater
    · exact hback
    · exact ih (by simp) hlater (by simp)
  | case5 front c rest _ hend ih =>
    have hmore : ∀ d ∈ c :: front, isLineEnd d = false :=
      List.forall_mem_cons.mpr ⟨by simpa using hend, hfront⟩
    exact ih hmore h (by simpa [or_comm, forall_and] using hmore)

/-- No line holds the end of a line. -/
theorem isLineEnd_of_mem_lines {text line : List Char} (h : line ∈ lines text) :
    ∀ c ∈ line, isLineEnd c = false :=
  isLineEnd_of_mem_linesFrom (by simp) h

end Text

open TopDown.Text

namespace Token

/-- The token so many lines further down. -/
def raise (count : Nat) (t : Token) : Token :=
  { t with line := t.line + count }

/-- The tokens of lines that are numbered from `first`. -/
def scanLines (first : Nat) (ls : List (List Char)) : List Token :=
  (ls.zipIdx first).flatMap fun (line, number) =>
    if isComment line then [] else scanLine number line

theorem scan_eq_scanLines (text : String) : scan text = scanLines 1 (lines text.toList) := by
  rw [scan, programLines, scanLines, List.filterMap_eq_flatMap_toList, List.flatMap_assoc]
  refine List.flatMap_congr fun p _ => ?_
  by_cases hcomment : isComment p.1 = true <;> simp [hcomment]

theorem scanLines_append (first : Nat) (ls ls' : List (List Char)) :
    scanLines first (ls ++ ls') = scanLines first ls ++ scanLines (first + ls.length) ls' := by
  rw [scanLines, List.zipIdx_append, List.flatMap_append]
  rfl

theorem scanLine_add (number count : Nat) (line : List Char) :
    scanLine (number + count) line = (scanLine number line).map (raise count) := by
  simp [scanLine, raise]

theorem scanLines_add (first count : Nat) (ls : List (List Char)) :
    scanLines (first + count) ls = (scanLines first ls).map (raise count) := by
  have hnumbers : ls.zipIdx (first + count) =
      (ls.zipIdx first).map (Prod.map id (· + count)) := by
    rw [List.map_snd_add_zipIdx_eq_zipIdx, Nat.add_comm]
  rw [scanLines, scanLines, hnumbers, List.map_flatMap, List.flatMap_map]
  refine List.flatMap_congr fun p _ => ?_
  by_cases hcomment : isComment p.1 = true
  · simp [hcomment]
  · simp [hcomment, scanLine_add]

/-- The tokens of joined texts are those of the first, and then those of the second so many lines
further down as the first has with a line feed after it. -/
theorem scan_append_newline (a b : String) :
    scan (a ++ "\n" ++ b) =
      scan a ++ (scan b).map (raise (lines (a ++ "\n").toList).length) := by
  obtain ⟨hlines, hfirst⟩ := lines_append_newline a.toList b.toList
  have hempty : scanLines (1 + (lines a.toList).length) [[]] = [] := by
    simp [scanLines, isComment, scanLine, lexemes]
  have hsame : scanLines 1 (lines (a.toList ++ ['\n'])) = scanLines 1 (lines a.toList) := by
    rcases hfirst with hsame | hmore
    · rw [hsame]
    · rw [hmore, scanLines_append, hempty, List.append_nil]
  simp only [scan_eq_scanLines, String.toList_append]
  show scanLines 1 (lines (a.toList ++ ['\n'] ++ b.toList)) =
    scanLines 1 (lines a.toList) ++ List.map (raise (lines (a.toList ++ ['\n'])).length)
      (scanLines 1 (lines b.toList))
  rw [List.append_assoc, List.singleton_append, hlines, scanLines_append, hsame, scanLines_add]

end Token

end TopDown
