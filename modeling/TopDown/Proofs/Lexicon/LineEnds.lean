import TopDown.Proofs.Lexicon.Joined

/-!
# Unified line ends

A text that is read from a file has each carriage return, alone or with the line feed after it,
written as a line feed. A line of the text ends there either way, so the lines stay as they are, and
every token keeps its place.
-/

namespace TopDown

namespace Text

theorem unifyFrom_append (done front text : List Char) :
    unifyFrom (done ++ front) text = front.reverse ++ unifyFrom done text := by
  fun_induction unifyFrom done text with
  | case1 done => exact List.reverse_append
  | case2 done rest ih => exact ih
  | case3 done c rest hno ih =>
    rw [unifyFrom]
    · exact ih
    · exact hno

theorem unifyFrom_singleton (c : Char) (text : List Char) :
    unifyFrom [c] text = c :: unifyLineEnds text :=
  unifyFrom_append [] [c] text

theorem unifyLineEnds_pair (rest : List Char) :
    unifyLineEnds ('\r' :: '\n' :: rest) = '\n' :: unifyLineEnds rest :=
  unifyFrom_singleton '\n' rest

/-- A character that is not the first half of a line end is looked at alone. -/
theorem unifyLineEnds_cons {c : Char} {rest : List Char}
    (h : ∀ tail, c = '\r' → rest = '\n' :: tail → False) :
    unifyLineEnds (c :: rest) = (if c = '\r' then '\n' else c) :: unifyLineEnds rest := by
  rw [unifyLineEnds, unifyFrom]
  · exact unifyFrom_singleton _ rest
  · exact h

theorem linesFrom_unifyLineEnds (line text : List Char) :
    linesFrom line (unifyLineEnds text) = linesFrom line text := by
  fun_induction linesFrom line text with
  | case1 line hline =>
    rw [unifyLineEnds, unifyFrom, List.reverse_nil, linesFrom, if_pos hline]
  | case2 line hline =>
    rw [unifyLineEnds, unifyFrom, List.reverse_nil, linesFrom, if_neg hline]
  | case3 line rest ih => rw [unifyLineEnds_pair, linesFrom_newline, ih]
  | case4 line c rest hno hend ih =>
    rw [unifyLineEnds_cons hno]
    by_cases hreturn : c = '\r'
    · rw [if_pos hreturn, linesFrom_newline, ih]
    · rw [if_neg hreturn, linesFrom_cons (absurd · hreturn), if_pos hend, ih]
  | case5 line c rest hno hend ih =>
    have hreturn : c ≠ '\r' := by
      rintro rfl
      exact hend (by decide)
    rw [unifyLineEnds_cons hno, if_neg hreturn, linesFrom_cons_of_no_end (by simpa using hend), ih]

/-- To unify the line ends of a text leaves its lines as they are. -/
theorem lines_unifyLineEnds (text : List Char) : lines (unifyLineEnds text) = lines text :=
  linesFrom_unifyLineEnds [] text

end Text

/-- A text with unified line ends has the same tokens in the same places. -/
theorem Token.scan_unifyLineEnds (text : String) :
    scan (String.ofList (Text.unifyLineEnds text.toList)) = scan text := by
  rw [scan_eq_scanLines, scan_eq_scanLines, String.toList_ofList, Text.lines_unifyLineEnds]

end TopDown
