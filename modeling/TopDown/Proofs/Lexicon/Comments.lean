import TopDown.Proofs.Lexicon.Joined

/-!
# Texts line by line

A line of a text stands between what comes before it and what comes after it, and neither of the two
depends on it. So a comment can be written in another way, and no token changes.
-/

namespace TopDown

open TopDown.Text

namespace Text

/-! ## Lines in their places -/

/-- What comes before a line of a text and what comes after it. -/
structure Place where
  front : List Char
  back : List Char
  opens : ∀ c ∈ front.getLast?, isLineEnd c = true
  closes : ∀ c ∈ back.head?, isLineEnd c = true

/-- The text with a line in the place. -/
def Place.fill (p : Place) (line : List Char) : List Char :=
  p.front ++ (line ++ p.back)

/-- How many lines come before the place. -/
def Place.index (p : Place) : Nat :=
  (lines p.front).length

/-- What ends a line does not depend on the line, unless the line is empty. -/
theorem linesFrom_of_end {back : List Char} (h : ∀ c ∈ back.head?, isLineEnd c = true) :
    ∃ rest, ∀ line, line ≠ [] → linesFrom line back = line.reverse :: rest := by
  cases back with
  | nil => exact ⟨[], fun line hne => by simp [linesFrom, hne]⟩
  | cons c back =>
    by_cases hpair : c = '\r' ∧ ∃ rest, back = '\n' :: rest
    · obtain ⟨rfl, rest, rfl⟩ := hpair
      exact ⟨linesFrom [] rest, fun line _ => rfl⟩
    · have halone : c = '\r' → back.head? ≠ some '\n' :=
        fun hc hhead => hpair ⟨hc, List.head?_eq_some_iff.mp hhead⟩
      exact ⟨linesFrom [] back, fun line _ => by rw [linesFrom_cons halone, if_pos (h c rfl)]⟩

theorem isLineEnd_of_getLast?_cons {front : List Char} {c : Char}
    (h : ∀ d ∈ (c :: front).getLast?, isLineEnd d = true) :
    (front = [] → isLineEnd c = true) ∧ ∀ d ∈ front.getLast?, isLineEnd d = true := by
  rw [List.getLast?_cons] at h
  cases hlast : front.getLast? with
  | none => exact ⟨fun _ => by simpa [hlast] using h, by simp⟩
  | some d =>
    have hne : front ≠ [] := by
      rintro rfl
      cases hlast
    simpa [hlast, hne] using h

/-- Where a line ends, the rest of the text is cut by itself. -/
theorem linesFrom_append_of_end {front text : List Char}
    (hfront : ∀ c ∈ front.getLast?, isLineEnd c = true) (htext : text.head? ≠ some '\n')
    {line : List Char} (hline : front = [] → line = []) :
    linesFrom line (front ++ text) = linesFrom line front ++ linesFrom [] text := by
  fun_induction linesFrom line front with
  | case1 line hempty =>
    rw [List.isEmpty_iff.mp hempty]
    rfl
  | case2 line hempty => simp [hline rfl] at hempty
  | case3 line rest ih =>
    have hrest := (isLineEnd_of_getLast?_cons (isLineEnd_of_getLast?_cons hfront).2).2
    exact congrArg _ (ih hrest (fun _ => rfl))
  | case4 line c rest hno hend ih =>
    rw [List.cons_append, linesFrom_cons (head?_append_ne hno fun _ _ => htext), if_pos hend,
      ih (isLineEnd_of_getLast?_cons hfront).2 (fun _ => rfl)]
    rfl
  | case5 line c rest _ hend ih =>
    obtain ⟨hlast, hrest⟩ := isLineEnd_of_getLast?_cons hfront
    rw [List.cons_append, linesFrom_cons_of_no_end (by simpa using hend)]
    -- What comes before ends in the end of a line, so this is not its last character.
    exact ih hrest (fun hnil => absurd (hlast hnil) hend)

/-- The other lines of a text are the same whatever line is in the place. -/
theorem Place.lines_fill (p : Place) : ∃ after, ∀ line, line ≠ [] →
    (∀ c ∈ line, isLineEnd c = false) → lines (p.fill line) = lines p.front ++ line :: after := by
  obtain ⟨after, hafter⟩ := linesFrom_of_end p.closes
  refine ⟨after, fun line hne hplain => ?_⟩
  have hhead : (line ++ p.back).head? ≠ some '\n' := by
    intro hfeed
    obtain ⟨c, line, rfl⟩ := List.exists_cons_of_ne_nil hne
    obtain rfl : c = '\n' := Option.some.inj hfeed
    exact absurd (hplain '\n' (by simp)) (by decide)
  rw [Place.fill, lines, linesFrom_append_of_end p.opens hhead (fun _ => rfl),
    linesFrom_append_of_no_end hplain, hafter _ (by simpa using hne)]
  simp [lines]

/-- A place is one line further down with one more line before it. -/
theorem Place.exists_below (p : Place) {front : List Char} (ends : List Char)
    (hfront : ∀ c ∈ front, isLineEnd c = false) (hne : ends ≠ [])
    (hends : ∀ c ∈ ends, isLineEnd c = true)
    (hcut : linesFrom front (ends ++ p.front) = front.reverse :: lines p.front) :
    ∃ q : Place, q.index = p.index + 1 ∧
      ∀ line, q.fill line = front.reverse ++ (ends ++ p.fill line) := by
  have hopens : ∀ c ∈ (front.reverse ++ (ends ++ p.front)).getLast?, isLineEnd c = true := by
    intro c hc
    cases hlast : p.front.getLast? with
    | some d =>
      obtain rfl : d = c := by simpa [List.getLast?_append, hlast] using hc
      exact p.opens d hlast
    | none =>
      obtain ⟨d, hd⟩ := Option.ne_none_iff_exists'.mp (mt List.getLast?_eq_none_iff.mp hne)
      obtain rfl : d = c := by simpa [List.getLast?_append, hlast, hd] using hc
      exact hends d (List.mem_of_getLast? hd)
  refine ⟨⟨front.reverse ++ (ends ++ p.front), p.back, hopens, p.closes⟩, ?_, fun line => ?_⟩
  · rw [Place.index, lines, linesFrom_append_of_no_end (by simpa using hfront),
      List.reverse_reverse, List.append_nil, hcut, List.length_cons, Place.index]
  · simp [Place.fill]

/-- Each line of a text is in its place. -/
theorem exists_place {front text line : List Char} {i : Nat}
    (hfront : ∀ c ∈ front, isLineEnd c = false) (h : (linesFrom front text)[i]? = some line) :
    ∃ p : Place, p.index = i ∧ p.fill line = front.reverse ++ text := by
  have hfirst {front rest : List Char} (hrest : ∀ c ∈ rest.head?, isLineEnd c = true) :
      ∃ p : Place, p.index = 0 ∧ p.fill front.reverse = front.reverse ++ rest :=
    ⟨⟨[], rest, by simp, hrest⟩, rfl, rfl⟩
  fun_induction linesFrom front text generalizing i with
  | case1 => cases h
  | case2 front hne =>
    obtain ⟨rfl, rfl⟩ : i = 0 ∧ front.reverse = line := by
      cases i with
      | zero => exact ⟨rfl, Option.some.inj h⟩
      | succ i => cases h
    exact hfirst (by simp)
  | case3 front rest ih =>
    cases i with
    | zero =>
      obtain rfl : front.reverse = line := Option.some.inj h
      exact hfirst (by simpa using (by decide : isLineEnd '\r' = true))
    | succ i =>
      obtain ⟨p, rfl, hfill⟩ := ih (by simp) h
      have hends : ∀ c ∈ ['\r', '\n'], isLineEnd c = true := by
        simp [isLineEnd, within, lineEndRanges]
      obtain ⟨q, hindex, hbelow⟩ := p.exists_below ['\r', '\n'] hfront (by simp) hends rfl
      refine ⟨q, hindex, ?_⟩
      rw [hbelow, hfill]
      rfl
  | case4 front c rest hno hend ih =>
    cases i with
    | zero =>
      obtain rfl : front.reverse = line := Option.some.inj h
      exact hfirst (by simpa using hend)
    | succ i =>
      obtain ⟨p, rfl, hfill⟩ := ih (by simp) h
      have halone : c = '\r' → p.front.head? ≠ some '\n' := by
        intro hreturn hhead
        obtain ⟨tail, htail⟩ := List.head?_eq_some_iff.mp hhead
        rw [Place.fill, htail] at hfill
        exact hno _ hreturn hfill.symm
      have hcut : linesFrom front (c :: p.front) = front.reverse :: lines p.front := by
        rw [linesFrom_cons halone, if_pos hend]
        rfl
      obtain ⟨q, hindex, hbelow⟩ := p.exists_below [c] hfront (by simp) (by simpa using hend) hcut
      refine ⟨q, hindex, ?_⟩
      rw [hbelow, hfill]
      rfl
  | case5 front c rest hno hend ih =>
    have hmore : ∀ d ∈ c :: front, isLineEnd d = false :=
      List.forall_mem_cons.mpr ⟨by simpa using hend, hfront⟩
    obtain ⟨p, hindex, hfill⟩ := ih hmore h
    exact ⟨p, hindex, by simpa using hfill⟩

end Text

/-! ## Comments -/

/-- A comment in its place: blanks, the mark and a note. -/
structure Comment extends Place where
  blanks : List Char
  note : List Char
  blank : ∀ c ∈ blanks, isBlank c = true ∧ isLineEnd c = false
  plain : ∀ c ∈ note, isLineEnd c = false

namespace Comment

def line (c : Comment) : List Char :=
  c.blanks ++ commentMark :: c.note

/-- The text that has the comment. -/
def text (c : Comment) : String :=
  String.ofList (c.fill c.line)

/-- The comment with another note. -/
def annotate (c : Comment) (note : List Char) (h : ∀ d ∈ note, isLineEnd d = false) : Comment :=
  { c with note := note, plain := h }

theorem line_ne_nil (c : Comment) : c.line ≠ [] := by
  simp [line]

theorem line_plain (c : Comment) : ∀ d ∈ c.line, isLineEnd d = false := by
  rw [line, List.forall_mem_append, List.forall_mem_cons]
  exact ⟨fun d hd => (c.blank d hd).2, by decide, c.plain⟩

theorem isComment_line (c : Comment) : isComment c.line = true := by
  have hmark : isBlank commentMark = false := by
    decide
  rw [isComment, line, List.dropWhile_append_of_pos fun d hd => (c.blank d hd).1]
  simp [hmark]

/-- Each line of a text that is a comment is one in its place. -/
theorem exists_of_isComment {text : String} {line : List Char} {i : Nat}
    (hline : (lines text.toList)[i]? = some line) (hcomment : isComment line = true) :
    ∃ c : Comment, c.text = text ∧ c.line = line ∧ c.index = i := by
  obtain ⟨p, rfl, hfill⟩ := exists_place (by simp) hline
  obtain ⟨note, hnote⟩ := List.head?_eq_some_iff.mp (by simpa [isComment] using hcomment)
  have hcut : line.takeWhile isBlank ++ commentMark :: note = line := by
    rw [← hnote, List.takeWhile_append_dropWhile]
  have hplain : ∀ d ∈ line, isLineEnd d = false :=
    isLineEnd_of_mem_lines (List.mem_of_getElem? hline)
  rw [← hcut, List.forall_mem_append, List.forall_mem_cons] at hplain
  obtain ⟨hblanks, _, hnoted⟩ := hplain
  refine ⟨⟨p, line.takeWhile isBlank, note,
    fun d hd => ⟨List.mem_takeWhile_imp hd, hblanks d hd⟩, hnoted⟩, ?_, hcut, rfl⟩
  rw [Comment.text, Comment.line, hcut, hfill]
  simp

end Comment

/-! ## Tokens -/

namespace Token

/-- Whatever a comment says, the lines around it have the same tokens in the same places. -/
theorem scan_annotate (c : Comment) {note : List Char} (h : ∀ d ∈ note, isLineEnd d = false) :
    scan (c.annotate note h).text = scan c.text := by
  obtain ⟨after, hlines⟩ := c.lines_fill
  have hscan (d : Comment) (hplace : d.toPlace = c.toPlace) : scan d.text =
      scanLines 1 (lines c.front) ++ scanLines (1 + (lines c.front).length + 1) after := by
    have hcomment (number : Nat) : scanLines number [d.line] = [] := by
      simp [scanLines, d.isComment_line]
    rw [scan_eq_scanLines, Comment.text, String.toList_ofList, hplace,
      hlines d.line d.line_ne_nil d.line_plain, scanLines_append, ← List.singleton_append,
      scanLines_append, hcomment, List.nil_append]
    rfl
  rw [hscan (c.annotate note h) rfl, hscan c rfl]

/-- A text is scanned line by line: joined texts have the tokens of the first and then those of the
second, as many lines further down as the first has, and no token depends on what a comment says,
whichever line of the text is the comment. -/
theorem scan_by_lines :
    (∀ a b : String, scan (a ++ "\n" ++ b) =
      scan a ++ (scan b).map (raise (lines (a ++ "\n").toList).length)) ∧
    (∀ (c : Comment) (note : List Char) (h : ∀ d ∈ note, isLineEnd d = false),
      scan (c.annotate note h).text = scan c.text) ∧
    ∀ (text : String) (i : Nat) (line : List Char), (lines text.toList)[i]? = some line →
      isComment line = true → ∃ c : Comment, c.text = text ∧ c.line = line ∧ c.index = i :=
  ⟨scan_append_newline, fun c _ h => scan_annotate c h,
    fun _ _ _ hline hcomment => Comment.exists_of_isComment hline hcomment⟩

/-- A comment above a statement. -/
def noteAbove : Comment where
  front := []
  back := "\nwrite 1".toList
  opens := by simp
  closes := by simp [isLineEnd, within, lineEndRanges]
  blanks := []
  note := "above".toList
  blank := by simp
  plain := by simp [isLineEnd, within, lineEndRanges]

theorem scan_by_lines_of_note :
    (∃ h, scan (noteAbove.annotate "below".toList h).text = scan noteAbove.text) ∧
      ∃ c : Comment, c.text = "#above\nwrite 1" ∧ c.line = "#above".toList ∧ c.index = 0 := by
  have hplain : ∀ d ∈ "below".toList, isLineEnd d = false := by
    simp [isLineEnd, within, lineEndRanges]
  exact ⟨⟨hplain, scan_by_lines.2.1 noteAbove "below".toList hplain⟩,
    scan_by_lines.2.2 "#above\nwrite 1" 0 "#above".toList (by decide) (by decide)⟩

end Token

end TopDown
