import TopDown.Proofs.Lexicon.Lexeme
import TopDown.Proofs.Render.Reader

/-!
# Documents are read back

However a document is laid out, its text has the same words: the layout only puts spaces and line
feeds between them. On the stack of open brackets the words of a document amount to one value, so
that the text of a document is read as the document. The text is printable ASCII but for line feeds.
-/

namespace TopDown

namespace Document

/-! ## Words of a document -/

mutual
/-- The words of a document. -/
def spell : Document → List Word
  | .null => [.scalar .null]
  | .bool value => [.scalar (.bool value)]
  | .number n => [.scalar (.number n)]
  | .text s => [.scalar (.text s)]
  | .list items => .openList :: [Word.comma].intercalate (spellItems items) ++ [.closeList]
  | .record fields =>
    .openRecord :: [Word.comma].intercalate (spellFields fields) ++ [.closeRecord]
def spellItems : List Document → List (List Word)
  | [] => []
  | item :: rest => spell item :: spellItems rest
def spellFields : List (String × Document) → List (List Word)
  | [] => []
  | (key, value) :: rest => (.scalar (.text key) :: .colon :: spell value) :: spellFields rest
end

theorem words_skip (skip : Nat) (text : List Char) :
    words skip text = words 0 (text.drop skip) := by
  induction text generalizing skip with
  | nil => cases skip <;> rfl
  | cons c rest ih =>
    cases skip with
    | zero => rfl
    | succ skip => exact ih skip

theorem words_space {c : Char} (hc : isSpace c = true) (rest : List Char) :
    words 0 (c :: rest) = words 0 rest := by
  rw [words, if_pos hc]

theorem words_first {c : Char} {body rest : List Char} {word : Word} (hc : isSpace c = false)
    (h : Word.first? (c :: body ++ rest) = some (word, rest)) :
    words 0 (c :: body ++ rest) = (words 0 rest).map (word :: ·) := by
  have hskip : words ((body ++ rest).length - rest.length) (body ++ rest) = words 0 rest := by
    rw [words_skip, List.length_append, Nat.add_sub_cancel, List.drop_left]
  rw [List.cons_append] at h ⊢
  rw [words, if_neg (by simp [hc]), h]
  simp only [Option.bind_eq_bind, Option.bind_some, hskip]
  cases words 0 rest <;> rfl

/-- A text that a word ends before: it does not go on with a digit. -/
def Ends (rest : List Char) : Prop :=
  ∀ c ∈ rest.head?, c.isDigit = false

/-- The text `chars` has the words `list`, whatever it ends before. -/
def Spells (chars : List Char) (list : List Word) : Prop :=
  ∀ rest, Ends rest → words 0 (chars ++ rest) = (words 0 rest).map (list ++ ·)

theorem spells_first {c : Char} {body : List Char} {word : Word} (hc : isSpace c = false)
    (h : ∀ rest, Ends rest → Word.first? (c :: body ++ rest) = some (word, rest)) :
    Spells (c :: body) [word] :=
  fun rest hrest => words_first hc (h rest hrest)

theorem digit_ne {c d : Char} (hc : c.isDigit = true) (hd : d.isDigit = false) : c ≠ d :=
  fun h => by simp [h, hd] at hc

theorem spells_number (n : Nat) : Spells (toString n).toList [.scalar (.number n)] := by
  obtain ⟨c, body, hdigits⟩ := List.exists_cons_of_ne_nil (Nat.toDigits_ne_nil (b := 10) (n := n))
  have hc : c.isDigit = true := by
    refine Nat.isDigit_of_mem_toDigits (b := 10) (n := n) (by decide) (by decide) ?_
    simp [hdigits]
  have hspace : isSpace c = false := by
    simp [isSpace, digit_ne hc (d := ' ') rfl, digit_ne hc (d := '\n') rfl,
      digit_ne hc (d := '\r') rfl, digit_ne hc (d := '\t') rfl]
  rw [Nat.toString_eq_ofList_toDigits, String.toList_ofList, hdigits]
  refine spells_first hspace fun rest hrest => ?_
  have hnumber := Word.number?_toDigits n hrest
  rw [hdigits, List.cons_append] at hnumber
  rw [List.cons_append, Word.first?, if_neg (digit_ne hc rfl), if_pos hc, hnumber]

theorem spells_quote (s : String) : Spells (quote s) [.scalar (.text s)] := by
  refine spells_first rfl fun rest _ => ?_
  have hrest : '"' :: (s.toList.flatMap escape ++ ['"']) ++ rest =
      '"' :: (s.toList.flatMap escape ++ '"' :: rest) := by
    simp
  exact (congrArg Word.first? hrest).trans (Word.text?_quote s rest)

/-! ## Layout -/

theorem words_mark {c : Char} {word : Word} (hc : isSpace c = false) {rest : List Char}
    (h : Word.first? (c :: rest) = some (word, rest)) :
    words 0 (c :: rest) = (words 0 rest).map (word :: ·) :=
  @words_first c [] rest word hc h

theorem words_newLine (layout : Layout) (level : Nat) (rest : List Char) :
    words 0 (layout.newLine level ++ rest) = words 0 rest := by
  cases layout with
  | oneLine => rfl
  | spread indent =>
    rw [Layout.newLine, List.cons_append, words_space rfl]
    induction indent.toNat * level with
    | zero => rfl
    | succ count ih => rw [List.replicate_succ, List.cons_append, words_space rfl, ih]

theorem words_separator (layout : Layout) (level : Nat) (rest : List Char) :
    words 0 (layout.separator level ++ rest) = (words 0 rest).map (.comma :: ·) := by
  cases layout with
  | oneLine =>
    rw [Layout.separator, List.cons_append, words_mark rfl rfl, List.cons_append, words_space rfl]
    rfl
  | spread indent =>
    rw [Layout.separator, List.cons_append, words_mark rfl rfl, words_newLine]

theorem ends_separator (layout : Layout) (level : Nat) (rest : List Char) :
    Ends (layout.separator level ++ rest) := by
  cases layout <;> simp [Ends, Layout.separator]

theorem ends_newLine (layout : Layout) (level : Nat) {rest : List Char} (h : Ends rest) :
    Ends (layout.newLine level ++ rest) := by
  cases layout with
  | oneLine => exact h
  | spread indent => simp [Ends, Layout.newLine]

variable {layout : Layout} {level : Nat} {parts : List (List Char)} {lists : List (List Word)}

theorem spells_intercalate (hne : parts ≠ []) (h : List.Forall₂ Spells parts lists) :
    Spells ((layout.separator level).intercalate parts) ([Word.comma].intercalate lists) := by
  induction h with
  | nil => exact absurd rfl hne
  | cons hpart hrest ih =>
    cases hrest with
    | nil => simpa using hpart
    | cons hnext hrest =>
      intro rest hends
      have hlater := ih (by simp) rest hends
      rw [List.intercalate_cons_cons, List.intercalate_cons_cons, List.append_assoc,
        List.append_assoc, hpart _ (ends_separator layout level _), words_separator, hlater]
      simp [Function.comp_def]

/-- Items between brackets have the words of the items, with commas between, in the brackets. -/
theorem spells_enclose {opening closing : Char} {first last : Word}
    (hopening : ∀ rest, words 0 (opening :: rest) = (words 0 rest).map (first :: ·))
    (hclosing : ∀ rest, words 0 (closing :: rest) = (words 0 rest).map (last :: ·))
    (hends : closing.isDigit = false) (h : List.Forall₂ Spells parts lists) :
    Spells (layout.enclose level opening closing parts)
      (first :: [Word.comma].intercalate lists ++ [last]) := by
  intro rest _
  cases parts with
  | nil =>
    cases h
    change words 0 (opening :: closing :: rest) = _
    rw [hopening, hclosing]
    simp [Function.comp_def]
  | cons part parts =>
    have hrest : Ends (layout.newLine level ++ closing :: rest) :=
      ends_newLine layout level (by simpa [Ends] using hends)
    have hitems : Spells ((layout.separator (level + 1)).intercalate (part :: parts))
        ([Word.comma].intercalate lists) :=
      spells_intercalate (by simp) h
    rw [Layout.enclose, List.append_assoc, List.append_assoc, List.append_assoc, List.cons_append,
      hopening, words_newLine, List.singleton_append, hitems _ hrest, words_newLine, hclosing]
    · simp [Function.comp_def]
    · simp

theorem spells_field {key : String} {chars : List Char} {list : List Word}
    (h : Spells chars list) :
    Spells (quote key ++ ':' :: ' ' :: chars) (.scalar (.text key) :: .colon :: list) := by
  intro rest hrest
  have hkey := spells_quote key (':' :: ' ' :: chars ++ rest) (by simp [Ends])
  rw [List.append_assoc, hkey, List.cons_append, words_mark rfl rfl, List.cons_append,
    words_space rfl, h rest hrest]
  simp [Function.comp_def]

mutual
/-- The words of a document are in its text, however it is laid out. -/
theorem spells_write (layout : Layout) (level : Nat) :
    ∀ d : Document, Spells (d.write layout level) d.spell
  | .null => spells_first (c := 'n') rfl fun _ _ => rfl
  | .bool true => spells_first (c := 't') rfl fun _ _ => rfl
  | .bool false => spells_first (c := 'f') rfl fun _ _ => rfl
  | .number n => spells_number n
  | .text s => spells_quote s
  | .list items =>
    spells_enclose (fun _ => words_mark rfl rfl) (fun _ => words_mark rfl rfl) rfl
      (spells_writeItems layout (level + 1) items)
  | .record fields =>
    spells_enclose (fun _ => words_mark rfl rfl) (fun _ => words_mark rfl rfl) rfl
      (spells_writeFields layout (level + 1) fields)
theorem spells_writeItems (layout : Layout) (level : Nat) :
    ∀ items : List Document, List.Forall₂ Spells (writeItems layout level items) (spellItems items)
  | [] => .nil
  | item :: rest => .cons (spells_write layout level item) (spells_writeItems layout level rest)
theorem spells_writeFields (layout : Layout) (level : Nat) :
    ∀ fields : List (String × Document),
      List.Forall₂ Spells (writeFields layout level fields) (spellFields fields)
  | [] => .nil
  | (_, value) :: rest =>
    .cons (spells_field (spells_write layout level value)) (spells_writeFields layout level rest)
end

/-! ## The stack of brackets -/

mutual
/-- The words of a document amount to one value. -/
theorem foldlM_spell (stack : List Frame) :
    ∀ d : Document, d.spell.foldlM Reading.step (stack, none) = some (stack, some d)
  | .null => rfl
  | .bool _ => rfl
  | .number _ => rfl
  | .text _ => rfl
  | .list [] => rfl
  | .list (item :: rest) => foldlM_spellItems stack [] (item :: rest) (by simp)
  | .record [] => rfl
  | .record (field :: rest) => foldlM_spellFields stack [] (field :: rest) (by simp)
theorem foldlM_spellItems (stack : List Frame) (done : List Document) :
    ∀ items : List Document, items ≠ [] →
      ([Word.comma].intercalate (spellItems items) ++ [Word.closeList]).foldlM Reading.step
        (.list done :: stack, none) = some (stack, some (.list (done.reverse ++ items)))
  | [], h => absurd rfl h
  | [item], _ => by
    rw [spellItems, spellItems, List.intercalate_singleton, List.foldlM_append, foldlM_spell]
    simp [Reading.step]
  | item :: next :: rest, _ => by
    have hlater := foldlM_spellItems stack (item :: done) (next :: rest) (by simp)
    rw [spellItems] at hlater ⊢
    rw [spellItems, List.intercalate_cons_cons, List.append_assoc, List.append_assoc,
      List.foldlM_append, foldlM_spell]
    simpa [Reading.step] using hlater
theorem foldlM_spellFields (stack : List Frame) (done : List (String × Document)) :
    ∀ fields : List (String × Document), fields ≠ [] →
      ([Word.comma].intercalate (spellFields fields) ++ [Word.closeRecord]).foldlM Reading.step
        (.record done :: stack, none) = some (stack, some (.record (done.reverse ++ fields)))
  | [], h => absurd rfl h
  | [(key, value)], _ => by
    rw [spellFields, spellFields, List.intercalate_singleton, List.foldlM_append]
    simp [Reading.step, foldlM_spell]
  | (key, value) :: next :: rest, _ => by
    have hlater := foldlM_spellFields stack ((key, value) :: done) (next :: rest) (by simp)
    rw [spellFields] at hlater ⊢
    rw [spellFields, List.intercalate_cons_cons, List.append_assoc, List.append_assoc,
      List.foldlM_append]
    simpa [Reading.step, foldlM_spell] using hlater
end

/-- The text of a document is read as the document, however it is laid out. -/
theorem read?_write (d : Document) (layout : Layout) :
    read? (String.ofList (d.write layout 0)) = some d := by
  have hwords := spells_write layout 0 d [] (by simp [Ends])
  rw [List.append_nil] at hwords
  have hlist : words 0 (d.write layout 0) = some d.spell := by
    simpa [words] using hwords
  rw [read?, String.toList_ofList, hlist]
  simp [foldlM_spell]

example : read? " [ \"\\u0041\\uD83d\\ude00\\/\", \x7b\"a\":12 \x7d ] " =
    some (.list [.text "A😀/", .record [("a", .number 12)]]) := by cbv

example : read? "[1, 02]" = none := by rfl

example : read? "[\"\\ud83d\"]" = none := by rfl

/-! ## Characters -/

/-- A line feed or a printable ASCII character. -/
def Plain (c : Char) : Prop :=
  c = '\n' ∨ (0x20 ≤ c.toNat ∧ c.toNat ≤ 0x7E)

instance : DecidablePred Plain := fun c =>
  inferInstanceAs (Decidable (c = '\n' ∨ (0x20 ≤ c.toNat ∧ c.toNat ≤ 0x7E)))

theorem plain_of_all {chars : List Char} (h : chars.all (fun c => decide (Plain c)) = true) :
    ∀ c ∈ chars, Plain c :=
  fun c hc => of_decide_eq_true (List.all_eq_true.mp h c hc)

theorem plain_hex (width n : Nat) : ∀ c ∈ Text.hex width n, Plain c := by
  have hdigits : ∀ n < 16, Plain (Nat.digitChar n) := by decide
  induction width generalizing n with
  | zero => simp [Text.hex]
  | succ width ih =>
    intro c hc
    rcases List.mem_append.mp hc with hfront | hlast
    · exact ih _ c hfront
    · rw [List.mem_singleton.mp hlast]
      exact hdigits _ (Nat.mod_lt _ (by decide))

theorem plain_escape (c : Char) : ∀ d ∈ escape c, Plain d := by
  unfold escape
  split
  · next hmark => rcases hmark with rfl | rfl <;> exact plain_of_all rfl
  iterate 5
    split
    · exact plain_of_all rfl
  split
  · next hplain =>
    intro d hd
    rw [List.mem_singleton.mp hd]
    exact .inr hplain
  · intro d hd
    obtain ⟨unit, _, hunit⟩ := List.mem_flatMap.mp hd
    rcases List.mem_cons.mp hunit with rfl | hunit
    · decide
    rcases List.mem_cons.mp hunit with rfl | hunit
    · decide
    · exact plain_hex 4 unit d hunit

theorem plain_quote (s : String) : ∀ c ∈ quote s, Plain c := by
  simp only [quote, List.cons_append, List.mem_cons, List.mem_append, List.mem_flatMap]
  rintro c (rfl | ⟨d, _, hc⟩ | rfl | hc)
  · decide
  · exact plain_escape d c hc
  · decide
  · cases hc

theorem plain_number (n : Nat) : ∀ c ∈ (toString n).toList, Plain c := by
  intro c hc
  rw [Nat.toString_eq_ofList_toDigits, String.toList_ofList] at hc
  have hdigit := Nat.isDigit_of_mem_toDigits (by decide) (by decide) hc
  obtain ⟨hlow, hhigh⟩ := Lexeme.isDigit_iff.mp hdigit
  exact .inr (by omega)

theorem plain_newLine (layout : Layout) (level : Nat) : ∀ c ∈ layout.newLine level, Plain c := by
  cases layout with
  | oneLine => exact nofun
  | spread indent =>
    intro c hc
    rcases List.mem_cons.mp hc with rfl | hspace
    · decide
    · rw [(List.mem_replicate.mp hspace).2]
      decide

theorem plain_separator (layout : Layout) (level : Nat) :
    ∀ c ∈ layout.separator level, Plain c := by
  cases layout with
  | oneLine => exact plain_of_all rfl
  | spread indent =>
    intro c hc
    rcases List.mem_cons.mp hc with rfl | hline
    · decide
    · exact plain_newLine _ level c hline

theorem plain_intercalate (hparts : ∀ part ∈ parts, ∀ c ∈ part, Plain c) :
    ∀ c ∈ (layout.separator level).intercalate parts, Plain c := by
  induction parts with
  | nil => exact nofun
  | cons part parts ih =>
    cases parts with
    | nil => simpa using hparts
    | cons next parts =>
      intro c hc
      rw [List.intercalate_cons_cons, List.mem_append, List.mem_append] at hc
      rcases hc with (hpart | hseparator) | hlater
      · exact hparts part (by simp) c hpart
      · exact plain_separator layout level c hseparator
      · exact ih (fun part hpart => hparts part (by simp [hpart])) c hlater

theorem plain_enclose {opening closing : Char} (hopening : Plain opening)
    (hclosing : Plain closing) (hparts : ∀ part ∈ parts, ∀ c ∈ part, Plain c) :
    ∀ c ∈ layout.enclose level opening closing parts, Plain c := by
  cases parts with
  | nil =>
    rintro c hc
    rcases List.mem_cons.mp hc with rfl | hc
    · exact hopening
    · rw [List.mem_singleton.mp hc]
      exact hclosing
  | cons part parts =>
    intro c hc
    simp only [Layout.enclose, List.cons_append, List.mem_cons, List.mem_append,
      List.not_mem_nil, or_false] at hc
    rcases hc with rfl | ((hline | hitems) | hline) | rfl
    · exact hopening
    · exact plain_newLine layout _ c hline
    · exact plain_intercalate hparts c hitems
    · exact plain_newLine layout _ c hline
    · exact hclosing

theorem plain_field {key : String} {chars : List Char} (h : ∀ c ∈ chars, Plain c) :
    ∀ c ∈ quote key ++ ':' :: ' ' :: chars, Plain c := by
  simp only [List.mem_append, List.mem_cons]
  rintro c (hkey | rfl | rfl | hc)
  · exact plain_quote key c hkey
  · decide
  · decide
  · exact h c hc

mutual
/-- The text of a document is printable ASCII but for its line feeds. -/
theorem plain_write (layout : Layout) (level : Nat) :
    ∀ d : Document, ∀ c ∈ d.write layout level, Plain c
  | .null => plain_of_all rfl
  | .bool true => plain_of_all rfl
  | .bool false => plain_of_all rfl
  | .number n => plain_number n
  | .text s => plain_quote s
  | .list items => plain_enclose (by decide) (by decide) (plain_writeItems layout (level + 1) items)
  | .record fields =>
    plain_enclose (by decide) (by decide) (plain_writeFields layout (level + 1) fields)
theorem plain_writeItems (layout : Layout) (level : Nat) :
    ∀ items : List Document, ∀ part ∈ writeItems layout level items, ∀ c ∈ part, Plain c
  | [] => nofun
  | item :: rest =>
    List.forall_mem_cons.mpr ⟨plain_write layout level item, plain_writeItems layout level rest⟩
theorem plain_writeFields (layout : Layout) (level : Nat) :
    ∀ fields : List (String × Document),
      ∀ part ∈ writeFields layout level fields, ∀ c ∈ part, Plain c
  | [] => nofun
  | (_, value) :: rest =>
    List.forall_mem_cons.mpr
      ⟨plain_field (plain_write layout level value), plain_writeFields layout level rest⟩
end

end Document

end TopDown
