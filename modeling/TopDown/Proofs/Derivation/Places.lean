import Mathlib.Data.Nat.Find
import TopDown.Proofs.Derivation.Declarations

/-!
# Declarations by their place

The tokens that are declared, found by the places in which they stand, and the list that keeps the
first token of each name.
-/

namespace TopDown

namespace Token

variable {tokens : List Token} {t u : Token} {i n : Nat}

/-- The token in the place `i` is an identifier, and the token before it is `var`. -/
def DeclaresAt (tokens : List Token) (i : Nat) (t : Token) : Prop :=
  ∃ v, v.kind = .kwVar ∧ 0 < i ∧ tokens[i - 1]? = some v ∧ tokens[i]? = some t ∧
    t.kind = .identifier

/-- The token is the first declaration of the name. -/
def FirstDeclares (tokens : List Token) (name : String) (t : Token) : Prop :=
  ∃ i, DeclaresAt tokens i t ∧ t.lexeme = name ∧
    ∀ j u, j < i → DeclaresAt tokens j u → u.lexeme ≠ name

/-- The list without the tokens whose lexeme is that of an earlier one. -/
def firsts (tokens : List Token) : List Token :=
  tokens.eraseDupsBy fun t u => t.lexeme = u.lexeme

theorem lastKind_eq (previous : Kind) (ts : List Token) :
    lastKind previous ts = (ts.getLast?.map kind).getD previous := by
  induction ts generalizing previous with
  | nil => rfl
  | cons t ts ih =>
    rw [lastKind, ih, List.getLast?_cons]
    cases ts.getLast? <;> rfl

/-- A declaration splits the tokens where `var` was the last one. -/
theorem declaresAt_iff : DeclaresAt tokens i t ↔
    ∃ front back, tokens = front ++ t :: back ∧ front.length = i ∧
      lastKind .endOfInput front = .kwVar ∧ t.kind = .identifier := by
  constructor
  · rintro ⟨v, hv, hpos, hbefore, ht, hkind⟩
    obtain ⟨hlt, hget⟩ := List.getElem?_eq_some_iff.mp ht
    refine ⟨tokens.take i, tokens.drop (i + 1), ?_, ?_, ?_, hkind⟩
    · rw [← hget, List.getElem_cons_drop, List.take_append_drop]
    · exact List.length_take_of_le (Nat.le_of_lt hlt)
    · rw [lastKind_eq, List.getLast?_take, if_neg (by omega), hbefore]
      exact hv
  · rintro ⟨front, back, rfl, rfl, hlast, hkind⟩
    have hne : front ≠ [] := by
      rintro rfl
      cases hlast
    rw [lastKind_eq, List.getLast?_eq_some_getLast hne] at hlast
    have hpos := List.length_pos_iff.mpr hne
    refine ⟨front.getLast hne, hlast, hpos, ?_, by simp, hkind⟩
    rw [List.getElem?_append_left (by omega), ← List.getLast?_eq_getElem?]
    exact List.getLast?_eq_some_getLast hne

theorem declaresAt_take_iff : DeclaresAt (tokens.take n) i t ↔ i < n ∧ DeclaresAt tokens i t := by
  constructor
  · rintro ⟨v, hv, hpos, hbefore, ht, hkind⟩
    have hlt : i < n := by
      by_contra hle
      rw [List.getElem?_take, if_neg hle] at ht
      cases ht
    rw [List.getElem?_take_of_lt (by omega)] at hbefore ht
    exact ⟨hlt, v, hv, hpos, hbefore, ht, hkind⟩
  · rintro ⟨hlt, v, hv, hpos, hbefore, ht, hkind⟩
    refine ⟨v, hv, hpos, ?_, ?_, hkind⟩
    · rwa [List.getElem?_take_of_lt (by omega)]
    · rwa [List.getElem?_take_of_lt hlt]

/-- What is declared in a place comes after all that is declared before it. -/
theorem DeclaresAt.declared_eq (h : DeclaresAt tokens i t) :
    ∃ after, declared tokens = declared (tokens.take i) ++ t :: after := by
  obtain ⟨front, back, rfl, rfl, hlast, hkind⟩ := declaresAt_iff.mp h
  refine ⟨declaredAfter t.kind back, ?_⟩
  rw [List.take_left, declared_append, declaredAfter, if_pos ⟨hlast, hkind⟩]

/-- A name that is due is declared. -/
theorem declared_concat {front : List Token} (hlast : lastKind .endOfInput front = .kwVar)
    (hkind : t.kind = .identifier) : declared (front ++ [t]) = declared front ++ [t] := by
  rw [declared_append, declaredAfter, if_pos ⟨hlast, hkind⟩, declaredAfter]

/-- What is declared is an identifier after `var`. -/
theorem exists_of_mem_declaredAfter {previous : Kind} (h : t ∈ declaredAfter previous tokens) :
    ∃ front back, tokens = front ++ t :: back ∧ lastKind previous front = .kwVar ∧
      t.kind = .identifier := by
  induction tokens generalizing previous with
  | nil => cases h
  | cons u rest ih =>
    have hlater (hmem : t ∈ declaredAfter u.kind rest) :
        ∃ front back, u :: rest = front ++ t :: back ∧ lastKind previous front = .kwVar ∧
          t.kind = .identifier := by
      obtain ⟨front, back, rfl, hdue⟩ := ih hmem
      exact ⟨u :: front, back, rfl, hdue⟩
    rw [declaredAfter] at h
    split at h
    · next hdue =>
      rcases List.mem_cons.mp h with rfl | hmem
      · exact ⟨[], rest, rfl, hdue⟩
      · exact hlater hmem
    · exact hlater h

theorem mem_declared_iff : t ∈ declared tokens ↔ ∃ i, DeclaresAt tokens i t := by
  constructor
  · intro hmem
    obtain ⟨front, back, hsplit, hdue⟩ := exists_of_mem_declaredAfter hmem
    exact ⟨front.length, declaresAt_iff.mpr ⟨front, back, hsplit, rfl, hdue⟩⟩
  · rintro ⟨i, h⟩
    obtain ⟨after, hafter⟩ := h.declared_eq
    simp [hafter]

/-- Of two declarations in a list that declares no name twice the lexemes differ. -/
theorem DeclaresAt.lexeme_ne {j : Nat} (hnames : ((declared tokens).map lexeme).Nodup)
    (hu : DeclaresAt tokens j u) (ht : DeclaresAt tokens i t) (hlt : j < i) :
    u.lexeme ≠ t.lexeme := by
  obtain ⟨after, hafter⟩ := ht.declared_eq
  have hmem : u ∈ declared (tokens.take i) :=
    mem_declared_iff.mpr ⟨j, declaresAt_take_iff.mpr ⟨hlt, hu⟩⟩
  rw [hafter, List.map_append, List.nodup_append] at hnames
  exact hnames.2.2 _ (List.mem_map_of_mem hmem) _ (by simp)

/-- The first declaration of a name is the one that is found. -/
theorem DeclaresAt.find?_eq {name : String} (ht : DeclaresAt tokens i t) (hname : t.lexeme = name)
    (hfirst : ∀ j u, j < i → DeclaresAt tokens j u → u.lexeme ≠ name) :
    (declared tokens).find? (·.lexeme = name) = some t := by
  obtain ⟨after, hafter⟩ := ht.declared_eq
  have hnone : (declared (tokens.take i)).find? (·.lexeme = name) = none := by
    rw [List.find?_eq_none]
    intro u hu
    obtain ⟨j, hj⟩ := mem_declared_iff.mp hu
    obtain ⟨hlt, hj⟩ := declaresAt_take_iff.mp hj
    simpa using hfirst j u hlt hj
  rw [hafter, List.find?_append, hnone]
  simp [hname]

theorem firstDeclares_of_find? {name : String}
    (h : (declared tokens).find? (·.lexeme = name) = some t) : FirstDeclares tokens name t := by
  classical
  have hplaces : ∃ i u, DeclaresAt tokens i u ∧ u.lexeme = name := by
    obtain ⟨i, hi⟩ := mem_declared_iff.mp (List.mem_of_find?_eq_some h)
    exact ⟨i, t, hi, by simpa using List.find?_some h⟩
  obtain ⟨u, hu, hname⟩ := Nat.find_spec hplaces
  have hfirst (j : Nat) (v : Token) (hj : j < Nat.find hplaces) (hv : DeclaresAt tokens j v) :
      v.lexeme ≠ name := fun hsame => Nat.find_min hplaces hj ⟨v, hv, hsame⟩
  obtain rfl : t = u := Option.some.inj (h.symm.trans (hu.find?_eq hname hfirst))
  exact ⟨_, hu, hname, hfirst⟩

/-! ## First declarations -/

theorem firsts_cons (t : Token) (rest : List Token) :
    firsts (t :: rest) = t :: firsts (rest.filter (·.lexeme ≠ t.lexeme)) := by
  simp [firsts, List.eraseDupsBy_cons]

theorem filter_lexeme_ne (h : t.lexeme ∉ tokens.map lexeme) :
    tokens.filter (·.lexeme ≠ t.lexeme) = tokens := by
  rw [List.filter_eq_self]
  intro u hu
  rw [decide_eq_true_eq]
  exact fun hsame => h (hsame ▸ List.mem_map_of_mem hu)

theorem firsts_of_nodup (h : (tokens.map lexeme).Nodup) : firsts tokens = tokens := by
  induction tokens with
  | nil => rfl
  | cons u rest ih =>
    obtain ⟨hfresh, hrest⟩ := List.nodup_cons.mp h
    rw [firsts_cons, filter_lexeme_ne hfresh, ih hrest]

/-- A token whose lexeme is there already is left out. -/
theorem firsts_concat_of_mem (h : (tokens.map lexeme).Nodup) (hmem : t.lexeme ∈ tokens.map lexeme) :
    firsts (tokens ++ [t]) = tokens := by
  induction tokens with
  | nil => cases hmem
  | cons u rest ih =>
    obtain ⟨hfresh, hrest⟩ := List.nodup_cons.mp h
    rw [List.cons_append, firsts_cons, List.filter_append, filter_lexeme_ne hfresh]
    by_cases hsame : t.lexeme = u.lexeme
    · rw [List.filter_cons_of_neg (by simp [hsame]), List.filter_nil, List.append_nil,
        firsts_of_nodup hrest]
    · have hlater : t.lexeme ∈ rest.map lexeme := by simpa [hsame] using hmem
      rw [List.filter_cons_of_pos (by simp [hsame]), List.filter_nil, ih hrest hlater]

example : firsts [⟨.identifier, "x", 1, 5⟩, ⟨.identifier, "y", 2, 5⟩, ⟨.identifier, "x", 3, 5⟩] =
    [⟨.identifier, "x", 1, 5⟩, ⟨.identifier, "y", 2, 5⟩] := by
  decide

end Token

end TopDown
