import Mathlib.Data.List.Basic
import Mathlib.Data.String.Basic
import TopDown.Session

/-!
# Expected kinds in messages

The message of a mismatch names the kinds that were expected, one by itself and several set apart by
commas, and then what was found. The kinds can be told from the message: their names are words
without a comma or a space.
-/

namespace TopDown

/-- The message says that the kinds were expected, and what was found. -/
def Failure.Expects (f : Failure) (kinds : List Kind) : Prop :=
  let names := ", ".intercalate (kinds.map Kind.name)
  let found := Fault.describeFound f.token
  (kinds.length = 1 ∧ f.message = s!"expected {names} but found {found}") ∨
    f.message = s!"expected one of {names} but found {found}"

/-! ## Names in a row -/

namespace Text

variable {c : Char} {between part : List Char} {parts others : List (List Char)}

theorem intercalate_cons (between part : List Char) (parts : List (List Char)) :
    between.intercalate (part :: parts) = part ++ parts.flatMap (between ++ ·) := by
  induction parts generalizing part with
  | nil => simp
  | cons next parts ih =>
    rw [List.intercalate_cons_cons, ih, List.flatMap_cons, List.append_assoc, List.append_assoc]

/-- A part ends before the first character of what comes after it. -/
theorem takeWhile_append_flatMap (hpart : c ∉ part) :
    (part ++ parts.flatMap (c :: between ++ ·)).takeWhile (· ≠ c) = part := by
  have hall : ∀ a ∈ part, decide (a ≠ c) = true := fun a ha => by
    simpa using ne_of_mem_of_not_mem ha hpart
  rw [List.takeWhile_append_of_pos hall]
  cases parts with
  | nil => simp
  | cons next parts => simp

theorem append_flatMap_inj {other : List Char} (hpart : c ∉ part) (hother : c ∉ other)
    (h : part ++ parts.flatMap (c :: between ++ ·) =
      other ++ others.flatMap (c :: between ++ ·)) :
    part = other ∧ parts.flatMap (c :: between ++ ·) = others.flatMap (c :: between ++ ·) := by
  have hsame : part = other :=
    calc
      part = (part ++ parts.flatMap (c :: between ++ ·)).takeWhile (· ≠ c) :=
        (takeWhile_append_flatMap hpart).symm
      _ = (other ++ others.flatMap (c :: between ++ ·)).takeWhile (· ≠ c) := by rw [h]
      _ = other := takeWhile_append_flatMap hother
  subst hsame
  exact ⟨rfl, List.append_cancel_left h⟩

theorem eq_of_flatMap (hparts : ∀ part ∈ parts, c ∉ part) (hothers : ∀ part ∈ others, c ∉ part)
    (h : parts.flatMap (c :: between ++ ·) = others.flatMap (c :: between ++ ·)) :
    parts = others := by
  induction parts generalizing others with
  | nil =>
    cases others with
    | nil => rfl
    | cons other others => simp at h
  | cons part parts ih =>
    cases others with
    | nil => simp at h
    | cons other others =>
      obtain ⟨hpart, hrest⟩ := List.forall_mem_cons.mp hparts
      obtain ⟨hother, hrest'⟩ := List.forall_mem_cons.mp hothers
      rw [List.flatMap_cons, List.flatMap_cons, List.append_assoc, List.append_assoc,
        List.append_cancel_left_eq] at h
      obtain ⟨rfl, hsame⟩ := append_flatMap_inj hpart hother h
      rw [ih hrest hrest' hsame]

/-- Parts without the first character of what stands between them are told apart. -/
theorem eq_of_intercalate (hparts : ∀ part ∈ parts, part ≠ [] ∧ c ∉ part)
    (hothers : ∀ part ∈ others, part ≠ [] ∧ c ∉ part)
    (h : (c :: between).intercalate parts = (c :: between).intercalate others) :
    parts = others := by
  cases parts with
  | nil =>
    cases others with
    | nil => rfl
    | cons other others =>
      rw [intercalate_cons] at h
      exact absurd (List.append_eq_nil_iff.mp h.symm).1 (hothers _ List.mem_cons_self).1
  | cons part parts =>
    cases others with
    | nil =>
      rw [intercalate_cons] at h
      exact absurd (List.append_eq_nil_iff.mp h).1 (hparts _ List.mem_cons_self).1
    | cons other others =>
      obtain ⟨hpart, hrest⟩ := List.forall_mem_cons.mp hparts
      obtain ⟨hother, hrest'⟩ := List.forall_mem_cons.mp hothers
      rw [intercalate_cons, intercalate_cons] at h
      obtain ⟨rfl, hsame⟩ := append_flatMap_inj hpart.2 hother.2 h
      rw [eq_of_flatMap (fun p hp => (hrest p hp).2) (fun p hp => (hrest' p hp).2) hsame]

end Text

namespace Kind

/-- The name of a kind is a word. -/
theorem word_name (k : Kind) : k.name.toList ≠ [] ∧ ',' ∉ k.name.toList ∧ ' ' ∉ k.name.toList := by
  cases k <;> decide

theorem name_injective {k k' : Kind} (h : k.name = k'.name) : k = k' := by
  have hcheck : ∀ k ∈ all, ∀ k' ∈ all, k.name = k'.name → k = k' := by
    decide +kernel
  exact hcheck k k.mem_all k' k'.mem_all h

/-- Kinds are told from their names in a row. -/
theorem eq_of_intercalate_name {kinds others : List Kind}
    (h : ", ".intercalate (kinds.map name) = ", ".intercalate (others.map name)) :
    kinds = others := by
  have hword (kinds : List Kind) :
      ∀ part ∈ (kinds.map name).map String.toList, part ≠ [] ∧ ',' ∉ part := by
    intro part hpart
    obtain ⟨_, hname, rfl⟩ := List.mem_map.mp hpart
    obtain ⟨k, _, rfl⟩ := List.mem_map.mp hname
    exact ⟨k.word_name.1, k.word_name.2.1⟩
  have hlists := congrArg String.toList h
  rw [String.toList_intercalate, String.toList_intercalate] at hlists
  have hparts := Text.eq_of_intercalate (hword kinds) (hword others) hlists
  rw [List.map_map, List.map_map] at hparts
  refine List.map_injective_iff.mpr ?_ hparts
  exact fun k k' hname => name_injective (String.toList_injective hname)

end Kind

/-! ## Messages -/

namespace Failure

/-- One kind is named by a word, and a list of kinds comes after two more. -/
theorem name_ne_list {kinds others : List Kind} (hone : kinds.length = 1) :
    "expected " ++ ", ".intercalate (kinds.map Kind.name) ≠
      "expected one of " ++ ", ".intercalate (others.map Kind.name) := by
  obtain ⟨k, rfl⟩ := List.length_eq_one_iff.mp hone
  have hfront : "expected one of " = "expected " ++ "one of " := by decide
  rw [hfront, String.append_assoc, ne_eq, String.append_right_inj, List.map_singleton,
    String.intercalate_singleton]
  intro h
  apply k.word_name.2.2
  rw [h, String.toList_append]
  simp

/-- A message says of one list of kinds that they were expected. -/
theorem Expects.unique {f : Failure} {kinds others : List Kind} (h : f.Expects kinds)
    (h' : f.Expects others) : kinds = others := by
  have hcut {first second : String}
      (hfirst : f.message = first ++ " but found " ++ Fault.describeFound f.token)
      (hsecond : f.message = second ++ " but found " ++ Fault.describeFound f.token) :
      first = second := by
    have hsame := hfirst.symm.trans hsecond
    rwa [String.append_left_inj, String.append_left_inj] at hsame
  apply Kind.eq_of_intercalate_name
  rcases h with ⟨hone, h⟩ | h
  · rcases h' with ⟨_, h'⟩ | h'
    · exact (String.append_right_inj _).mp (hcut h h')
    · exact absurd (hcut h h') (name_ne_list hone)
  · rcases h' with ⟨hone', h'⟩ | h'
    · exact absurd (hcut h' h) (name_ne_list hone')
    · exact (String.append_right_inj _).mp (hcut h h')

end Failure

/-- The message of a mismatch says what the fault expects. -/
theorem Fault.expects {f : Fault} (hf : ¬ ∃ r, f = .redeclared r) (node : Nat) :
    (f.toFailure node).Expects f.expected := by
  cases f with
  | unexpected kind found =>
    refine Or.inl ⟨rfl, ?_⟩
    show _ = "expected " ++ ", ".intercalate [kind.name] ++ " but found " ++ describeFound found
    rw [String.intercalate_singleton]
    rfl
  | noAlternative kinds found => exact Or.inr rfl
  | redeclared r => exact absurd ⟨r, rfl⟩ hf

end TopDown
