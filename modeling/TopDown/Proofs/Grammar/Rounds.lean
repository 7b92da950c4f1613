import Mathlib.Data.List.Infix

/-!
# Rounds in place

A set can be found by going over a list of clauses again and again. Each clause marks its target as
soon as what is marked passes its test, so that the clauses after it see the new mark in the same
round. A round that changes something marks the target of a clause for the first time, hence the
rounds come to an end. What they leave is closed under the clauses and holds nothing else than what
the clauses lead to.
-/

namespace TopDown

/-- `target` belongs to the set if what belongs passes `test`. -/
structure Clause (α : Type) where
  target : α
  test : (α → Bool) → Bool

variable {α : Type} [BEq α]

/-- Marks the target if the marked elements pass the test. -/
def Clause.apply (c : Clause α) (marked : List α) : List α :=
  if c.test marked.contains then marked.insert c.target else marked

/-- Goes over the clauses once. -/
def goOver : (clauses : List (Clause α)) → (marked : List α) → List α
  | [], marked => marked
  | c :: clauses, marked => goOver clauses (c.apply marked)

/-- Going over the clauses until this changes nothing leads from `marked` to `result`. -/
inductive Settles (clauses : List (Clause α)) : (marked result : List α) → Prop
  | still {marked : List α} (h : goOver clauses marked = marked) : Settles clauses marked marked
  | again {marked result : List α} (h : goOver clauses marked ≠ marked)
      (hrest : Settles clauses (goOver clauses marked) result) : Settles clauses marked result

/-- If elements with the property pass the test of a clause then its target has the property. -/
def Hereditary (clauses : List (Clause α)) (P : α → Prop) : Prop :=
  ∀ c ∈ clauses, ∀ marked : α → Bool, (∀ a, marked a = true → P a) → c.test marked = true →
    P c.target

variable {clauses : List (Clause α)} {c : Clause α} {marked result : List α} {P : α → Prop}

/-! ## Marks stay -/

theorem suffix_apply : marked <:+ c.apply marked := by
  unfold Clause.apply List.insert
  split
  · split
    · exact List.suffix_rfl
    · exact List.suffix_cons _ _
  · exact List.suffix_rfl

theorem suffix_goOver : marked <:+ goOver clauses marked := by
  induction clauses generalizing marked with
  | nil => exact List.suffix_rfl
  | cons c clauses ih => exact suffix_apply.trans ih

/-- A round that changes nothing has no clause that changes something. -/
theorem apply_eq_self_of_goOver (h : goOver clauses marked = marked) (hc : c ∈ clauses) :
    c.apply marked = marked := by
  induction clauses with
  | nil => cases hc
  | cons d clauses ih =>
    rw [goOver] at h
    -- The marks after the first clause lie between those before it and those after the round.
    have hshort : (d.apply marked).length ≤ marked.length := by
      calc (d.apply marked).length ≤ (goOver clauses (d.apply marked)).length :=
            suffix_goOver.length_le
        _ = marked.length := by rw [h]
    have hfirst : d.apply marked = marked := (suffix_apply.eq_of_length_le hshort).symm
    rcases List.mem_cons.mp hc with rfl | hlater
    · exact hfirst
    · rw [hfirst] at h
      exact ih h hlater

/-! ## One clause -/

variable [LawfulBEq α]

theorem mem_apply_iff {a : α} :
    a ∈ c.apply marked ↔ a ∈ marked ∨ a = c.target ∧ c.test marked.contains = true := by
  unfold Clause.apply
  split
  · next htest => simp [List.mem_insert_iff, htest, or_comm]
  · next htest => simp [htest]

theorem apply_eq_self_iff :
    c.apply marked = marked ↔ (c.test marked.contains = true → c.target ∈ marked) := by
  constructor
  · intro hsame htest
    rw [← hsame]
    exact mem_apply_iff.mpr (Or.inr ⟨rfl, htest⟩)
  · intro hmem
    unfold Clause.apply
    split
    · next htest => exact List.insert_of_mem (hmem htest)
    · rfl

/-! ## One round -/

/-- A round that changes something marks the target of a clause. -/
theorem exists_marked_of_goOver_ne (h : goOver clauses marked ≠ marked) :
    ∃ c ∈ clauses, c.target ∉ marked ∧ c.target ∈ goOver clauses marked := by
  induction clauses with
  | nil => exact absurd rfl h
  | cons d clauses ih =>
    rw [goOver] at h ⊢
    by_cases hfirst : d.apply marked = marked
    · rw [hfirst] at h ⊢
      obtain ⟨c, hc, hfresh, hmarked⟩ := ih h
      exact ⟨c, List.mem_cons_of_mem d hc, hfresh, hmarked⟩
    · rw [apply_eq_self_iff, Classical.not_imp] at hfirst
      obtain ⟨htest, hfresh⟩ := hfirst
      have hmarked : d.target ∈ d.apply marked := mem_apply_iff.mpr (Or.inr ⟨rfl, htest⟩)
      exact ⟨d, List.mem_cons_self, hfresh, suffix_goOver.subset hmarked⟩

theorem Hereditary.goOver (hP : Hereditary clauses P) (hmarked : ∀ a ∈ marked, P a) :
    ∀ a ∈ goOver clauses marked, P a := by
  induction clauses generalizing marked with
  | nil => exact hmarked
  | cons c clauses ih =>
    obtain ⟨hc, hclauses⟩ := List.forall_mem_cons.mp hP
    apply ih hclauses
    intro a ha
    rcases mem_apply_iff.mp ha with hold | ⟨rfl, htest⟩
    · exact hmarked a hold
    · exact hc marked.contains (fun b hb => hmarked b (List.contains_iff_mem.mp hb)) htest

/-! ## All rounds -/

/-- The clauses whose target is not marked. -/
def unmarked (clauses : List (Clause α)) (marked : List α) : List (Clause α) :=
  clauses.filter (·.target ∉ marked)

/-- A round that changes something leaves fewer targets to mark. -/
theorem length_unmarked_goOver (h : goOver clauses marked ≠ marked) :
    (unmarked clauses (goOver clauses marked)).length < (unmarked clauses marked).length := by
  have hpart : unmarked clauses (goOver clauses marked) =
      (unmarked clauses marked).filter (·.target ∉ goOver clauses marked) := by
    rw [unmarked, unmarked, List.filter_filter]
    apply List.filter_congr
    intro c _
    have hkept : c.target ∈ marked → c.target ∈ goOver clauses marked :=
      fun hold => suffix_goOver.subset hold
    by_cases hafter : c.target ∈ goOver clauses marked
    · simp [hafter]
    · simp [hafter, mt hkept hafter]
  obtain ⟨c, hc, hfresh, hmarked⟩ := exists_marked_of_goOver_ne h
  rw [hpart, List.length_filter_lt_length_iff_exists]
  exact ⟨c, List.mem_filter.mpr ⟨hc, by simpa using hfresh⟩, by simpa using hmarked⟩

/-- The rounds come to an end. -/
theorem exists_settles (clauses : List (Clause α)) (marked : List α) :
    ∃ result, Settles clauses marked result := by
  induction hleft : (unmarked clauses marked).length using Nat.strong_induction_on
    generalizing marked with
  | h left ih =>
    by_cases hsame : goOver clauses marked = marked
    · exact ⟨marked, .still hsame⟩
    · obtain ⟨result, hresult⟩ := ih _ (hleft ▸ length_unmarked_goOver hsame) _ rfl
      exact ⟨result, .again hsame hresult⟩

/-- What the rounds leave is closed under the clauses. -/
theorem Settles.target_mem (h : Settles clauses marked result) (hc : c ∈ clauses)
    (htest : c.test result.contains = true) : c.target ∈ result := by
  induction h with
  | still hsame => exact apply_eq_self_iff.mp (apply_eq_self_of_goOver hsame hc) htest
  | again _ _ ih => exact ih htest

theorem Settles.forall_mem (h : Settles clauses marked result) (hP : Hereditary clauses P)
    (hmarked : ∀ a ∈ marked, P a) : ∀ a ∈ result, P a := by
  induction h with
  | still _ => exact hmarked
  | again _ _ ih => exact ih (hP.goOver hmarked)

end TopDown
