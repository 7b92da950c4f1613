import Mathlib.Data.List.Basic
import TopDown.Grammar.Closure

/-!
# The closure is the least closed set

A round keeps what is marked, and the last round adds nothing: either a step left the marked list as
it was, or there were as many rounds as elements. So the rule yields nothing from the closure that
the closure does not hold. What the rule hands on from the elements it has marked holds of the whole
closure.
-/

namespace TopDown

variable {α : Type} [BEq α] [LawfulBEq α] {domain : List α} {rule : (α → Bool) → α → Bool}

theorem mem_closureStep {marked : List α} {a : α} :
    a ∈ closureStep domain rule marked ↔
      a ∈ domain ∧ (a ∈ marked ∨ rule marked.contains a = true) := by
  simp [closureStep]

/-- A step changes the marked list only by adding to it, in the order of the domain. -/
theorem sublist_closureStep {marked : List α} (hm : marked = domain.filter marked.contains) :
    marked.Sublist (closureStep domain rule marked) := by
  have hmono : (domain.filter marked.contains).Sublist (closureStep domain rule marked) := by
    apply List.monotone_filter_right
    intro a ha
    have hmem : a ∈ marked := List.contains_iff_mem.mp ha
    simp [hmem]
  rwa [← hm] at hmono

/-- The marked list stays in the order of the domain. -/
theorem closureStep_eq_filter (marked : List α) :
    closureStep domain rule marked =
      domain.filter (closureStep domain rule marked).contains := by
  apply List.filter_congr
  intro a ha
  rw [Bool.eq_iff_iff, List.contains_iff_mem, mem_closureStep]
  simp [ha]

/-- With a round for every element that is not yet marked, nothing is missing at the end. -/
theorem closureFrom_closed {rounds : Nat} {marked : List α}
    (hm : marked = domain.filter marked.contains) (hr : domain.length ≤ marked.length + rounds)
    {a : α} (ha : a ∈ domain)
    (hrule : rule (closureFrom domain rule rounds marked).contains a = true) :
    a ∈ closureFrom domain rule rounds marked := by
  induction rounds generalizing marked with
  | zero =>
    have hsub : marked.Sublist domain := by
      rw [hm]
      exact List.filter_sublist
    have hall : marked = domain := hsub.eq_of_length_le (by omega)
    rw [closureFrom, hall]
    exact ha
  | succ rounds ih =>
    have hsub : marked.Sublist (closureStep domain rule marked) := sublist_closureStep hm
    simp only [closureFrom] at hrule ⊢
    split at hrule
    · next hlen =>
      rw [if_pos hlen]
      have hsame : marked = closureStep domain rule marked := hsub.eq_of_length hlen.symm
      rw [hsame, mem_closureStep]
      exact ⟨ha, Or.inr hrule⟩
    · next hlen =>
      rw [if_neg hlen]
      have hle := hsub.length_le
      exact ih (closureStep_eq_filter marked) (by omega) hrule

theorem closureFrom_subset {rounds : Nat} {marked : List α} (hm : marked ⊆ domain) :
    closureFrom domain rule rounds marked ⊆ domain := by
  induction rounds generalizing marked with
  | zero => exact hm
  | succ rounds ih =>
    simp only [closureFrom]
    split
    · exact hm
    · exact ih fun a ha => (mem_closureStep.mp ha).1

theorem closure_subset : closure domain rule ⊆ domain :=
  closureFrom_subset (List.nil_subset domain)

theorem closure_closed {a : α} (ha : a ∈ domain)
    (hrule : rule (closure domain rule).contains a = true) : a ∈ closure domain rule :=
  closureFrom_closed (by simp) (by simp) ha hrule

theorem forall_mem_closureFrom {P : α → Prop}
    (hrule : ∀ marked : α → Bool, (∀ a, marked a = true → P a) → ∀ a, rule marked a = true → P a)
    {rounds : Nat} {marked : List α} (hm : ∀ a ∈ marked, P a) :
    ∀ a ∈ closureFrom domain rule rounds marked, P a := by
  induction rounds generalizing marked with
  | zero => exact hm
  | succ rounds ih =>
    simp only [closureFrom]
    split
    · exact hm
    · apply ih
      intro a ha
      rcases (mem_closureStep.mp ha).2 with hold | hnew
      · exact hm a hold
      · exact hrule marked.contains (fun b hb => hm b (List.contains_iff_mem.mp hb)) a hnew

/-- A property that the rule hands on from marked elements holds of the closure. -/
theorem forall_mem_closure {P : α → Prop}
    (hrule : ∀ marked : α → Bool, (∀ a, marked a = true → P a) → ∀ a, rule marked a = true → P a) :
    ∀ a ∈ closure domain rule, P a :=
  forall_mem_closureFrom hrule (by simp)

end TopDown
