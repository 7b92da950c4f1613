import TopDown.Grammar.Prediction
import TopDown.Proofs.Grammar.Lookahead

/-!
# What a prediction table says

A grammar that has a prediction table has no conflict: a kind selects at most one alternative of a
non-terminal. The entry of the table is the place of that alternative, and there is no entry where
no alternative is selected.
-/

namespace TopDown

/-- A kind of a later list is neither seen before nor in an earlier list. -/
theorem not_mem_of_collision?_eq_none {seen : List Kind} {lists : List (List Kind)}
    (h : collision? seen lists = none) {kinds : List Kind} (hkinds : kinds ∈ lists) {kind : Kind}
    (hkind : kind ∈ kinds) : kind ∉ seen := by
  induction lists generalizing seen with
  | nil => simp at hkinds
  | cons first rest ih =>
    rw [collision?] at h
    split at h
    · cases h
    · next hfind =>
      rcases List.mem_cons.mp hkinds with rfl | hlater
      · simpa using List.find?_eq_none.mp hfind kind hkind
      · have happend := ih h hlater
        exact fun hseen => happend (List.mem_append_left _ hseen)

/-- A kind is in one of the lists at most. -/
theorem index_eq_of_collision?_eq_none {seen : List Kind} {lists : List (List Kind)}
    (h : collision? seen lists = none) {i j : Nat} {kinds kinds' : List Kind}
    (hi : lists[i]? = some kinds) (hj : lists[j]? = some kinds') {kind : Kind}
    (hkind : kind ∈ kinds) (hkind' : kind ∈ kinds') : i = j := by
  induction lists generalizing seen i j with
  | nil => cases hi
  | cons first rest ih =>
    rw [collision?] at h
    split at h
    · cases h
    · have hapart {k : Nat} {later : List Kind} (hk : rest[k]? = some later) (hlater : kind ∈ later) :
          kind ∉ first := by
        have happend := not_mem_of_collision?_eq_none h (List.mem_of_getElem? hk) hlater
        exact fun hfirst => happend (List.mem_append_right _ hfirst)
      cases i with
      | zero =>
        obtain rfl := Option.some.inj hi
        cases j with
        | zero => rfl
        | succ j => exact absurd hkind (hapart hj hkind')
      | succ i =>
        cases j with
        | zero =>
          obtain rfl := Option.some.inj hj
          exact absurd hkind' (hapart hi hkind)
        | succ j => exact congrArg (· + 1) (ih h hi hj)

/-- A partial table, looked up at one of its keys. -/
theorem lookup_filterMap_of_mem {α β : Type} [BEq α] [LawfulBEq α] {keys : List α}
    {f : α → Option β} {a : α} (ha : a ∈ keys) :
    (keys.filterMap fun a => (f a).map (a, ·)).lookup a = f a := by
  by_cases hnone : f a = none
  · rw [hnone, List.lookup_eq_none_iff]
    rintro ⟨key, b⟩ hmem
    obtain ⟨c, _, hc⟩ := List.mem_filterMap.mp hmem
    obtain ⟨b', hb, heq⟩ := Option.map_eq_some_iff.mp hc
    obtain ⟨rfl, rfl⟩ := Prod.mk.inj heq
    apply bne_iff_ne.mpr
    rintro rfl
    simp [hnone] at hb
  · induction keys with
    | nil => simp at ha
    | cons key keys ih =>
      obtain ⟨b, hb⟩ := Option.ne_none_iff_exists'.mp hnone
      by_cases hkey : a = key
      · subst hkey
        simp [hb]
      · have hrest : a ∈ keys := by simpa [hkey] using ha
        cases hf : f key with
        | none => simpa [hf] using ih hrest
        | some c => simpa [hf, List.lookup_cons, beq_false_of_ne hkey] using ih hrest

theorem map_eq_of_mapM_eq_ok {α β ε : Type} {f : α → Except ε β} {xs : List α} {ys : List β}
    (h : xs.mapM f = .ok ys) : xs.map f = ys.map .ok := by
  induction xs generalizing ys with
  | nil =>
    obtain rfl : [] = ys := Except.ok.inj h
    rfl
  | cons x xs ih =>
    rw [List.mapM_cons] at h
    cases hx : f x with
    | error e => simp [hx, bind, Except.bind] at h
    | ok y =>
      cases hxs : xs.mapM f with
      | error e => simp [hx, hxs, bind, Except.bind] at h
      | ok rest =>
        simp only [hx, hxs, bind, Except.bind, pure, Except.pure, Except.ok.injEq] at h
        subst h
        simp [hx, ih hxs]

theorem exists_ok_of_mapM_eq_ok {α β ε : Type} {f : α → Except ε β} {xs : List α} {ys : List β}
    (h : xs.mapM f = .ok ys) {x : α} (hx : x ∈ xs) : ∃ y, f x = .ok y := by
  have hmem : f x ∈ xs.map f := List.mem_map_of_mem hx
  rw [map_eq_of_mapM_eq_ok h] at hmem
  obtain ⟨y, _, hy⟩ := List.mem_map.mp hmem
  exact ⟨y, hy.symm⟩

theorem eq_map_of_mapM_eq_ok {α β ε : Type} {f : α → Except ε β} {xs : List α} {ys : List β}
    (h : xs.mapM f = .ok ys) {value : α → β} (hvalue : ∀ x ∈ xs, f x = .ok (value x)) :
    ys = xs.map value := by
  have hok : ys.map (Except.ok (ε := ε)) = (xs.map value).map .ok := by
    rw [← map_eq_of_mapM_eq_ok h, List.map_map]
    exact List.map_congr_left hvalue
  exact List.map_injective_iff.mpr (fun _ _ => Except.ok.inj) hok

namespace Grammar

variable {N : Type} [DecidableEq N] {g : Grammar N} {table : Prediction N}

theorem contains_selection (l : Lookahead N) (n : N) (alt : Alternative N) (kind : Kind) :
    (Kind.all.filter (l.selects n · alt)).contains kind = l.selects n kind alt := by
  rw [Bool.eq_iff_iff, List.contains_iff_mem, List.mem_filter]
  simp [Kind.mem_all]

/-- A table has a row for each non-terminal, and no two alternatives of it collide. -/
theorem row_of_prediction_eq_ok (h : g.prediction = .ok table) {n : N} (hn : n ∈ g.names) :
    table.lookup n = some (places (g.selections g.lookahead n)) ∧
      collision? [] (g.selections g.lookahead n) = none := by
  unfold prediction at h
  split at h
  · cases h
  · have hfree (m : N) (hm : m ∈ g.names) :
        collision? [] (g.selections g.lookahead m) = none := by
      obtain ⟨row, hrow⟩ := exists_ok_of_mapM_eq_ok h hm
      cases hc : collision? [] (g.selections g.lookahead m) with
      | none => rfl
      | some kind => simp [hc] at hrow
    have htable : table = g.names.map fun m => (m, places (g.selections g.lookahead m)) :=
      eq_map_of_mapM_eq_ok h fun m hm => by simp [hfree m hm]
    exact ⟨htable ▸ lookup_map_of_mem hn, hfree n hn⟩

/-- A kind selects at most one place among the alternatives. -/
theorem index_eq_of_selects (h : g.prediction = .ok table) {n : N} {kind : Kind} {i j : Nat}
    {a b : Alternative N} (hi : (g.alternatives n)[i]? = some a)
    (hj : (g.alternatives n)[j]? = some b) (hka : g.lookahead.selects n kind a = true)
    (hkb : g.lookahead.selects n kind b = true) : i = j := by
  have hn := mem_names_of_mem_alternatives (List.mem_of_getElem? hi)
  have hfree := (row_of_prediction_eq_ok h hn).2
  rw [← contains_selection, List.contains_iff_mem] at hka hkb
  have hselection {k : Nat} {alt : Alternative N} (hk : (g.alternatives n)[k]? = some alt) :
      (g.selections g.lookahead n)[k]? =
        some (Kind.all.filter (g.lookahead.selects n · alt)) := by
    rw [selections, List.getElem?_map, hk]
    rfl
  exact index_eq_of_collision?_eq_none hfree (hselection hi) (hselection hj) hka hkb

/-- A kind selects at most one alternative. -/
theorem eq_of_selects (h : g.prediction = .ok table) {n : N} {kind : Kind} {a b : Alternative N}
    (ha : a ∈ g.alternatives n) (hb : b ∈ g.alternatives n)
    (hka : g.lookahead.selects n kind a = true) (hkb : g.lookahead.selects n kind b = true) :
    a = b := by
  obtain ⟨i, hi⟩ := List.mem_iff_getElem?.mp ha
  obtain ⟨j, hj⟩ := List.mem_iff_getElem?.mp hb
  obtain rfl := index_eq_of_selects h hi hj hka hkb
  exact Option.some.inj (hi.symm.trans hj)

/-- The entry for a non-terminal and a kind is the place of the alternative that the kind selects.
-/
theorem get?_prediction (h : g.prediction = .ok table) {n : N} (hn : n ∈ g.names) (kind : Kind) :
    table.get? n kind = (g.alternatives n).findIdx? (g.lookahead.selects n kind) := by
  have hrow := (row_of_prediction_eq_ok h hn).1
  rw [Prediction.get?, hrow, Option.bind_some, places, lookup_filterMap_of_mem (Kind.mem_all kind),
    selections, List.findIdx?_map]
  congr 1
  funext alt
  exact contains_selection g.lookahead n alt kind

end Grammar

end TopDown
