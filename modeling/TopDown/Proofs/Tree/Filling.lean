import Mathlib.Computability.StateTransition
import TopDown.Proofs.Tree.Walk
import TopDown.Render.Records

/-!
# Records that are filled in a loop

Nested records of a deep tree are made in a loop, with a stack of the nodes that wait. The record of
a node is made while its parent is passed, and hangs below that of the parent from then on; it is
filled when the turn of the node comes, which is last child first. The loop ends, and then the first
record is the nested document of its node.
-/

namespace TopDown

open StateTransition

/-! ## Loops -/

/-- A loop whose steps keep an invariant and make a measure smaller ends with the invariant. -/
theorem exists_mem_eval {σ : Type} {step : σ → Option σ} {Inv : σ → Prop} (measure : σ → Nat)
    (hstep : ∀ s s', Inv s → step s = some s' → Inv s' ∧ measure s' < measure s) {s : σ}
    (hs : Inv s) : ∃ s' ∈ eval step s, Inv s' := by
  induction hn : measure s using Nat.strong_induction_on generalizing s with
  | h n ih =>
    cases hnext : step s with
    | none => exact ⟨s, mem_eval.mpr ⟨.refl, hnext⟩, hs⟩
    | some next =>
      obtain ⟨hinv, hlt⟩ := hstep s next hs hnext
      have hreaches : Reaches step s next := .single hnext
      rw [reaches_eval hreaches]
      exact ih (measure next) (hn ▸ hlt) hinv rfl

/-! ## Lists -/

theorem modify_append_of_lt {α : Type} {list : List α} {i : Nat} (hi : i < list.length)
    (f : α → α) (rest : List α) : (list ++ rest).modify i f = list.modify i f ++ rest := by
  induction list generalizing i with
  | nil => cases hi
  | cons a list ih =>
    cases i with
    | zero => rfl
    | succ i => simpa using ih (Nat.lt_of_succ_lt_succ hi)

/-- Lists are related exactly if the second is computed from what the first stands for. -/
theorem forall₂_iff_eq_map {α β γ : Type} {R : α → γ → Prop} {S : α → β → Prop} {g : β → γ}
    {as : List α} {bs : List β} {cs : List γ} (hstands : List.Forall₂ S as bs)
    (h : ∀ a, ∀ b ∈ bs, S a b → ∀ c, R a c ↔ c = g b) :
    List.Forall₂ R as cs ↔ cs = bs.map g := by
  induction hstands generalizing cs with
  | nil => simp
  | @cons a b as bs hab _ ih =>
    rw [List.forall₂_cons_left_iff, List.map_cons]
    have hrest {cs : List γ} : List.Forall₂ R as cs ↔ cs = bs.map g :=
      ih fun a' b' hb' => h a' b' (List.mem_cons_of_mem b hb')
    constructor
    · rintro ⟨c, cs, hc, hcs, rfl⟩
      rw [(h a b List.mem_cons_self hab c).mp hc, hrest.mp hcs]
    · rintro rfl
      exact ⟨g b, bs.map g, (h a b List.mem_cons_self hab _).mpr rfl, hrest.mpr rfl, rfl⟩

/-! ## Records -/

/-- A record in its place: the id of its node, and the places of the records below it. -/
structure Slot where
  id : Nat
  below : List Nat := []

/-- Records that are filled one by one. A node waits with the place of its record. -/
structure Filling where
  stack : List (Nat × Nat)
  slots : List Slot

/-- The record with more records below it. -/
def Slot.extend (places : List Nat) (slot : Slot) : Slot :=
  { slot with below := slot.below ++ places }

namespace Filling

/-- The record of a node that waits alone. -/
def start (id : Nat) : Filling :=
  ⟨[(id, 0)], [⟨id, []⟩]⟩

/-- Makes the record of a child, hangs it below the record in the given place, and lets the child
wait. -/
def add (place : Nat) (f : Filling) (child : Nat) : Filling :=
  let new := f.slots.length
  ⟨(child, new) :: f.stack, f.slots.modify place (Slot.extend [new]) ++ [⟨child, []⟩]⟩

/-- Fills the record of the node on top of the stack. -/
def step (t : Tree) : Filling → Option Filling
  | ⟨[], _⟩ => none
  | ⟨(id, place) :: stack, slots⟩ => some ((t.children id).foldl (add place) ⟨stack, slots⟩)

/-- The document of the record in a place, with those of the records below it nested in it. -/
inductive Reads (t : Tree) (f : Filling) : (place : Nat) → Document → Prop
  | record {place : Nat} {slot : Slot} {documents : List Document}
      (hslot : f.slots[place]? = some slot)
      (hbelow : List.Forall₂ (Reads t f) slot.below documents) :
      Reads t f place
        (.record (Tree.recordFields slot.id ((t.node? slot.id).getD default) documents))

/-- The node of the record in a place. -/
def idAt (f : Filling) (place : Nat) : Option Nat :=
  f.slots[place]?.map Slot.id

end Filling

theorem Tree.Ordered.nestedDocument_eq {t : Tree} (ht : t.Ordered) (id : Nat) :
    t.nestedDocument id = .record (Tree.recordFields id ((t.node? id).getD default)
      ((t.children id).map t.nestedDocument)) := by
  rw [Tree.nestedDocument, ht.below_eq, Rose.fold_node, List.map_map]
  rfl

namespace Filling

variable {t : Tree} {f : Filling} {root : Nat}

/-- The children of a node get their records one after the other. -/
theorem foldl_add {place : Nat} (children : List Nat) (hplace : place < f.slots.length) :
    children.foldl (add place) f =
      ⟨(children.zipIdx f.slots.length).reverse ++ f.stack,
        f.slots.modify place (Slot.extend (List.range' f.slots.length children.length)) ++
          children.map fun child => ⟨child, []⟩⟩ := by
  induction children generalizing f with
  | nil =>
    have hextend : Slot.extend [] = id := funext fun slot => by simp [Slot.extend]
    simp [hextend]
  | cons child children ih =>
    have hlength : (add place f child).slots.length = f.slots.length + 1 := by simp [add]
    have hlt : place < (f.slots.modify place (Slot.extend [f.slots.length])).length := by
      simpa using hplace
    have hextend (places : List Nat) : Slot.extend places ∘ Slot.extend [f.slots.length] =
        Slot.extend (f.slots.length :: places) := funext fun slot => by simp [Slot.extend]
    rw [List.foldl_cons, ih (by omega), hlength]
    simp [add, modify_append_of_lt hlt, List.modify_modify_eq, hextend, List.range'_succ,
      List.zipIdx_cons]

/-- Each record that does not wait has the records of the children of its node below it. -/
structure Fills (t : Tree) (root : Nat) (f : Filling) : Prop where
  first : f.idAt 0 = some root
  waiting : ∀ p ∈ f.stack, f.slots[p.2]? = some ⟨p.1, []⟩
  distinct : (f.stack.map Prod.snd).Nodup
  filled : ∀ place slot, f.slots[place]? = some slot → place ∉ f.stack.map Prod.snd →
    slot.below.map f.idAt = (t.children slot.id).map some

theorem Fills.lt_length (h : Fills t root f) {place : Nat} (hplace : place ∈ f.stack.map Prod.snd) :
    place < f.slots.length := by
  obtain ⟨p, hp, rfl⟩ := List.mem_map.mp hplace
  exact (List.getElem?_eq_some_iff.mp (h.waiting p hp)).1

theorem fills_start (t : Tree) (root : Nat) : Fills t root (start root) where
  first := rfl
  waiting := by simp [start]
  distinct := by simp [start]
  filled := fun place slot hslot hplace => by
    have hzero : place ≠ 0 := by simpa [start] using hplace
    simp [start, hzero] at hslot

/-- What a step does: the record on top is filled, and the records below it are new and wait, the
last one first. -/
structure Stepped (t : Tree) (f f' : Filling) (id place : Nat) (rest : List (Nat × Nat)) :
    Prop where
  top : f.stack = (id, place) :: rest
  waits : f.slots[place]? = some ⟨id, []⟩
  stack_eq : f'.stack = ((t.children id).zipIdx f.slots.length).reverse ++ rest
  filled : f'.slots[place]? = some ⟨id, List.range' f.slots.length (t.children id).length⟩
  old : ∀ p ≠ place, p < f.slots.length → f'.slots[p]? = f.slots[p]?
  new : ∀ i, f'.slots[f.slots.length + i]? = (t.children id)[i]?.map fun child => ⟨child, []⟩

theorem Fills.exists_stepped {f' : Filling} (h : Fills t root f) (hstep : f.step t = some f') :
    ∃ id place rest, Stepped t f f' id place rest := by
  obtain ⟨_ | ⟨⟨id, place⟩, rest⟩, slots⟩ := f
  · cases hstep
  have hwaits : slots[place]? = some ⟨id, []⟩ := h.waiting (id, place) List.mem_cons_self
  have hlt : place < slots.length := (List.getElem?_eq_some_iff.mp hwaits).1
  have hfold := foldl_add (f := ⟨rest, slots⟩) (t.children id) hlt
  obtain rfl := (Option.some.inj hstep).symm.trans hfold
  refine ⟨id, place, rest, rfl, hwaits, rfl, ?_, ?_, ?_⟩
  · rw [List.getElem?_append_left (by simpa using hlt), List.getElem?_modify, hwaits]
    simp [Slot.extend]
  · intro p hne hp
    rw [List.getElem?_append_left (by simpa using hp), List.getElem?_modify]
    simp [hne.symm]
  · intro i
    simp [List.getElem?_append_right]

namespace Stepped

variable {f' : Filling} {id place : Nat} {rest : List (Nat × Nat)}

theorem idAt_eq_some (h : Stepped t f f' id place rest) {p i : Nat} (hp : f.idAt p = some i) :
    f'.idAt p = some i := by
  obtain ⟨slot, hslot, rfl⟩ := Option.map_eq_some_iff.mp hp
  by_cases hplace : p = place
  · subst hplace
    obtain rfl := Option.some.inj (h.waits.symm.trans hslot)
    rw [idAt, h.filled, Option.map_some]
  · have hlt := (List.getElem?_eq_some_iff.mp hslot).1
    rw [idAt, h.old p hplace hlt, hslot, Option.map_some]

/-- The record on top has got the records of the children. -/
theorem map_idAt_range' (h : Stepped t f f' id place rest) :
    (List.range' f.slots.length (t.children id).length).map f'.idAt =
      (t.children id).map some := by
  refine List.ext_getElem (by simp) fun i hi hi' => ?_
  have hchild : i < (t.children id).length := by simpa using hi'
  rw [List.getElem_map, List.getElem_range', Nat.one_mul, List.getElem_map, idAt, h.new,
    List.getElem?_eq_getElem hchild]
  rfl

theorem places_eq (h : Stepped t f f' id place rest) : f'.stack.map Prod.snd =
    (List.range' f.slots.length (t.children id).length).reverse ++ rest.map Prod.snd := by
  rw [h.stack_eq, List.map_append, List.map_reverse, List.zipIdx_map_snd]

/-- A record is the one that was filled, or as it was, or new. -/
theorem slot_cases (h : Stepped t f f' id place rest) {p : Nat} {slot : Slot}
    (hslot : f'.slots[p]? = some slot) :
    (p = place ∧ slot = ⟨id, List.range' f.slots.length (t.children id).length⟩) ∨
      (p ≠ place ∧ f.slots[p]? = some slot) ∨ p ∈ f'.stack.map Prod.snd := by
  by_cases hplace : p = place
  · subst hplace
    exact .inl ⟨rfl, (Option.some.inj (h.filled.symm.trans hslot)).symm⟩
  · by_cases hlt : p < f.slots.length
    · exact .inr (.inl ⟨hplace, (h.old p hplace hlt).symm.trans hslot⟩)
    · obtain ⟨i, rfl⟩ := Nat.exists_eq_add_of_le (Nat.le_of_not_lt hlt)
      rw [h.new] at hslot
      obtain ⟨child, hchild, _⟩ := Option.map_eq_some_iff.mp hslot
      have hi := (List.getElem?_eq_some_iff.mp hchild).1
      rw [h.places_eq, List.mem_append, List.mem_reverse, List.mem_range'_1]
      omega

/-- The place that was on top waits no more. -/
theorem not_mem_rest (h : Stepped t f f' id place rest) (hf : Fills t root f) :
    place ∉ rest.map Prod.snd ∧ (rest.map Prod.snd).Nodup := by
  have hdistinct := hf.distinct
  rw [h.top, List.map_cons] at hdistinct
  exact List.nodup_cons.mp hdistinct

theorem waiting (h : Stepped t f f' id place rest) (hf : Fills t root f) :
    ∀ p ∈ f'.stack, f'.slots[p.2]? = some ⟨p.1, []⟩ := by
  intro p hp
  rw [h.stack_eq, List.mem_append, List.mem_reverse] at hp
  rcases hp with hnew | hold
  · obtain ⟨hle, hchild⟩ := List.mk_mem_zipIdx_iff_le_and_getElem?_sub.mp hnew
    have hat := h.new (p.2 - f.slots.length)
    rw [hchild, Nat.add_sub_cancel' hle] at hat
    exact hat
  · have hplace : p.2 ∈ rest.map Prod.snd := List.mem_map_of_mem hold
    have hmem : p ∈ f.stack := h.top ▸ List.mem_cons_of_mem _ hold
    rw [h.old p.2 (ne_of_mem_of_not_mem hplace (h.not_mem_rest hf).1)
      (hf.lt_length (List.mem_map_of_mem hmem))]
    exact hf.waiting p hmem

theorem distinct (h : Stepped t f f' id place rest) (hf : Fills t root f) :
    (f'.stack.map Prod.snd).Nodup := by
  rw [h.places_eq, List.nodup_append]
  refine ⟨List.nodup_reverse.mpr List.nodup_range', (h.not_mem_rest hf).2, ?_⟩
  rintro new hnew old hold rfl
  have hle := (List.mem_range'_1.mp (List.mem_reverse.mp hnew)).1
  have hlt : new < f.slots.length := hf.lt_length (by
    rw [h.top]
    exact List.mem_cons_of_mem place hold)
  omega

theorem filled_all (h : Stepped t f f' id place rest) (hf : Fills t root f) {p : Nat} {slot : Slot}
    (hslot : f'.slots[p]? = some slot) (hwaits : p ∉ f'.stack.map Prod.snd) :
    slot.below.map f'.idAt = (t.children slot.id).map some := by
  rcases h.slot_cases hslot with ⟨rfl, rfl⟩ | ⟨hne, hold⟩ | hmem
  · exact h.map_idAt_range'
  · have hnot : p ∉ f.stack.map Prod.snd := by
      rw [h.places_eq, List.mem_append, not_or] at hwaits
      rw [h.top]
      exact List.not_mem_cons_of_ne_of_not_mem hne hwaits.2
    have hfilled := hf.filled p slot hold hnot
    rw [← hfilled]
    refine List.map_congr_left fun below hbelow => ?_
    have hsome : f.idAt below ∈ (t.children slot.id).map some :=
      hfilled ▸ List.mem_map_of_mem hbelow
    obtain ⟨child, _, hchild⟩ := List.mem_map.mp hsome
    rw [← hchild]
    exact h.idAt_eq_some hchild.symm
  · exact absurd hmem hwaits

end Stepped

theorem Fills.step {f' : Filling} (h : Fills t root f) (hstep : f.step t = some f') :
    Fills t root f' := by
  obtain ⟨id, place, rest, hs⟩ := h.exists_stepped hstep
  exact ⟨hs.idAt_eq_some h.first, hs.waiting h, hs.distinct h, fun _ _ => hs.filled_all h⟩

/-- What waits, with all below it. -/
def pending (t : Tree) (f : Filling) : List Nat :=
  f.stack.flatMap fun p => t.preorder p.1

theorem Fills.pending_lt (ht : t.Ordered) {f' : Filling} (h : Fills t root f)
    (hstep : f.step t = some f') : (f'.pending t).length < (f.pending t).length := by
  obtain ⟨id, place, rest, hs⟩ := h.exists_stepped hstep
  have hbelow : (((t.children id).zipIdx f.slots.length).flatMap fun p => t.preorder p.1) =
      (t.children id).flatMap t.preorder := by
    rw [← List.flatMap_map Prod.fst, List.zipIdx_map_fst]
  have hlength := congrArg List.length hbelow
  rw [pending, pending, hs.stack_eq, hs.top, List.flatMap_append, List.flatMap_cons,
    ht.preorder_eq id]
  rw [List.length_flatMap] at hlength
  simp only [List.length_append, List.length_cons, List.length_flatMap, List.map_reverse,
    List.sum_reverse, hlength]
  omega

theorem reads_iff {place : Nat} {slot : Slot} (hslot : f.slots[place]? = some slot)
    {d : Document} : Reads t f place d ↔
      ∃ documents, List.Forall₂ (Reads t f) slot.below documents ∧
        d = .record (Tree.recordFields slot.id ((t.node? slot.id).getD default) documents) := by
  constructor
  · intro h
    obtain @⟨_, slot', documents, hslot', hbelow⟩ := h
    obtain rfl := Option.some.inj (hslot.symm.trans hslot')
    exact ⟨documents, hbelow, rfl⟩
  · rintro ⟨documents, hbelow, rfl⟩
    exact .record hslot hbelow

/-- When nothing waits, the record of a node is its nested document. -/
theorem Fills.reads_iff_eq (h : Fills t root f) (ht : t.Ordered) (hdone : f.stack = [])
    {place id : Nat} (hplace : f.idAt place = some id) (d : Document) :
    Reads t f place d ↔ d = t.nestedDocument id := by
  induction hn : t.size - id using Nat.strong_induction_on generalizing place id d with
  | h n ih =>
    obtain ⟨slot, hslot, rfl⟩ := Option.map_eq_some_iff.mp hplace
    have hbelow : List.Forall₂ (fun below child => f.idAt below = some child) slot.below
        (t.children slot.id) := by
      have hfilled := h.filled place slot hslot (by simp [hdone])
      rwa [← List.forall₂_eq_eq_eq, List.forall₂_map_left_iff, List.forall₂_map_right_iff]
        at hfilled
    have hreads {documents : List Document} : List.Forall₂ (Reads t f) slot.below documents ↔
        documents = (t.children slot.id).map t.nestedDocument := by
      refine forall₂_iff_eq_map hbelow fun below child hchild hbelow d => ?_
      have hlt := ht.lt_of_mem_children hchild
      exact ih (t.size - child) (by omega) hbelow d rfl
    rw [reads_iff hslot, ht.nestedDocument_eq]
    simp only [hreads, exists_eq_left]

/-- The records of all nodes below one are made and filled. -/
theorem exists_reads (ht : t.Ordered) (id : Nat) :
    ∃ f ∈ eval (step t) (start id), ∀ d, Reads t f 0 d ↔ d = t.nestedDocument id := by
  have hstep (f f' : Filling) (h : Fills t id f) (hnext : f.step t = some f') :
      Fills t id f' ∧ (f'.pending t).length < (f.pending t).length :=
    ⟨h.step hnext, h.pending_lt ht hnext⟩
  obtain ⟨f, hend, hfills⟩ :=
    exists_mem_eval (fun f => (f.pending t).length) hstep (fills_start t id)
  have hdone : f.stack = [] := by
    have hnone := (mem_eval.mp hend).2
    obtain ⟨_ | ⟨p, rest⟩, slots⟩ := f
    · rfl
    · cases hnone
  exact ⟨f, hend, hfills.reads_iff_eq ht hdone hfills.first⟩

end Filling

end TopDown
