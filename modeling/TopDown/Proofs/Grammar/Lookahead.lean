import TopDown.Proofs.Grammar.Closure
import TopDown.Proofs.Grammar.Forms

/-!
# Nothing is missing from the lookahead sets

What symbols yield shows in the sets of their grammar: symbols that yield the empty word can vanish,
and a kind that begins a word can begin the symbols that yield it. A kind that can begin what comes
after a use of a non-terminal can follow the non-terminal; where all that comes after it can vanish,
so can what follows the host of the use.
-/

namespace TopDown

/-- A table that has an entry for each of some keys. -/
theorem lookup_map_of_mem {α β : Type} [BEq α] [LawfulBEq α] {keys : List α} {f : α → β} {a : α}
    (ha : a ∈ keys) : (keys.map fun a => (a, f a)).lookup a = some (f a) := by
  induction keys with
  | nil => simp at ha
  | cons key keys ih =>
    by_cases hkey : a = key
    · simp [hkey]
    · have hrest : a ∈ keys := by simpa [hkey] using ha
      simpa [List.lookup_cons, beq_false_of_ne hkey] using ih hrest

theorem mem_occurrencesIn_iff {N : Type} {host : N} {o : Occurrence N} {symbols : List (Symbol N)} :
    o ∈ occurrencesIn host symbols ↔ o.host = host ∧ .nonterminal o.name :: o.rest <:+ symbols := by
  induction symbols with
  | nil => simp [occurrencesIn]
  | cons symbol symbols ih =>
    rw [List.suffix_cons_iff]
    cases symbol with
    | terminal kind => simpa [occurrencesIn] using ih
    | nonterminal n =>
      rw [occurrencesIn, List.mem_cons, ih, and_or_left]
      apply or_congr_left
      obtain ⟨name, rest, host'⟩ := o
      simp [and_left_comm, and_comm]

namespace Grammar

variable {N : Type} [DecidableEq N] {g : Grammar N}

/-- Each non-terminal has one rule. -/
theorem lookup_rules_iff {n : N} {alts : List (Alternative N)} :
    g.rules.lookup n = some alts ↔ (n, alts) ∈ g.rules := by
  constructor
  · intro h
    obtain ⟨before, after, hrules, _⟩ := List.lookup_eq_some_iff.mp h
    simp [hrules]
  · intro h
    obtain ⟨before, after, hrules⟩ := List.append_of_mem h
    have hdistinct := g.distinct
    rw [hrules, List.map_append, List.map_cons, List.nodup_append] at hdistinct
    refine List.lookup_eq_some_iff.mpr ⟨before, after, hrules, fun rule hrule => ?_⟩
    have hne := hdistinct.2.2 rule.1 (List.mem_map_of_mem hrule) n List.mem_cons_self
    simpa using hne.symm

theorem mem_alternatives_iff {n : N} {alt : Alternative N} :
    alt ∈ g.alternatives n ↔ ∃ alts, (n, alts) ∈ g.rules ∧ alt ∈ alts := by
  simp only [← lookup_rules_iff, alternatives]
  cases g.rules.lookup n <;> simp

theorem mem_names_of_mem_alternatives {n : N} {alt : Alternative N}
    (h : alt ∈ g.alternatives n) : n ∈ g.names := by
  obtain ⟨alts, hrule, _⟩ := mem_alternatives_iff.mp h
  exact List.mem_map.mpr ⟨(n, alts), hrule, rfl⟩

theorem mem_occurrences_iff {o : Occurrence N} :
    o ∈ g.occurrences ↔ ∃ alt ∈ g.alternatives o.host, .nonterminal o.name :: o.rest <:+ alt := by
  simp only [occurrences, List.mem_flatMap, mem_occurrencesIn_iff, mem_alternatives_iff]
  constructor
  · rintro ⟨⟨_, alts⟩, hrule, alt, halt, rfl, huse⟩
    exact ⟨alt, ⟨alts, hrule, halt⟩, huse⟩
  · rintro ⟨alt, ⟨alts, hrule, halt⟩, huse⟩
    exact ⟨(o.host, alts), hrule, alt, halt, rfl, huse⟩

theorem undefined_eq_none_iff : g.undefined? = none ↔ ∀ o ∈ g.occurrences, o.name ∈ g.names := by
  simp [undefined?]

theorem mem_kindsOf {marked : Kind → List N} {n : N} {kind : Kind} (h : marked kind ⊆ g.names) :
    kind ∈ ((g.kindsOf marked).lookup n).getD [] ↔ n ∈ marked kind := by
  by_cases hn : n ∈ g.names
  · simp [kindsOf, lookup_map_of_mem hn, Kind.mem_all]
  · have hnone : (g.kindsOf marked).lookup n = none := by
      simp only [kindsOf, List.lookup_eq_none_iff, List.mem_map]
      rintro _ ⟨m, hm, rfl⟩
      exact bne_iff_ne.mpr fun heq => hn (heq ▸ hm)
    simp only [hnone, Option.getD_none, List.not_mem_nil, false_iff]
    exact fun hmarked => hn (h hmarked)

/-! ## Words that begin with a kind -/

theorem nullableClosed_nullable : g.NullableClosed g.nullable.contains := by
  intro n alt halt hvanishes
  rw [List.contains_iff_mem]
  apply closure_closed (mem_names_of_mem_alternatives halt)
  exact List.any_eq_true.mpr ⟨alt, halt, hvanishes⟩

theorem begunClosed_begunBy (kind : Kind) :
    g.BegunClosed g.nullable.contains (g.begunBy g.nullable kind).contains kind := by
  intro n alt halt hbegins
  rw [List.contains_iff_mem]
  apply closure_closed (mem_names_of_mem_alternatives halt)
  exact List.any_eq_true.mpr ⟨alt, halt, hbegins⟩

theorem vanishes_of_yields_nil {symbols : List (Symbol N)} (h : g.Yields symbols []) :
    vanishes g.nullable.contains symbols = true :=
  nullableClosed_nullable.vanishes h.derives

theorem begins_of_yields_cons {symbols : List (Symbol N)} {kind : Kind} {word : List Kind}
    (h : g.Yields symbols (kind :: word)) :
    begins g.nullable.contains (g.begunBy g.nullable kind).contains kind symbols = true :=
  (begunClosed_begunBy kind).begins nullableClosed_nullable ⟨word.map .terminal, h.derives⟩

/-! ## The sets as a recogniser consults them -/

theorem contains_firstSet (n : N) (kind : Kind) :
    (g.lookahead.firstSet n).contains kind = (g.begunBy g.nullable kind).contains n := by
  rw [Bool.eq_iff_iff, List.contains_iff_mem, List.contains_iff_mem]
  exact mem_kindsOf closure_subset

theorem canBegin_eq_begins (kind : Kind) (symbols : List (Symbol N)) :
    g.lookahead.canBegin kind symbols =
      begins g.nullable.contains (g.begunBy g.nullable kind).contains kind symbols := by
  have hfirst : (fun n => (g.lookahead.firstSet n).contains kind) =
      (g.begunBy g.nullable kind).contains := funext fun n => contains_firstSet n kind
  rw [Lookahead.canBegin, hfirst]
  rfl

theorem canBegin_of_yields {symbols : List (Symbol N)} {kind : Kind} {word : List Kind}
    (h : g.Yields symbols (kind :: word)) : g.lookahead.canBegin kind symbols = true := by
  rw [canBegin_eq_begins]
  exact begins_of_yields_cons h

/-! ## Kinds that follow -/

/-- FOLLOW as a closure that looks only at the uses of a non-terminal to decide about it. -/
theorem followedBy_eq_closure (g : Grammar N) (nullable begun : List N) (kind : Kind) :
    g.followedBy nullable begun kind = closure g.names fun marked n =>
      (g.occurrences.filter (·.name = n)).any fun o =>
        begins nullable.contains begun.contains kind o.rest ||
          (vanishes nullable.contains o.rest && marked o.host) := by
  simp only [followedBy, List.any_map, List.any_filter, Function.comp_def]

/-- What can begin the rest of a use follows it, and so does what follows the host of a use whose
rest can vanish. -/
theorem name_mem_followedBy {nullable begun : List N} {kind : Kind} {o : Occurrence N}
    (ho : o ∈ g.occurrences) (hname : o.name ∈ g.names)
    (h : begins nullable.contains begun.contains kind o.rest = true ∨
      vanishes nullable.contains o.rest = true ∧ o.host ∈ g.followedBy nullable begun kind) :
    o.name ∈ g.followedBy nullable begun kind := by
  rw [followedBy_eq_closure] at h ⊢
  apply closure_closed hname
  refine List.any_eq_true.mpr ⟨o, List.mem_filter.mpr ⟨ho, decide_eq_true rfl⟩, ?_⟩
  rwa [Bool.or_eq_true, Bool.and_eq_true, List.contains_iff_mem]

theorem mem_followSet_iff {n : N} {kind : Kind} : kind ∈ g.lookahead.followSet n ↔
    n ∈ g.followedBy g.nullable (g.begunBy g.nullable kind) kind :=
  mem_kindsOf closure_subset

/-- FOLLOW is closed under both of its rules. -/
theorem mem_followSet {host n : N} {alt : Alternative N} {rest : List (Symbol N)} {kind : Kind}
    (halt : alt ∈ g.alternatives host) (huse : .nonterminal n :: rest <:+ alt) (hn : n ∈ g.names)
    (h : g.lookahead.canBegin kind rest = true ∨
      vanishes g.lookahead.isNullable rest = true ∧ kind ∈ g.lookahead.followSet host) :
    kind ∈ g.lookahead.followSet n := by
  rw [canBegin_eq_begins, mem_followSet_iff] at h
  rw [mem_followSet_iff]
  have ho : ⟨n, rest, host⟩ ∈ g.occurrences := mem_occurrences_iff.mpr ⟨alt, halt, huse⟩
  exact name_mem_followedBy ho hn h

end Grammar

end TopDown
