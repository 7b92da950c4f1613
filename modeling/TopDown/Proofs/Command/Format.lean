import TopDown.Proofs.Command.Run

/-!
# Names of formats

A run uses the name of its format twice: it finds the renderer by the name in lower case, and it
makes a link under one exact name. Up to the link it knows the renderer and not the name, so that
runs under two spellings of a name differ in the link alone. They do differ there: DOT text has a
link under its exact name, and the same text has none under any other spelling.
-/

namespace TopDown

/-! ## Spellings of a name -/

namespace Text

/-- The two cases of one ASCII letter. -/
def LetterCases (upper lower : Char) : Prop :=
  upper.isUpper = true ∧ lower.toNat = upper.toNat + 32

instance (upper lower : Char) : Decidable (LetterCases upper lower) :=
  inferInstanceAs (Decidable (upper.isUpper = true ∧ lower.toNat = upper.toNat + 32))

/-- Two texts differ in nothing but the case of letters. -/
def SameButCase (text other : String) : Prop :=
  List.Forall₂ (fun c d => c = d ∨ LetterCases c d ∨ LetterCases d c) text.toList other.toList

instance (text other : String) : Decidable (SameButCase text other) :=
  inferInstanceAs (Decidable (List.Forall₂ _ text.toList other.toList))

theorem isUpper_iff {c : Char} : c.isUpper = true ↔ 65 ≤ c.toNat ∧ c.toNat ≤ 90 := by
  change decide (65 ≤ c.toNat ∧ c.toNat ≤ 90) = true ↔ _
  rw [decide_eq_true_eq]

theorem toNat_toLower (c : Char) :
    c.toLower.toNat = if 65 ≤ c.toNat ∧ c.toNat ≤ 90 then c.toNat + 32 else c.toNat := by
  unfold Char.toLower
  split
  · next h =>
    have hupper : 65 ≤ c.val.toNat ∧ c.val.toNat ≤ 90 := h
    have hsmall : c.val.toNat + 32 < 2 ^ 32 := by omega
    refine Eq.trans ?_ (if_pos hupper).symm
    show (c.val + 32).toNat = c.val.toNat + 32
    rw [UInt32.toNat_add]
    exact Nat.mod_eq_of_lt hsmall
  · next h => exact (if_neg h).symm

theorem toLower_eq_toLower_iff {c d : Char} :
    c.toLower = d.toLower ↔ c = d ∨ LetterCases c d ∨ LetterCases d c := by
  simp only [← Char.toNat_inj, toNat_toLower, LetterCases, isUpper_iff]
  split <;> split <;> omega

theorem toLower_eq_iff {text other : String} :
    text.toLower = other.toLower ↔ SameButCase text other := by
  rw [← String.toList_inj, String.toLower, String.toLower, String.toList_map, String.toList_map,
    ← List.forall₂_eq_eq_eq, List.forall₂_map_left_iff, List.forall₂_map_right_iff]
  simp only [toLower_eq_toLower_iff]
  rfl

end Text

namespace Renderer

variable {name name' : String} {renderer : Renderer}

theorem mem_formats_of_ofFormat? (h : ofFormat? name = some renderer) :
    (name.toLower, renderer) ∈ formats := by
  obtain ⟨before, after, hformats, _⟩ := List.lookup_eq_some_iff.mp h
  rw [hformats]
  exact List.mem_append_right before List.mem_cons_self

/-- The names of a renderer are the spellings of one name, and no others. -/
theorem ofFormat?_eq_some_iff (h : ofFormat? name = some renderer) :
    ofFormat? name' = some renderer ↔ Text.SameButCase name name' := by
  have hone : ∀ f ∈ formats, ∀ f' ∈ formats, f.2 = f'.2 → f.1 = f'.1 := by decide
  rw [← Text.toLower_eq_iff]
  constructor
  · intro h'
    exact hone _ (mem_formats_of_ofFormat? h) _ (mem_formats_of_ofFormat? h') rfl
  · intro hcase
    rw [ofFormat?, ← hcase]
    exact h

end Renderer

/-- The run has come to a verdict on the program, and has delivered the output. -/
def Report.Concludes (report : Report) : Prop :=
  report.ending = .ok .accepted ∨ report.ending = .ok .rejected

namespace Run

/-! ## Up to the link -/

/-- The link to DOT text, or the warning that there is none. -/
def linkEvent (dot : String) : Event :=
  match Link.ofDot? dot with
  | some link => .print (link ++ "\n")
  | none => .warn "Output is too long for a GraphvizOnline link.\n"

theorem linkTo_eq (r : Request) (output : String) :
    linkTo r output = if r.link ∧ r.format = some "dot" then [linkEvent output] else [] := by
  unfold linkTo linkEvent
  cases Link.ofDot? output <;> rfl

/-- What a run does with a text before the link: its report so far, and the output if it was
delivered. The renderer is all that it knows of the format. -/
def settle {m : Type → Type} [Monad m] (fs : FileSystem m) (out : Option String)
    (renderer : Renderer) (text : String) : m (Report × Option String) := do
  match parse (Token.scan text) with
  | none => return (⟨[.log .error tooDeepMessage], .ok .tooDeep⟩, none)
  | some (session, failure) =>
    let (status, entry) := verdict session.tree failure
    let output := renderer.render session.tree
    match ← deliver fs out output with
    | .error e => return (⟨[entry], .error (.file e)⟩, none)
    | .ok delivery => return (⟨[entry, delivery], .ok status⟩, some output)

/-- A run that stops before the link. -/
def upToLink {m : Type → Type} [Monad m] (fs : FileSystem m) (r : Request) (renderer : Renderer) :
    m (Report × Option String) :=
  load fs r >>= fun
    | .error report => pure (report, none)
    | .ok text => settle fs r.out renderer text

/-- Adds the link to a delivered output. -/
def addLink (r : Request) : Report × Option String → Report
  | (report, none) => report
  | (report, some output) => { report with events := report.events ++ linkTo r output }

section

variable {m : Type → Type} [Monad m] [LawfulMonad m] {r : Request} {name : String}
  {renderer : Renderer}

/-- The name of the format is looked up once and then tested once, for the link. -/
theorem proceed_eq_addLink (fs : FileSystem m) (hname : r.format = some name)
    (hrenderer : Renderer.ofFormat? name = some renderer) (text : String) :
    proceed fs r text = addLink r <$> settle fs r.out renderer text := by
  unfold proceed settle
  generalize parse (Token.scan text) = answer
  cases answer with
  | none => rw [map_pure]; rfl
  | some answer =>
    obtain ⟨session, failure⟩ := answer
    have hrendered : rendered session.tree r.format = .ok (renderer.render session.tree) := by
      simp only [rendered, hname, Tree.render, hrenderer]
      rfl
    simp only [hrendered, map_bind]
    refine bind_congr fun delivered => ?_
    cases delivered <;> rw [map_pure] <;> rfl

theorem run_eq_addLink (fs : FileSystem m) (hname : r.format = some name)
    (hrenderer : Renderer.ofFormat? name = some renderer) :
    r.run fs = addLink r <$> upToLink fs r renderer := by
  rw [run_eq_proceed, upToLink, map_bind]
  refine bind_congr fun loaded => ?_
  cases loaded with
  | error report => rw [map_pure]; rfl
  | ok text => exact proceed_eq_addLink fs hname hrenderer text

end

variable {σ : Type} {fs : FileSystem (StateM σ)} {s s' : σ} {r : Request} {renderer : Renderer}
  {report : Report} {output out : Option String} {text : String}

theorem not_concludes_of_load (h : (load fs r).run s = (.error report, s')) :
    ¬ report.Concludes := by
  suffices hending : report.ending = .ok .unreadable ∨ ∃ e, report.ending = .error e by
    rcases hending with hending | ⟨e, hending⟩ <;> simp [Report.Concludes, hending]
  cases htext : r.isText with
  | true =>
    rw [load_text htext] at h
    cases h
  | false =>
    rcases hread : (fs.read r.source).run s with ⟨answer, s₁⟩
    simp only [load, htext, Bool.false_eq_true, if_false, StateT.run_bind, hread] at h
    rcases answer with (⟨reason, path⟩ | _) | bytes
    · cases h
      exact .inl rfl
    · cases h
      exact .inr ⟨_, rfl⟩
    · cases hdecode : decode bytes with
      | none =>
        simp only [bind, hdecode] at h
        cases h
        exact .inr ⟨_, rfl⟩
      | some text =>
        simp only [bind, hdecode] at h
        cases h

/-- There is an output exactly if the run concludes, and it is the rendered tree. -/
theorem settle_cases (h : (settle fs out renderer text).run s = ((report, output), s')) :
    (¬ report.Concludes ∧ output = none) ∨
      (report.Concludes ∧ ∃ session failure, parse (Token.scan text) = some (session, failure) ∧
        output = some (renderer.render session.tree)) := by
  unfold settle at h
  cases hparse : parse (Token.scan text) with
  | none =>
    rw [hparse] at h
    cases h
    exact .inl ⟨by simp [Report.Concludes], rfl⟩
  | some answer =>
    obtain ⟨session, failure⟩ := answer
    rw [hparse, StateT.run_bind] at h
    rcases hdeliver : (deliver fs out (renderer.render session.tree)).run s with ⟨answer, s₁⟩
    rw [hdeliver] at h
    cases answer with
    | error e =>
      cases h
      exact .inl ⟨by simp [Report.Concludes], rfl⟩
    | ok delivery =>
      cases h
      refine .inr ⟨?_, session, failure, rfl, rfl⟩
      cases failure with
      | none => exact .inl rfl
      | some f => exact .inr rfl

theorem upToLink_cases (h : (upToLink fs r renderer).run s = ((report, output), s')) :
    (¬ report.Concludes ∧ output = none) ∨
      (report.Concludes ∧ ∃ text session failure, ((load fs r).run s).1 = .ok text ∧
        parse (Token.scan text) = some (session, failure) ∧
        output = some (renderer.render session.tree)) := by
  rw [upToLink, StateT.run_bind] at h
  rcases hload : (load fs r).run s with ⟨loaded, s₁⟩
  rw [hload] at h
  cases loaded with
  | error report =>
    cases h
    exact .inl ⟨not_concludes_of_load hload, rfl⟩
  | ok text =>
    obtain hstops | ⟨hconcludes, session, failure, hparse, houtput⟩ := settle_cases h
    · exact .inl hstops
    · exact .inr ⟨hconcludes, text, session, failure, rfl, hparse, houtput⟩

/-! ## The link -/

theorem ending_addLink (r : Request) (report : Report) (output : Option String) :
    (addLink r (report, output)).ending = report.ending := by
  cases output <;> rfl

theorem concludes_addLink (r : Request) (report : Report) (output : Option String) :
    (addLink r (report, output)).Concludes ↔ report.Concludes := by
  rw [Report.Concludes, ending_addLink, Report.Concludes]

theorem logs_addLink (r : Request) (report : Report) (output : Option String) :
    (addLink r (report, output)).logs = report.logs := by
  cases output with
  | none => rfl
  | some output =>
    have hquiet : Report.logs ⟨linkTo r output, report.ending⟩ = [] := by
      rw [linkTo_eq]
      split
      · unfold linkEvent
        cases Link.ofDot? output <;> rfl
      · rfl
    show Report.logs ⟨report.events ++ linkTo r output, report.ending⟩ = _
    rw [Report.logs, List.filterMap_append]
    exact (congrArg (report.logs ++ ·) hquiet).trans (List.append_nil _)

/-- A link is added, or a warning in its place, so that it shows whether a request asked for it. -/
theorem addLink_eq_iff {r r' : Request} (report : Report) (output : String) :
    addLink r (report, some output) = addLink r' (report, some output) ↔
      (r.link = true ∧ r.format = some "dot" ↔ r'.link = true ∧ r'.format = some "dot") := by
  simp only [addLink, Report.mk.injEq, List.append_cancel_left_eq, and_true, linkTo_eq]
  by_cases h : r.link = true ∧ r.format = some "dot" <;>
    by_cases h' : r'.link = true ∧ r'.format = some "dot" <;> simp [h, h']

end Run

namespace Request

open Run

/-- Runs under two spellings of the name of a renderer end alike, log the same and leave the same
files behind. They print and warn the same, too, if and only if no link is asked for, both or
neither of the spellings are the exact name, or no output is delivered. Otherwise the run under the
exact name shows what the other one shows and then the link to the tree as DOT text, or the warning
that there is none. -/
theorem run_ignores_case_up_to_link {σ : Type} (fs : FileSystem (StateM σ)) (r : Request)
    {name name' : String} {renderer : Renderer}
    (hrenderer : Renderer.ofFormat? name = some renderer) (hcase : Text.SameButCase name name')
    (s : σ) :
    ∃ report report' s',
      (run fs { r with format := some name }).run s = (report, s') ∧
      (run fs { r with format := some name' }).run s = (report', s') ∧
      report.ending = report'.ending ∧ report.logs = report'.logs ∧
      (report = report' ↔
        r.link = false ∨ (name = "dot" ↔ name' = "dot") ∨ ¬ report.Concludes) ∧
      (r.link = true → name = "dot" → name' ≠ "dot" → report.Concludes →
        ∃ text session failure, ((load fs r).run s).1 = .ok text ∧
          parse (Token.scan text) = some (session, failure) ∧
          report.events = report'.events ++ [linkEvent (Dot.render session.tree)]) := by
  have hrenderer' : Renderer.ofFormat? name' = some renderer :=
    (Renderer.ofFormat?_eq_some_iff hrenderer).mpr hcase
  rcases hup : (upToLink fs r renderer).run s with ⟨⟨plain, output⟩, s'⟩
  have hrun : ∀ spelling, Renderer.ofFormat? spelling = some renderer →
      (run fs { r with format := some spelling }).run s =
        (addLink { r with format := some spelling } (plain, output), s') := by
    intro spelling hspelling
    rw [run_eq_addLink fs rfl hspelling, StateT.run_map]
    -- The format is no part of what the run up to the link looks at.
    show (fun p => (addLink _ p.1, p.2)) <$> (upToLink fs r renderer).run s = _
    rw [hup]
    rfl
  refine ⟨_, _, s', hrun name hrenderer, hrun name' hrenderer', ?_, ?_, ?_⟩
  · rw [ending_addLink, ending_addLink]
  · rw [logs_addLink, logs_addLink]
  simp only [concludes_addLink]
  obtain ⟨hnot, rfl⟩ | ⟨hconcludes, text, session, failure, hload, hparse, rfl⟩ :=
    upToLink_cases hup
  · exact ⟨iff_of_true rfl (.inr (.inr hnot)), fun _ _ _ hconcludes => absurd hconcludes hnot⟩
  · rw [addLink_eq_iff]
    refine ⟨?_, fun hlink hexact hother _ => ⟨text, session, failure, hload, hparse, ?_⟩⟩
    · cases r.link <;> simp [hconcludes]
    · subst hexact
      have hdot : Renderer.ofFormat? "dot" = some .dot := by decide +kernel
      obtain rfl : .dot = renderer := Option.some.inj (hdot.symm.trans hrenderer)
      simp [addLink, linkTo_eq, hlink, hother, Renderer.render]

/-- A program that breaks off is drawn as far as it goes under both names, but linked to under one
only. -/
theorem run_ignores_case_of_cut_declaration :
    ∃ report report' files session failure,
      Renderer.ofFormat? "dot" = some .dot ∧ Text.SameButCase "dot" "DOT" ∧
      (run Files.system { source := "var", isText := true, link := true }).run {} =
        (report, files) ∧
      (run Files.system
        { source := "var", isText := true, format := some "DOT", link := true }).run {} =
        (report', files) ∧
      report'.ending = .ok .rejected ∧ report ≠ report' ∧
      parse (Token.scan "var") = some (session, some failure) ∧
      report.events = report'.events ++ [linkEvent (Dot.render session.tree)] := by
  let r : Request := { source := "var", isText := true, link := true }
  have hformat : Renderer.ofFormat? "dot" = some .dot := by decide +kernel
  have hcase : Text.SameButCase "dot" "DOT" := by decide
  obtain ⟨report, report', files, hrun, hrun', hsame, _, heq, hlinks⟩ :=
    run_ignores_case_up_to_link Files.system r hformat hcase {}
  have hrejected : report.ending = .ok .rejected := by
    have hending : ((run Files.system r).run {}).1.ending = .ok .rejected := by decide +kernel
    rw [← hending]
    exact congrArg (fun answer => answer.1.ending) hrun.symm
  have hdiffer : report ≠ report' := by simp [heq, r, Report.Concludes, hrejected]
  obtain ⟨text, session, failure, htext, hparse, hevents⟩ :=
    hlinks rfl rfl (by decide) (.inr hrejected)
  obtain rfl : "var" = text := Except.ok.inj htext
  have hfails : (parse (Token.scan "var")).map (·.2.isSome) = some true := by decide +kernel
  rw [hparse] at hfails
  obtain ⟨f, rfl⟩ := Option.isSome_iff_exists.mp (Option.some.inj hfails)
  exact ⟨report, report', files, session, f, hformat, hcase, hrun, hrun',
    hsame.symm.trans hrejected, hdiffer, hparse, hevents⟩

/-- Not every spelling of a name makes the link: the name in capitals does not. -/
theorem not_every_spelling_links :
    ¬ ∀ (r : Request) (name name' : String), (Renderer.ofFormat? name).isSome = true →
      Text.SameButCase name name' →
      ((run Files.system { r with format := some name }).run {}).1.output =
        ((run Files.system { r with format := some name' }).run {}).1.output := by
  intro h
  have hsame := h { source := "", isText := true, link := true } "dot" "DOT"
    (by decide +kernel) (by decide)
  exact absurd hsame (by decide +kernel)

end Request

end TopDown
