import TopDown.Proofs.Command.Run
import TopDown.Proofs.Parse.Failure
import TopDown.Proofs.Render.Records

/-!
# Outcomes of runs

The status of a run, its log, the tree and the rendered text report one outcome of the parse. The
text goes to one place, with the same content in either, and a run that cannot load its program or
nests too deeply writes nothing at all. Of the paths that cannot be opened, those with a null
character break the run off, and have no status.
-/

namespace TopDown

variable {session : Session} {failure : Option Failure}

/-! ## What a report shows -/

def Event.printed? : Event → Option String
  | .print text => some text
  | _ => none

/-- The message of an error. -/
def Event.problem? : Event → Option String
  | .log .error message => some message
  | _ => none

namespace Report

/-- The texts that were printed, one by one. -/
def printed (r : Report) : List String :=
  r.events.filterMap Event.printed?

theorem output_eq_join (r : Report) : r.output = String.join r.printed :=
  congrArg String.join (List.filterMap_congr fun event _ => by cases event <;> rfl)

/-- The messages of the errors that were logged. -/
def problems (r : Report) : List String :=
  (r.logs.filter (·.1 = .error)).map (·.2)

theorem problems_eq_filterMap (r : Report) : r.problems = r.events.filterMap Event.problem? := by
  rw [problems, logs]
  induction r.events with
  | nil => rfl
  | cons event events ih =>
    cases event with
    | log level message =>
      cases level with
      | debug => exact ih
      | error => exact congrArg (message :: ·) ih
    | print | warn => exact ih

end Report

/-- The path of the file that holds the program, if it is in a file. -/
def Request.file? (r : Request) : Option String :=
  if r.isText then none else some r.source

/-- The path of the file that takes the output, if there is one. -/
def Request.path? (r : Request) : Option String :=
  r.out.filter (!·.isEmpty)

namespace Run

variable {σ : Type} {fs : FileSystem (StateM σ)} {r : Request} {s s' : σ} {text output : String}

/-! ## Where the program comes from -/

/-- The program of a run: a text, the text that a file holds in UTF-8, or none, if the source is a
path and the file with that path cannot be opened. -/
inductive Source (fs : FileSystem (StateM σ)) (s : σ) (r : Request) : Option String → Prop where
  | inline (h : r.isText = true) : Source fs s r (some r.source)
  | file {text : String} (h : r.isText = false)
      (hread : ((fs.read r.source).run s).1 = .ok text.toUTF8) : Source fs s r (some text)
  | unopened {e : FileError} (h : r.isText = false)
      (hread : ((fs.read r.source).run s).1 = .error e) : Source fs s r none

/-- The source is a path that no file can have. -/
def Misnamed (fs : FileSystem (StateM σ)) (s : σ) (r : Request) : Prop :=
  r.isText = false ∧ ((fs.read r.source).run s).1 = .error .malformed

variable {out : Option String}

theorem run_read_source (hfs : fs.Lawful r.file? out s) (h : r.isText = false) :
    (fs.read r.source).run s = (((fs.read r.source).run s).1, s) := by
  have hfile : r.source ∈ r.file? := by simp [Request.file?, h]
  exact Prod.ext rfl (hfs.read_keeps r.source hfile)

theorem run_of_source (hfs : fs.Lawful r.file? out s) (h : Source fs s r (some text)) :
    (r.run fs).run s = (proceed fs r text).run s := by
  cases h with
  | inline h => exact run_of_load (load_text h)
  | file h hread =>
    have hfile := run_read_source hfs h
    rw [hread] at hfile
    rw [run_of_load (load_file h hfile), proceed_unifyLineEnds]

theorem not_misnamed_of_source (h : Source fs s r (some text)) : ¬ Misnamed fs s r := by
  rintro ⟨hfile, hmalformed⟩
  cases h with
  | inline h => simp [h] at hfile
  | file _ hread => cases hread.symm.trans hmalformed

theorem run_of_unopened (hfs : fs.Lawful r.file? out s) (h : Source fs s r none)
    (hnamed : ¬ Misnamed fs s r) :
    ∃ message, (r.run fs).run s = (⟨[.log .error message], .ok .unreadable⟩, s) := by
  cases h with
  | @unopened e h hread =>
    have hfile := run_read_source hfs h
    rw [hread] at hfile
    cases e with
    | refused reason path => exact ⟨_, run_of_load_error (load_refused h hfile)⟩
    | malformed => exact absurd ⟨h, hread⟩ hnamed

theorem run_of_misnamed (hfs : fs.Lawful r.file? out s) (h : Misnamed fs s r) :
    '\x00' ∈ r.source.toList ∧ (r.run fs).run s = (⟨[], .error (.file .malformed)⟩, s) := by
  obtain ⟨hfile, hmalformed⟩ := h
  have hread := run_read_source hfs hfile
  rw [hmalformed] at hread
  have hsource : r.source ∈ r.file? := by simp [Request.file?, hfile]
  exact ⟨hfs.null_of_malformed r.source hsource hmalformed,
    run_of_load_error (load_malformed hfile hread)⟩

/-! ## Where the output goes -/

/-- If the output goes to a file then the file takes any text. -/
def Writable (fs : FileSystem (StateM σ)) (s : σ) (r : Request) : Prop :=
  ∀ path, r.path? = some path → ∀ content, ((fs.write path content).run s).1 = .ok ()

/-- What the delivery of an output shows and does: it is printed, or written to the file. -/
structure Delivers (fs : FileSystem (StateM σ)) (r : Request) (s : σ) (output : String)
    (delivery : Event) (s' : σ) : Prop where
  printed : delivery.printed? = if r.path? = none then some output else none
  quiet : delivery.problem? = none
  files : s' = r.path?.elim s fun path => ((fs.write path output).run s).2

theorem run_deliver (hout : Writable fs s r) (output : String) :
    ∃ delivery s', (deliver fs r.out output).run s = (.ok delivery, s') ∧
      Delivers fs r s output delivery s' := by
  cases hpath : r.path? with
  | none =>
    refine ⟨.print output, s, ?_, by simp [hpath, Event.printed?], rfl, by rw [hpath]; rfl⟩
    rw [Request.path?] at hpath
    simp only [deliver, hpath]
    rfl
  | some path =>
    have hwrite : (fs.write path output).run s = (.ok (), ((fs.write path output).run s).2) :=
      Prod.ext (hout path hpath output) rfl
    refine ⟨.log .debug s!"wrote {path}", ((fs.write path output).run s).2, ?_,
      by simp [hpath, Event.printed?], rfl, by rw [hpath]; rfl⟩
    rw [Request.path?] at hpath
    simp only [deliver, hpath, StateT.run_bind]
    rw [hwrite]
    rfl

/-! ## The program runs -/

theorem run_proceed_tooDeep (h : parse (Token.scan text) = none) :
    (proceed fs r text).run s = (⟨[.log .error tooDeepMessage], .ok .tooDeep⟩, s) := by
  unfold proceed
  generalize parse (Token.scan text) = answer at h
  subst h
  rfl

/-- The report of a run that has delivered its output. -/
def conclusion (r : Request) (tree : Tree) (failure : Option Failure) (output : String)
    (delivery : Event) : Report :=
  ⟨(verdict tree failure).2 :: delivery :: linkTo r output, .ok (verdict tree failure).1⟩

theorem run_proceed {name : String} {renderer : Renderer} (hname : r.format = some name)
    (hrenderer : Renderer.ofFormat? name = some renderer) (hout : Writable fs s r)
    (h : parse (Token.scan text) = some (session, failure)) :
    ∃ delivery s', Delivers fs r s (renderer.render session.tree) delivery s' ∧
      (proceed fs r text).run s =
        (conclusion r session.tree failure (renderer.render session.tree) delivery, s') := by
  obtain ⟨delivery, s', hrun, hdelivers⟩ := run_deliver hout (renderer.render session.tree)
  refine ⟨delivery, s', hdelivers, ?_⟩
  have hrendered : rendered session.tree r.format = .ok (renderer.render session.tree) := by
    simp only [rendered, hname, Tree.render, hrenderer]
    rfl
  unfold proceed
  generalize parse (Token.scan text) = answer at h
  subst h
  simp only [hrendered, StateT.run_bind, hrun]
  rfl

/-! ## What a run has to show -/

variable {tree : Tree} {delivery : Event}

theorem printed_conclusion (hdelivers : Delivers fs r s output delivery s') :
    (conclusion r tree failure output delivery).printed =
      (if r.path? = none then [output] else []) ++
        (linkTo r output).filterMap Event.printed? := by
  have hlogged : (verdict tree failure).2.printed? = none := by
    cases failure <;> rfl
  rw [conclusion, Report.printed, List.filterMap_cons_none hlogged, List.filterMap_cons,
    hdelivers.printed]
  by_cases hpath : r.path? = none <;> simp [hpath]

theorem problems_conclusion (hdelivers : Delivers fs r s output delivery s') :
    (conclusion r tree failure output delivery).problems =
      (failure.map (·.message)).toList := by
  have hlinks : (linkTo r output).filterMap Event.problem? = [] := by
    unfold linkTo
    split
    · split <;> rfl
    · rfl
  rw [conclusion, Report.problems_eq_filterMap, List.filterMap_cons,
    List.filterMap_cons_none hdelivers.quiet, hlinks]
  cases failure <;> rfl

/-- What a run with a tree has to show for it. The output goes to one place, and nothing is printed
besides but a link that was asked for; what the output says and the errors that are logged agree
with the status. -/
structure Presents (fs : FileSystem (StateM σ)) (r : Request) (renderer : Renderer) (s : σ)
    (tree : Tree) (status : Status) (report : Report) (s' : σ) : Prop where
  printed : report.printed = (if r.path? = none then [renderer.render tree] else []) ++
    (linkTo r (renderer.render tree)).filterMap Event.printed?
  unlinked : r.link = false →
    report.output = if r.path? = none then renderer.render tree else ""
  files : s' = r.path?.elim s fun path => ((fs.write path (renderer.render tree)).run s).2
  written : ∀ path, r.path? = some path →
    ((fs.read path).run s').1 = .ok (renderer.render tree).toUTF8
  accepted : ∀ layout, renderer = .json layout →
    (Document.read? (renderer.render tree)).bind (·.field? "accepted") =
      some (.bool (status = .accepted))
  problems : report.problems = (tree.nodes.filter (·.role = .error)).map (·.label)
  one_problem : status = .rejected → report.problems.length = 1

theorem presents_conclusion {renderer : Renderer} {file : Option String}
    (hfs : fs.Lawful file r.path? s) (hout : Writable fs s r)
    (h : parse (Token.scan text) = some (session, failure))
    (hdelivers : Delivers fs r s (renderer.render session.tree) delivery s') :
    Presents fs r renderer s session.tree (verdict session.tree failure).1
      (conclusion r session.tree failure (renderer.render session.tree) delivery) s' where
  printed := printed_conclusion hdelivers
  unlinked := fun hlink => by
    have hlinks : linkTo r (renderer.render session.tree) = [] :=
      if_neg fun hlinked => by simp [hlink] at hlinked
    rw [Report.output_eq_join, printed_conclusion hdelivers, hlinks, List.filterMap_nil,
      List.append_nil]
    split
    · exact String.empty_append
    · rfl
  files := hdelivers.files
  written := fun path hpath => by
    rw [hdelivers.files, hpath]
    exact hfs.read_write path hpath _ (hout path hpath _)
  accepted := by
    rintro layout rfl
    have hread : Document.read? (Renderer.render session.tree (.json layout)) =
        some session.tree.document :=
      Document.read?_write session.tree.document layout
    have hfield : session.tree.document.field? "accepted" = some (.bool session.tree.accepted) :=
      rfl
    rw [hread, Option.bind_some, hfield, accepted_of_parse h]
    cases failure <;> rfl
  problems := by
    rw [problems_conclusion hdelivers, filter_error_of_parse h]
    cases failure <;> rfl
  one_problem := by
    rw [problems_conclusion hdelivers]
    cases failure with
    | none => exact nofun
    | some f => exact fun _ => rfl

end Run

open Run in
/-- The status of a run, its output and the outcome of the parse agree, but for a source that is a
path with a null character: no file can have it, and the run breaks off with nothing shown and
nothing changed. Any other run ends with a status, which is 2 if and only if the file cannot be
opened. Otherwise it is 0, 1 or 3 as the parse of the program succeeds, fails or nests too deeply.
With 0 and 1 the rendered tree is delivered once, and the log and the output tell the outcome; with
2 and 3 nothing is printed and no file is touched. -/
theorem Request.run_outcome_agrees {σ : Type} {fs : FileSystem (StateM σ)} {r : Request} {s : σ}
    (hfs : fs.Lawful r.file? r.path? s) {name : String} {renderer : Renderer}
    (hname : r.format = some name) (hrenderer : Renderer.ofFormat? name = some renderer)
    {source : Option String} (hsource : Source fs s r source) (hout : Writable fs s r) :
    ∃ report s', (r.run fs).run s = (report, s') ∧
      ((∃ status, report.ending = .ok status) ↔ ¬ Misnamed fs s r) ∧
      (Misnamed fs s r → '\x00' ∈ r.source.toList ∧ source = none ∧
        report = ⟨[], .error (.file .malformed)⟩ ∧ s' = s) ∧
      ∀ status, report.ending = .ok status →
        (status.code = 2 ↔ source = none) ∧
        (∀ text ∈ source,
          (status.code = 0 ↔ ∃ session, parse (Token.scan text) = some (session, none)) ∧
          (status.code = 1 ↔ ∃ session f, parse (Token.scan text) = some (session, some f)) ∧
          (status.code = 3 ↔ parse (Token.scan text) = none) ∧
          ∀ session failure, parse (Token.scan text) = some (session, failure) →
            Presents fs r renderer s session.tree status report s') ∧
        (status.code = 2 ∨ status.code = 3 → report.printed = [] ∧ s' = s) := by
  cases source with
  | none =>
    by_cases hnamed : Misnamed fs s r
    · obtain ⟨hnull, hrun⟩ := run_of_misnamed hfs hnamed
      refine ⟨_, s, hrun, iff_of_false ?_ (not_not_intro hnamed),
        fun _ => ⟨hnull, rfl, rfl, rfl⟩, nofun⟩
      rintro ⟨_, hstatus⟩
      cases hstatus
    · obtain ⟨message, hrun⟩ := run_of_unopened hfs hsource hnamed
      refine ⟨_, s, hrun, iff_of_true ⟨.unreadable, rfl⟩ hnamed, fun h => absurd h hnamed, ?_⟩
      intro status hstatus
      obtain rfl := Except.ok.inj hstatus
      exact ⟨by decide, nofun, fun _ => ⟨rfl, rfl⟩⟩
  | some text =>
    have hrun := run_of_source hfs hsource
    have hnamed := not_misnamed_of_source hsource
    simp only [Option.mem_some_iff, forall_eq']
    cases hparse : parse (Token.scan text) with
    | none =>
      refine ⟨_, s, hrun.trans (run_proceed_tooDeep hparse), iff_of_true ⟨.tooDeep, rfl⟩ hnamed,
        fun h => absurd h hnamed, ?_⟩
      intro status hstatus
      obtain rfl := Except.ok.inj hstatus
      simp [Status.code, Report.printed, Event.printed?]
    | some answer =>
      obtain ⟨session, failure⟩ := answer
      obtain ⟨delivery, s', hdelivers, hproceed⟩ := run_proceed hname hrenderer hout hparse
      have hpresents := presents_conclusion hfs hout hparse hdelivers
      refine ⟨_, s', hrun.trans hproceed, iff_of_true ⟨_, rfl⟩ hnamed, fun h => absurd h hnamed, ?_⟩
      intro status hstatus
      obtain rfl := Except.ok.inj hstatus
      refine ⟨?_, ⟨?_, ?_, ?_, ?_⟩, ?_⟩
      · cases failure <;> simp [verdict, Status.code]
      · cases failure <;> simp [verdict, Status.code]
      · cases failure <;> simp [verdict, Status.code]
      · cases failure <;> simp [verdict, Status.code]
      · intro session' failure' hsame
        obtain ⟨rfl, rfl⟩ := Prod.mk.inj (Option.some.inj hsame)
        exact hpresents
      · cases failure <;> simp [verdict, Status.code]

/-- A file that declares a name twice: the tree goes to a file as JSON that says so, and nothing is
printed. -/
theorem Request.run_outcome_of_second_declaration :
    ∃ files report files',
      (run Files.system { source := "p", format := some "JSON", out := some "o", link := true }).run
        files = (report, files') ∧
      report.ending = .ok .rejected ∧ report.problems.length = 1 ∧ report.printed = [] ∧
      ∃ output, ((Files.system.read "o").run files').1 = .ok output.toUTF8 ∧
        (Document.read? output).bind (·.field? "accepted") = some (.bool false) := by
  let r : Request := { source := "p", format := some "JSON", out := some "o", link := true }
  let text : String := "var x\nvar x"
  let files : Files := ⟨[(["p"], .file text.toUTF8)]⟩
  have hread : ((Files.system.read "p").run files).1 = .ok text.toUTF8 := by cbv
  have hsource : Run.Source Files.system files r (some text) := .file rfl hread
  have hout : Run.Writable Files.system files r := by
    intro path hpath content
    obtain rfl : "o" = path := Option.some.inj hpath
    rw [Files.run_write]
    cbv
  have hfails : (parse (Token.scan text)).map (·.2.isSome) = some true := by
    decide +kernel
  obtain ⟨⟨session, failure⟩, hparse, hfailure⟩ := Option.map_eq_some_iff.mp hfails
  obtain ⟨f, rfl⟩ := Option.isSome_iff_exists.mp hfailure
  have hformat : Renderer.ofFormat? "JSON" = some (.json (.spread 2)) := by decide +kernel
  obtain ⟨report, files', hrun, hends, _, hagrees⟩ :=
    run_outcome_agrees (Files.lawful_system _ _ files) rfl hformat hsource hout
  obtain ⟨status, hending⟩ := hends.mpr (Run.not_misnamed_of_source hsource)
  obtain ⟨_, hstatus, _⟩ := hagrees status hending
  obtain ⟨_, hrejected, _, hpresents⟩ := hstatus text rfl
  have hcode : status.code = 1 := hrejected.mpr ⟨session, f, hparse⟩
  obtain rfl : status = .rejected := by
    revert hcode
    cases status <;> decide
  obtain ⟨hprinted, _, _, hwritten, haccepted, _, hproblem⟩ := hpresents session (some f) hparse
  refine ⟨files, report, files', hrun, hending, hproblem rfl, ?_, _, hwritten "o" rfl,
    haccepted _ rfl⟩
  rw [hprinted]
  rfl

/-- Not every path that cannot be opened lets a run end with 2: one with a null character does
not. -/
theorem Request.not_every_unopened_path_ends :
    ¬ ∀ path : String, (∃ e, ((Files.system.read path).run {}).1 = .error e) →
      ∃ status, ((run Files.system { source := path }).run {}).1.ending = .ok status ∧
        status.code = 2 := by
  intro h
  have hread : ((Files.system.read "a\x00b").run {}).1 = .error .malformed := by cbv
  obtain ⟨status, hstatus, _⟩ := h "a\x00b" ⟨_, hread⟩
  have hbroken : ((run Files.system { source := "a\x00b" }).run {}).1.ending =
      .error (.file .malformed) := by
    cbv
  rw [hbroken] at hstatus
  cases hstatus

end TopDown
