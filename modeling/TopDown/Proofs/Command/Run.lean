import TopDown.Command.Run
import TopDown.Proofs.Command.FileSystem
import TopDown.Proofs.Lexicon.LineEnds

/-!
# Loaded programs

A run loads a program and then goes on with the text alone. A file in UTF-8 is loaded with its line
ends unified, which no token shows, so that a run treats it as it treats the same text.
-/

namespace TopDown

namespace Run

/-- What a run does with the text that it has loaded. -/
def proceed {m : Type → Type} [Monad m] (fs : FileSystem m) (r : Request) (text : String) :
    m Report := do
  match parse (Token.scan text) with
  | none => return ⟨[.log .error tooDeepMessage], .ok .tooDeep⟩
  | some (session, failure) =>
    let (status, entry) := verdict session.tree failure
    match rendered session.tree r.format with
    | .error e => return ⟨[entry], .error e⟩
    | .ok output =>
      match ← deliver fs r.out output with
      | .error e => return ⟨[entry], .error (.file e)⟩
      | .ok delivery => return ⟨entry :: delivery :: linkTo r output, .ok status⟩

theorem run_eq_proceed {m : Type → Type} [Monad m] (fs : FileSystem m) (r : Request) :
    r.run fs = (load fs r >>= fun
      | .error report => pure report
      | .ok text => proceed fs r text) := by
  unfold Request.run proceed
  congr 1

variable {σ : Type} {fs : FileSystem (StateM σ)} {r : Request} {s s' : σ} {text : String}

theorem run_of_load (h : (load fs r).run s = (.ok text, s')) :
    (r.run fs).run s = (proceed fs r text).run s' := by
  rw [run_eq_proceed, StateT.run_bind, h]
  rfl

theorem run_of_load_error {report : Report} (h : (load fs r).run s = (.error report, s')) :
    (r.run fs).run s = (report, s') := by
  rw [run_eq_proceed, StateT.run_bind, h]
  rfl

theorem decode_toUTF8 (text : String) :
    decode text.toUTF8 = some (String.ofList (Text.unifyLineEnds text.toList)) := by
  have hvalid : String.fromUTF8? text.toUTF8 = some text := dif_pos text.isValidUTF8
  rw [decode, hvalid]
  rfl

theorem load_text (h : r.isText = true) : (load fs r).run s = (.ok r.source, s) := by
  simp only [load, h]
  rfl

theorem load_file (h : r.isText = false)
    (hread : (fs.read r.source).run s = (.ok text.toUTF8, s')) :
    (load fs r).run s = (.ok (String.ofList (Text.unifyLineEnds text.toList)), s') := by
  simp only [load, h, Bool.false_eq_true, if_false, StateT.run_bind, hread]
  simp only [bind, decode_toUTF8]
  rfl

/-- A path that the file system refuses leaves nothing to run. -/
theorem load_refused {reason : Refusal} {path : String} (h : r.isText = false)
    (hread : (fs.read r.source).run s = (.error (.refused reason path), s')) :
    (load fs r).run s = (.error ⟨[.log .error
      s!"Error reading the file {r.source}: {(FileError.refused reason path).message}"],
        .ok .unreadable⟩, s') := by
  simp only [load, h, Bool.false_eq_true, if_false, StateT.run_bind, hread]
  rfl

/-- A text that is no path breaks the run off. -/
theorem load_malformed (h : r.isText = false)
    (hread : (fs.read r.source).run s = (.error .malformed, s')) :
    (load fs r).run s = (.error ⟨[], .error (.file .malformed)⟩, s') := by
  simp only [load, h, Bool.false_eq_true, if_false, StateT.run_bind, hread]
  rfl

/-- What a run does with a text does not depend on the form of the line ends. -/
theorem proceed_unifyLineEnds (r : Request) (text : String) :
    proceed fs r (String.ofList (Text.unifyLineEnds text.toList)) = proceed fs r text := by
  unfold proceed
  simp only [Token.scan_unifyLineEnds]

end Run

namespace Request

/-- A run on a file that holds a text in UTF-8 is a run on the text: it shows the same events, ends
in the same way and leaves the same files behind. -/
theorem run_file_eq_run_text {σ : Type} {fs : FileSystem (StateM σ)} {s : σ} {path text : String}
    (hread : (fs.read path).run s = (.ok text.toUTF8, s)) (format out : Option String)
    (link : Bool) :
    (run fs { source := path, isText := false, format, out, link }).run s =
      (run fs { source := text, isText := true, format, out, link }).run s := by
  rw [Run.run_of_load (Run.load_file rfl hread), Run.run_of_load (Run.load_text rfl),
    Run.proceed_unifyLineEnds]
  -- Nothing after the loading looks at the source.
  rfl

/-- A file with line ends of three kinds and a comment is run like its text: both reject the second
declaration of a name. -/
theorem run_file_with_mixed_line_ends :
    ∃ files : Files, ∃ text : String, '\r' ∈ text.toList ∧
      (Files.system.read "p").run files = (.ok text.toUTF8, files) ∧
      (run Files.system { source := "p", format := some "json" }).run files =
        (run Files.system { source := text, isText := true, format := some "json" }).run files ∧
      ((run Files.system { source := text, isText := true, format := some "json" }).run
        files).1.logs = [(.error, "semantic error: 'x' is already declared (line 2, col 5)")] := by
  let text : String := "# a\r\nvar x\r# b\nvar x\r"
  let files : Files := ⟨[(["p"], .file text.toUTF8)]⟩
  have hread : (Files.system.read "p").run files = (.ok text.toUTF8, files) := by cbv
  refine ⟨files, text, by decide, hread, run_file_eq_run_text hread _ _ _, ?_⟩
  decide +kernel

end Request

end TopDown
