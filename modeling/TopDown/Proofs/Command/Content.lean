import TopDown.Proofs.Command.Outcome

/-!
# Contents that break a run off

A file may hold any bytes. A run on a file in UTF-8 ends with a status, whatever the text is, and so
does a run on a file that cannot be opened. Bytes that are no UTF-8 break the run off while it loads
them: it ends with no status, and nothing is logged or printed.
-/

namespace TopDown

namespace Run

/-- The bytes of no text. -/
def Undecodable (bytes : ByteArray) : Prop :=
  ∀ text : String, bytes ≠ text.toUTF8

theorem undecodable_of_not_valid {bytes : ByteArray} (h : ¬ bytes.IsValidUTF8) :
    Undecodable bytes := by
  rintro text rfl
  exact h text.isValidUTF8

theorem decode_of_undecodable {bytes : ByteArray} (h : Undecodable bytes) :
    decode bytes = none := by
  have hinvalid : ¬ bytes.IsValidUTF8 := fun hvalid => h (.ofByteArray bytes hvalid) rfl
  rw [decode, String.fromUTF8?, dif_neg hinvalid, Option.map_none]

variable {σ : Type} {fs : FileSystem (StateM σ)} {r : Request} {s s' : σ}

theorem load_undecodable {bytes : ByteArray} (h : r.isText = false)
    (hread : (fs.read r.source).run s = (.ok bytes, s')) (hbytes : Undecodable bytes) :
    (load fs r).run s = (.error ⟨[], .error .undecodable⟩, s') := by
  simp only [load, h, Bool.false_eq_true, if_false, StateT.run_bind, hread]
  simp only [bind, decode_of_undecodable hbytes]
  rfl

/-- A run that has loaded a text and prints its output ends with one of three statuses. -/
theorem exists_status_of_proceed (fs : FileSystem (StateM σ)) (text : String) (s : σ)
    {name : String} {renderer : Renderer} (hout : r.out = none) (hname : r.format = some name)
    (hrenderer : Renderer.ofFormat? name = some renderer) :
    ∃ report status, (proceed fs r text).run s = (report, s) ∧ report.ending = .ok status ∧
      status ≠ .unreadable := by
  have hpath : r.path? = none := by
    rw [Request.path?, hout, Option.filter_none]
  cases hparse : parse (Token.scan text) with
  | none => exact ⟨_, .tooDeep, run_proceed_tooDeep hparse, rfl, by decide⟩
  | some answer =>
    obtain ⟨session, failure⟩ := answer
    have hwritable : Writable fs s r := fun path hsome => by simp [hpath] at hsome
    obtain ⟨delivery, s', hdelivers, hproceed⟩ := run_proceed hname hrenderer hwritable hparse
    obtain rfl : s' = s := by rw [hdelivers.files, hpath, Option.elim_none]
    refine ⟨_, (verdict session.tree failure).1, hproceed, rfl, ?_⟩
    cases failure <;> simp [verdict]

end Run

namespace Request

open Run

/-- A run on a file that prints its output in a format that there is ends with a status if and only
if it does not read bytes that are no UTF-8. It ends with 2, logs one error and prints nothing if
the file cannot be opened, and with 0, 1 or 3 if the file holds a text; bytes of no text break it
off with nothing shown. -/
theorem run_ends_iff_decodable {σ : Type} {fs : FileSystem (StateM σ)} {path : String} {s : σ}
    (hfs : fs.Lawful (some path) none s) (hpath : '\x00' ∉ path.toList) {name : String}
    {renderer : Renderer} (hrenderer : Renderer.ofFormat? name = some renderer) (link : Bool) :
    ∃ report, (run fs { source := path, format := some name, link }).run s = (report, s) ∧
      ((∃ status, report.ending = .ok status) ↔
        ¬ ∃ bytes, ((fs.read path).run s).1 = .ok bytes ∧ Undecodable bytes) ∧
      (∀ e, ((fs.read path).run s).1 = .error e →
        (∃ status, report.ending = .ok status ∧ status.code = 2) ∧ report.problems.length = 1 ∧
          report.printed = []) ∧
      (∀ text : String, ((fs.read path).run s).1 = .ok text.toUTF8 →
        ∃ status, report.ending = .ok status ∧
          (status.code = 0 ∨ status.code = 1 ∨ status.code = 3)) ∧
      ∀ bytes, ((fs.read path).run s).1 = .ok bytes → Undecodable bytes →
        report.ending = .error .undecodable ∧ report.events = [] := by
  let r : Request := { source := path, format := some name, link }
  cases hread : ((fs.read path).run s).1 with
  | error e =>
    have hsource : Source fs s r none := .unopened rfl hread
    have hnamed : ¬ Misnamed fs s r := fun h => hpath (hfs.null_of_malformed path rfl h.2)
    obtain ⟨message, hrun⟩ := run_of_unopened hfs hsource hnamed
    refine ⟨_, hrun, iff_of_true ⟨.unreadable, rfl⟩ ?_, fun _ _ => ?_, nofun, nofun⟩
    · rintro ⟨_, hok, _⟩
      cases hok
    · exact ⟨⟨.unreadable, rfl, rfl⟩, rfl, rfl⟩
  | ok bytes =>
    by_cases hbytes : Undecodable bytes
    · have hfile : (fs.read r.source).run s = (.ok bytes, s) :=
        Prod.ext hread (hfs.read_keeps path rfl)
      have hrun := run_of_load_error (load_undecodable rfl hfile hbytes)
      refine ⟨_, hrun, iff_of_false ?_ (not_not_intro ⟨bytes, rfl, hbytes⟩), nofun, ?_, ?_⟩
      · rintro ⟨_, hstatus⟩
        cases hstatus
      · exact fun text hok => absurd (Except.ok.inj hok) (hbytes text)
      · exact fun _ _ _ => ⟨rfl, rfl⟩
    · obtain ⟨text, rfl⟩ : ∃ text : String, bytes = text.toUTF8 := by
        simpa [Undecodable] using hbytes
      have hsource : Source fs s r (some text) := .file rfl hread
      obtain ⟨report, status, hproceed, hending, hstatus⟩ :=
        exists_status_of_proceed fs text s (r := r) rfl rfl hrenderer
      have hcode : status.code = 0 ∨ status.code = 1 ∨ status.code = 3 := by
        revert hstatus
        cases status <;> decide
      refine ⟨report, (run_of_source hfs hsource).trans hproceed, iff_of_true ⟨status, hending⟩ ?_,
        nofun, fun _ _ => ⟨status, hending, hcode⟩, ?_⟩
      · rintro ⟨_, hok, hnone⟩
        exact hnone text (Except.ok.inj hok).symm
      · exact fun _ hok hnone => absurd (Except.ok.inj hok).symm (hnone text)

/-- The first bytes of a text do not help if the last one is in no text. -/
theorem run_breaks_off_after_var :
    ∃ files : Files, ∃ bytes : ByteArray,
      '\x00' ∉ "p".toList ∧ Renderer.ofFormat? "outline" = some (.outline "  ") ∧
      ((Files.system.read "p").run files).1 = .ok bytes ∧ Undecodable bytes ∧
      ∃ report, (run Files.system { source := "p", format := some "outline" }).run files =
        (report, files) ∧ report.ending = .error .undecodable ∧ report.events = [] := by
  let bytes : ByteArray := ⟨#[0x76, 0x61, 0x72, 0x20, 0x61, 0xff]⟩
  let files : Files := ⟨[(["p"], .file bytes)]⟩
  have hpath : '\x00' ∉ "p".toList := by decide
  have hformat : Renderer.ofFormat? "outline" = some (.outline "  ") := by decide +kernel
  have hread : ((Files.system.read "p").run files).1 = .ok bytes := by cbv
  have hbytes : Undecodable bytes := undecodable_of_not_valid (by decide)
  obtain ⟨report, hrun, _, _, _, hbroken⟩ :=
    run_ends_iff_decodable (Files.lawful_system _ _ files) hpath hformat false
  exact ⟨files, bytes, hpath, hformat, hread, hbytes, report, hrun, hbroken bytes hread hbytes⟩

/-- Not every content of a file lets a run end with a status: the byte 255 does not. -/
theorem not_every_content_ends :
    ¬ ∀ content : ByteArray, ∃ status,
      ((run Files.system { source := "p" }).run ⟨[(["p"], .file content)]⟩).1.ending =
        .ok status := by
  intro h
  obtain ⟨status, hstatus⟩ := h ⟨#[0xff]⟩
  have hbroken : ((run Files.system { source := "p" }).run
      ⟨[(["p"], .file ⟨#[0xff]⟩)]⟩).1.ending = .error .undecodable := by
    cbv
  rw [hbroken] at hstatus
  cases hstatus

end Request

end TopDown
