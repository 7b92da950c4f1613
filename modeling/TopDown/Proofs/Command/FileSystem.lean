import Mathlib
import TopDown.Command.FileSystem

/-!
# What file systems keep

A run relies on three things of the file system that it starts in: to read its program changes
nothing, its output is read back with what was written, and its program is not taken for something
else than a path unless it has a null character. The files in memory keep them, since the file that
a write puts at the end of a path stands in the way of no directory on it.
-/

namespace TopDown

/-- In the state `s`, to read `source` changes nothing, what is written to `out` is read back, and
`source` is a path if it has no null character. -/
structure FileSystem.Lawful {σ : Type} (fs : FileSystem (StateM σ)) (source out : Option String)
    (s : σ) : Prop where
  read_keeps : ∀ path ∈ source, ((fs.read path).run s).2 = s
  read_write : ∀ path ∈ out, ∀ content, ((fs.write path content).run s).1 = .ok () →
    ((fs.read path).run ((fs.write path content).run s).2).1 = .ok content.toUTF8
  null_of_malformed : ∀ path ∈ source,
    ((fs.read path).run s).1 = .error .malformed → '\x00' ∈ path.toList

namespace Files

variable {fs fs' : Files} {way target names : List String} {entry : Entry} {path content : String}

theorem entry?_put_of_ne (hne : way ≠ target) :
    entry? (fs.put target entry) way = fs.entry? way := by
  have hlookup : ∀ entries : List (List String × Entry),
      (entries.filter (·.1 ≠ target)).lookup way = entries.lookup way := by
    intro entries
    induction entries with
    | nil => rfl
    | cons e entries ih =>
      by_cases he : e.1 = target
      · rw [List.filter_cons_of_neg (by simpa using he), ih, List.lookup_cons,
          beq_false_of_ne (he ▸ hne)]
      · rw [List.filter_cons_of_pos (by simpa using he), List.lookup_cons, List.lookup_cons, ih]
  unfold entry?
  rw [put, List.lookup_cons, beq_false_of_ne hne, hlookup]

/-- An entry is found where it is put, unless a directory is there. -/
theorem entry?_put_self (hfile : fs.entry? target ≠ some .directory) :
    entry? (fs.put target entry) target = some entry := by
  unfold entry? at hfile ⊢
  split
  · next hspecial => exact absurd (if_pos hspecial) hfile
  · simp [put]

/-- A file that is put at the end of a walk leaves the walk as it is. -/
theorem walk_put (hwalk : fs.walk way names = .ok target)
    (hfile : fs.entry? target ≠ some .directory) (bytes : ByteArray) :
    (fs.put target (.file bytes)).walk way names = .ok target := by
  have hput : entry? (fs.put target (.file bytes)) target = some (.file bytes) :=
    entry?_put_self hfile
  fun_induction walk fs way names with
  | case1 way => exact hwalk
  | case2 way rest ih => rw [walk, if_pos rfl, ih hwalk]
  | case3 way rest hdot ih => rw [walk, if_neg hdot, if_pos rfl, ih hwalk]
  | case4 => cases hwalk
  | case5 way name rest hdot hdots hname hdirectory ih =>
    have hne : way ++ [name] ≠ target := fun heq => hfile (heq ▸ hdirectory)
    rw [walk, if_neg hdot, if_neg hdots, if_neg hname, entry?_put_of_ne hne, hdirectory]
    exact ih hwalk
  | case6 way name rest hdot hdots hname _ _ hlast =>
    obtain rfl := Except.ok.inj hwalk
    rw [walk, if_neg hdot, if_neg hdots, if_neg hname, hput]
    exact if_pos hlast
  | case7 => cases hwalk
  | case8 way name rest hdot hdots hname _ hlast =>
    obtain rfl := Except.ok.inj hwalk
    rw [walk, if_neg hdot, if_neg hdots, if_neg hname, hput]
    exact if_pos hlast
  | case9 => cases hwalk

/-- A write succeeds if the path leads to a place for a file, and puts the file there. -/
theorem write_eq_ok_iff : fs.write path content = .ok fs' ↔
    asksDirectory path = false ∧ ∃ way, fs.locate path (Files.names path) = .ok way ∧
      fs.entry? way ≠ some .directory ∧ fs' = fs.put way (.file content.toUTF8) := by
  unfold write
  cases asksDirectory path with
  | true =>
    cases fs.locate path ((Files.names path).dropLast ++ ["."]) <;> simp [bind, Except.bind]
  | false =>
    cases fs.locate path (Files.names path) with
    | error reason => simp [bind, Except.bind]
    | ok way =>
      simp only [bind, Except.bind, Bool.false_eq_true, if_false, Except.ok.injEq, exists_eq_left',
        true_and]
      cases fs.entry? way with
      | none => simp [pure, Except.pure, eq_comm]
      | some entry => cases entry <;> simp [pure, Except.pure, eq_comm]

/-- What is read is the content of the file at the end of the path. -/
theorem read_of_locate {bytes : ByteArray} (hask : asksDirectory path = false)
    (hlocate : fs.locate path (Files.names path) = .ok way)
    (hentry : fs.entry? way = some (.file bytes)) : fs.read path = .ok bytes := by
  simp only [read, hask, Bool.false_eq_true, if_false, List.append_nil, hlocate, bind, Except.bind,
    hentry]
  rfl

theorem locate_put (hlocate : fs.locate path names = .ok target)
    (hfile : fs.entry? target ≠ some .directory) (bytes : ByteArray) :
    (fs.put target (.file bytes)).locate path names = .ok target := by
  unfold locate at hlocate ⊢
  split at hlocate
  · cases hlocate
  · next hpath =>
    rw [if_neg hpath]
    split at hlocate
    · cases hlocate
    · next hlong =>
      rw [if_neg hlong]
      exact walk_put hlocate hfile bytes

/-- What a write puts into a file is what is read from it. -/
theorem read_of_write (h : fs.write path content = .ok fs') :
    fs'.read path = .ok content.toUTF8 := by
  obtain ⟨hask, way, hlocate, hfile, rfl⟩ := write_eq_ok_iff.mp h
  exact read_of_locate hask (locate_put hlocate hfile _) (entry?_put_self hfile)

theorem run_read (path : String) (fs : Files) :
    (system.read path).run fs = (if isMalformed path then .error .malformed
      else (fs.read path).mapError (.refused · path), fs) := by
  cases hpath : isMalformed path <;> simp only [system, hpath] <;> rfl

theorem run_write (path content : String) (fs : Files) :
    (system.write path content).run fs = if isMalformed path then (.error .malformed, fs) else
      match fs.write path content with
      | .ok fs' => (.ok (), fs')
      | .error reason => (.error (.refused reason path), fs) := by
  cases hpath : isMalformed path with
  | true =>
    simp only [system, hpath]
    rfl
  | false =>
    cases hfiles : fs.write path content <;>
      simp only [system, hpath, StateT.run_bind, StateT.run_get, pure_bind, hfiles] <;> rfl

theorem lawful_system (source out : Option String) (fs : Files) :
    system.Lawful source out fs where
  read_keeps path _ := by rw [run_read]
  read_write path _ content := by
    intro hwrite
    rw [run_write] at hwrite ⊢
    rw [run_read]
    cases hpath : isMalformed path with
    | true =>
      rw [hpath] at hwrite
      cases hwrite
    | false =>
      cases hfiles : fs.write path content with
      | error reason =>
        rw [hpath, hfiles] at hwrite
        cases hwrite
      | ok fs' =>
        show (fs'.read path).mapError _ = _
        rw [read_of_write hfiles]
        rfl
  null_of_malformed path _ := by
    intro hread
    rw [run_read] at hread
    cases hpath : isMalformed path with
    | true => simpa [isMalformed] using hpath
    | false =>
      rw [hpath] at hread
      cases hfiles : fs.read path <;> rw [hfiles] at hread <;> cases hread

end Files

end TopDown
