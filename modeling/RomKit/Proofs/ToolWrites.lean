import Mathlib.Tactic.ByContra
import RomKit.Command.Parsers
import RomKit.Proofs.SymbolFiles
import RomKit.Proofs.ToolSteps
import RomKit.Proofs.Verdicts

/-!
# What a run of the assembler tool writes

A run writes the image and then the symbol file, if one is asked for, and it says
something before and after. So it is stopped before the image is written, or after,
or not at all (`AssembleTool.Course`), and the disk it leaves follows from where it
was stopped.

A run is all or nothing in most cases: if it exits with 0 the image file holds the
image, and otherwise nothing on the disk is new or different. This is spoiled when
the image has been written and the run is stopped then, or when it is not stopped
and the image is lost, because the symbol file takes its place or a device does not
give it back. `AssembleTool.allOrNothing_iff` shows that nothing else spoils it.
-/

namespace RomKit

/-- The bytes of the symbol file, up to a line without bytes. -/
def Build.symbolFile (b : Build) : List UInt8 × Option Utf8.EncodeFault :=
  Utf8.encodeTexts (SymbolFile.render (some b.source) b.symbols)

namespace Assembler

theorem writeImage_holding (strict : Bool) (b : Build) (path : Path) :
    (holding strict (some b)).writeImage path
      = FileWork.change fun d => d.write path b.image.toList := rfl

theorem writeSymbols_holding (strict : Bool) (b : Build) (path : Path) :
    (holding strict (some b)).writeSymbols path
      = FileWork.writeTexts (fun bytes d => d.write path bytes)
        (SymbolFile.render (some b.source) b.symbols) := rfl

end Assembler

namespace AssembleTool

/-! ## The course of a job -/

/-- The lines that the tool says before it starts. -/
def opening (job : Job) : List RawText :=
  if job.verbose then ["Assembling " ++ job.input.text ++ "..."] else []

/-- The lines that the tool says in the end, for an image of some size and a number of labels. -/
def closing (job : Job) (size labels : Nat) : List RawText :=
  let wrote := job.symbols.toList.map fun path => RawText.ofString "Wrote symbols to " ++ path.text
  let assembled : RawText :=
    "Assembled as '" ++ job.image.text ++ "' in " ++ toString size ++ " bytes"
  let defined : RawText := "Defined " ++ toString labels ++ " labels"
  if job.verbose then wrote ++ [assembled, defined] else [assembled]

/-- The source of a job is read and assembled. -/
def Assembled (job : Job) (disk : Disk) (b : Build) : Prop :=
  ∃ contents, disk.read job.input = .ok contents
    ∧ (assemble job.strict job.input.text contents.stream).1 = .ok b

/-- The symbol file of a result is written, if one is asked for. -/
inductive SymbolsDone (job : Job) (b : Build) (between : Disk) : Disk → Prop where
  | unasked : job.symbols = none → SymbolsDone job b between between
  | written {path : Path} {after : Disk} :
      job.symbols = some path → between.write path b.symbolFile.1 = .ok after →
      b.symbolFile.2 = none → SymbolsDone job b between after

/-- Everything that can happen once the image of a result is written. -/
inductive Aftermath (job : Job) (channel : Channel) (b : Build) (between : Disk) :
    Verdict → Disk → Prop where
  /-- The symbol file cannot be written. -/
  | unwritten {path : Path} {fault : SystemFault} :
      job.symbols = some path → between.write path b.symbolFile.1 = .error fault →
      Aftermath job channel b between (.unwritten fault) between
  /-- The symbol file is written up to a line that has no bytes. -/
  | unencodable {path : Path} {fault : Utf8.EncodeFault} {after : Disk} :
      job.symbols = some path → between.write path b.symbolFile.1 = .ok after →
      b.symbolFile.2 = some fault → Aftermath job channel b between (.unencodable fault) after
  /-- A line is not taken in the end. -/
  | unsaid {fault : Utf8.EncodeFault} {after : Disk} :
      SymbolsDone job b between after →
      channel.firstRefusal? (closing job b.image.size b.symbols.length) = some fault →
      Aftermath job channel b between (.unsaid fault) after
  | done {after : Disk} :
      SymbolsDone job b between after →
      channel.firstRefusal? (closing job b.image.size b.symbols.length) = none →
      Aftermath job channel b between .done after

/-- Everything a job can do, with what it comes to and the disk that it leaves. -/
inductive Course (job : Job) (channel : Channel) (disk : Disk) : Verdict → Disk → Prop where
  /-- A line is not taken at the start. -/
  | unsaid {fault : Utf8.EncodeFault} :
      channel.firstRefusal? (opening job) = some fault →
      Course job channel disk (.unsaid fault) disk
  /-- The source cannot be opened. -/
  | unread {fault : SystemFault} :
      channel.firstRefusal? (opening job) = none → disk.read job.input = .error fault →
      Course job channel disk (.unread fault) disk
  | rejected {contents : Disk.Contents} {d : Diagnostic} :
      channel.firstRefusal? (opening job) = none → disk.read job.input = .ok contents →
      (assemble job.strict job.input.text contents.stream).1 = .error (.diagnostic d) →
      Course job channel disk (.rejected d) disk
  /-- The image cannot be written. -/
  | unwritten {b : Build} {fault : SystemFault} :
      channel.firstRefusal? (opening job) = none → Assembled job disk b →
      disk.write job.image b.image.toList = .error fault →
      Course job channel disk (.unwritten fault) disk
  | written {b : Build} {between after : Disk} {v : Verdict} :
      channel.firstRefusal? (opening job) = none → Assembled job disk b →
      disk.write job.image b.image.toList = .ok between →
      Aftermath job channel b between v after → Course job channel disk v after

theorem exists_aftermath_of_done {job : Job} {channel : Channel} {b : Build} {between after : Disk}
    (h : SymbolsDone job b between after) : ∃ v after, Aftermath job channel b between v after := by
  cases hline : channel.firstRefusal? (closing job b.image.size b.symbols.length) with
  | some fault => exact ⟨_, _, .unsaid h hline⟩
  | none => exact ⟨_, _, .done h hline⟩

theorem exists_aftermath (job : Job) (channel : Channel) (b : Build) (between : Disk) :
    ∃ v after, Aftermath job channel b between v after := by
  cases hpath : job.symbols with
  | none => exact exists_aftermath_of_done (.unasked hpath)
  | some path =>
      cases hwrite : between.write path b.symbolFile.1 with
      | error fault => exact ⟨_, _, .unwritten hpath hwrite⟩
      | ok after =>
          cases hfault : b.symbolFile.2 with
          | some fault => exact ⟨_, _, .unencodable hpath hwrite hfault⟩
          | none => exact exists_aftermath_of_done (.written hpath hwrite hfault)

/-- **Every job takes one of these courses.** -/
theorem exists_course (job : Job) (channel : Channel) (disk : Disk) :
    ∃ v after, Course job channel disk v after := by
  cases hopening : channel.firstRefusal? (opening job) with
  | some fault => exact ⟨_, _, .unsaid hopening⟩
  | none =>
      cases hread : disk.read job.input with
      | error fault => exact ⟨_, _, .unread hopening hread⟩
      | ok contents =>
          cases hbuild : (assemble job.strict job.input.text contents.stream).1 with
          | error e =>
              cases e with
              | diagnostic d => exact ⟨_, _, .rejected hopening hread hbuild⟩
              | patch e => exact absurd hbuild (assemble_ne_patch _ _ _ e)
          | ok b =>
              have hb : Assembled job disk b := ⟨contents, hread, hbuild⟩
              cases himage : disk.write job.image b.image.toList with
              | error fault => exact ⟨_, _, .unwritten hopening hb himage⟩
              | ok between =>
                  obtain ⟨v, after, h⟩ := exists_aftermath job channel b between
                  exact ⟨v, after, .written hopening hb himage h⟩

/-! ## The work of a job -/

/-- Writes the symbol file, if one is asked for, and says nothing about it yet. -/
def symbolWork (job : Job) (a : Assembler) : Work Unit :=
  match job.symbols with
  | none => pure ()
  | some path => Work.onDisk (a.writeSymbols path)

/-- What the tool does once it has assembled its source. -/
def remainder (job : Job) (a : Assembler) (image : Image) : Work ExitCode := do
  Work.onDisk (a.writeImage job.image)
  symbolWork job a
  Work.sayAll (closing job image.size a.symbols.length)
  return .success

theorem work_eq (job : Job) :
    work job = Work.sayAll (opening job)
      >>= fun _ => assembleFile job
      >>= fun r => remainder job r.1 r.2 := by
  unfold work remainder writeSymbols symbolWork opening closing
  cases hverbose : job.verbose with
  | false => cases hpath : job.symbols <;> simp [Work.sayAll]
  | true => cases hpath : job.symbols <;> simp [Work.sayAll]

section

variable {job : Job} {b : Build} {w : World} {between after : Disk}

theorem assembleFile_of_error {e : FileTrouble}
    (h : ((Assembler.fresh job.strict).runFile w.disk job.input).1 = .error e) :
    ∃ w', assembleFile job w = .error (Work.troubleOf e) w' ∧ w.Same w' := by
  obtain ⟨w', hlog, hsame⟩ := Work.quiet_log job.verbose
    ((Assembler.fresh job.strict).runFile w.disk job.input).2.2 w
  refine ⟨w', ?_, hsame⟩
  unfold assembleFile
  rw [Work.get_bind]
  dsimp only
  rw [Work.bind_of_ok hlog, h]
  rfl

theorem assembleFile_of_assembled (h : Assembled job w.disk b) :
    ∃ w', assembleFile job w = .ok (.holding job.strict (some b), b.image) w' ∧ w.Same w' := by
  obtain ⟨w', hlog, hsame⟩ := Work.quiet_log job.verbose
    ((Assembler.fresh job.strict).runFile w.disk job.input).2.2 w
  obtain ⟨contents, hread, hbuild⟩ := h
  obtain ⟨himage, hkept⟩ := Assembler.runFile_of_build (a := .fresh job.strict) hread hbuild
  refine ⟨w', ?_, hsame⟩
  unfold assembleFile
  rw [Work.get_bind]
  dsimp only
  rw [Work.bind_of_ok hlog, himage, hkept]
  rfl

theorem symbolWork_of_done (h : SymbolsDone job b w.disk after) :
    symbolWork job (.holding job.strict (some b)) w = .ok () { w with disk := after } := by
  unfold symbolWork
  cases h with
  | unasked hpath =>
      rw [hpath]
      rfl
  | written hpath hwrite hfault =>
      rw [hpath]
      dsimp only
      rw [Assembler.writeSymbols_holding]
      exact Work.onDisk_of_ok (writeTexts_of_ok hwrite hfault)

theorem remainder_of_unwritten {fault : SystemFault}
    (h : w.disk.write job.image b.image.toList = .error fault) :
    remainder job (.holding job.strict (some b)) b.image w = .error (.system fault) w := by
  have hfails : (Assembler.holding job.strict (some b)).writeImage job.image w.disk
      = .error (.system fault) w.disk := by
    rw [Assembler.writeImage_holding]
    exact change_of_fault h
  exact Work.bind_of_error (Work.onDisk_of_error hfails)

theorem remainder_of_written (h : w.disk.write job.image b.image.toList = .ok between) :
    remainder job (.holding job.strict (some b)) b.image w
      = (symbolWork job (.holding job.strict (some b))
          >>= fun _ => Work.sayAll (closing job b.image.size b.symbols.length)
          >>= fun _ => pure .success) { w with disk := between } := by
  have hwrites : (Assembler.holding job.strict (some b)).writeImage job.image w.disk
      = .ok () between := by
    rw [Assembler.writeImage_holding]
    exact change_of_ok h
  exact Work.bind_of_ok (Work.onDisk_of_ok hwrites)

/-- A step ends as a verdict says and leaves a disk. -/
def StopsAt (r : EStateM.Result Trouble World ExitCode) (v : Verdict) (after : Disk) : Prop :=
  (settled r).disk = after ∧ Work.EndsAs v r

theorem remainder_of_aftermath {v : Verdict}
    (h : w.disk.write job.image b.image.toList = .ok between)
    (hafter : Aftermath job w.channel b between v after) :
    StopsAt (remainder job (.holding job.strict (some b)) b.image w) v after := by
  rw [remainder_of_written h]
  cases hafter with
  | @unwritten path fault hpath hwrite =>
      have hstop : symbolWork job (.holding job.strict (some b)) { w with disk := between }
          = .error (.system fault) { w with disk := between } := by
        unfold symbolWork
        rw [hpath]
        dsimp only
        rw [Assembler.writeSymbols_holding]
        exact Work.onDisk_of_error (writeTexts_of_fault hwrite)
      rw [Work.bind_of_error hstop]
      exact ⟨rfl, rfl⟩
  | @unencodable path fault _ hpath hwrite hfault =>
      have hstop : symbolWork job (.holding job.strict (some b)) { w with disk := between }
          = .error (.unencodable fault) { w with disk := after } := by
        unfold symbolWork
        rw [hpath]
        dsimp only
        rw [Assembler.writeSymbols_holding]
        exact Work.onDisk_of_error (writeTexts_of_unencodable hwrite hfault)
      rw [Work.bind_of_error hstop]
      exact ⟨rfl, rfl⟩
  | unsaid hdone hline =>
      obtain ⟨w', hsay, hsame⟩ := Work.sayAll_of_refused (w := { w with disk := after }) hline
      rw [Work.bind_of_ok (symbolWork_of_done hdone), Work.bind_of_error hsay]
      exact ⟨hsame.disk, rfl⟩
  | done hdone hline =>
      obtain ⟨w', hsay, hsame⟩ := Work.sayAll_of_taken (w := { w with disk := after }) hline
      rw [Work.bind_of_ok (symbolWork_of_done hdone), Work.bind_of_ok hsay]
      exact ⟨hsame.disk, rfl⟩

/-- **The work of the tool ends as its course says.** -/
theorem work_of_course {v : Verdict} (h : Course job w.channel w.disk v after) :
    StopsAt (work job w) v after := by
  rw [work_eq]
  cases h with
  | unsaid hopening =>
      obtain ⟨w', hsay, hsame⟩ := Work.sayAll_of_refused hopening
      rw [Work.bind_of_error hsay]
      exact ⟨hsame.disk, rfl⟩
  | unread hopening hread =>
      obtain ⟨w₁, hsay, hsame⟩ := Work.sayAll_of_taken hopening
      rw [← hsame.disk] at hread
      obtain ⟨w₂, hfails, hsame'⟩ := assembleFile_of_error (Assembler.runFile_of_fault hread)
      rw [Work.bind_of_ok hsay, Work.bind_of_error hfails]
      exact ⟨(hsame.trans hsame').disk, rfl⟩
  | rejected hopening hread hbuild =>
      obtain ⟨w₁, hsay, hsame⟩ := Work.sayAll_of_taken hopening
      rw [← hsame.disk] at hread
      obtain ⟨w₂, hfails, hsame'⟩ :=
        assembleFile_of_error (Assembler.runFile_of_failure hread hbuild)
      rw [Work.bind_of_ok hsay, Work.bind_of_error hfails]
      exact ⟨(hsame.trans hsame').disk, rfl⟩
  | unwritten hopening hb himage =>
      obtain ⟨w₁, hsay, hsame⟩ := Work.sayAll_of_taken hopening
      rw [← hsame.disk] at hb
      obtain ⟨w₂, hassemble, hsame'⟩ := assembleFile_of_assembled hb
      rw [← (hsame.trans hsame').disk] at himage
      rw [Work.bind_of_ok hsay, Work.bind_of_ok hassemble]
      dsimp only
      rw [remainder_of_unwritten himage]
      exact ⟨(hsame.trans hsame').disk, rfl⟩
  | written hopening hb himage hafter =>
      obtain ⟨w₁, hsay, hsame⟩ := Work.sayAll_of_taken hopening
      rw [← hsame.disk] at hb
      obtain ⟨w₂, hassemble, hsame'⟩ := assembleFile_of_assembled hb
      rw [← (hsame.trans hsame').disk] at himage
      rw [← (hsame.trans hsame').channel] at hafter
      rw [Work.bind_of_ok hsay, Work.bind_of_ok hassemble]
      exact remainder_of_aftermath himage hafter

theorem run_of_course {v : Verdict} (h : Course job w.channel w.disk v after) (full : Bool)
    (task : String) (trace : Trouble → RawText) :
    ((work job).run full task trace w).ending = v.ending
      ∧ ((work job).run full task trace w).world.disk = after := by
  have hstops := work_of_course h
  refine ⟨Work.run_ending hstops.2 full task trace, ?_⟩
  rw [← hstops.1]
  unfold Work.run
  cases work job w <;> rfl

end

/-! ## All or nothing -/

/-- A run that exits with 0 leaves the image in its file, and any other run leaves the disk as it
was. -/
structure AllOrNothing (disk : Disk) (v : Values) (r : Run) : Prop where
  success : r.ending = .exit .success →
    ∃ image b, imagePath v.output = .ok image ∧ Assembled (v.job image) disk b
      ∧ r.world.disk.read image = .ok ⟨b.image.toList, none⟩
  failure : r.ending ≠ .exit .success → r.world.disk = disk

/-- The run comes to write an image, at a spot of the disk. -/
structure WritesImage (channel : Channel) (disk : Disk) (v : Values) (image : Path) (p : Spot)
    (b : Build) : Prop where
  output : imagePath v.output = .ok image
  opening : channel.firstRefusal? (opening (v.job image)) = none
  assembled : Assembled (v.job image) disk b
  spot : disk.locate image = .ok p
  takes : disk.takes b.image.toList p = true

/-- The symbol file can be written, at a spot of the disk. -/
def SymbolsAt (job : Job) (disk : Disk) (b : Build) (q : Spot) : Prop :=
  ∃ path, job.symbols = some path ∧ disk.locate path = .ok q
    ∧ disk.takes b.symbolFile.1 q = true

/-- The run is stopped after it has written the image. -/
inductive Interrupted (job : Job) (channel : Channel) (disk : Disk) (b : Build) : Prop where
  /-- The symbol file cannot be written. -/
  | unwritten {path : Path} :
      job.symbols = some path → ¬disk.Writable path b.symbolFile.1 →
      Interrupted job channel disk b
  /-- The symbol file tells the name of the source, which is no text of characters. -/
  | unencodable {path : Path} :
      job.symbols = some path → (¬∃ s : String, job.input.text = s) →
      Interrupted job channel disk b
  /-- The channel does not take a line. -/
  | unsaid {line : RawText} {fault : Utf8.EncodeFault} :
      line ∈ closing job b.image.size b.symbols.length →
      channel.refusal? (Text.plain (line ++ "\n")) = some fault → Interrupted job channel disk b

/-- What the run writes makes a difference. Of two writes at one spot only the second counts. -/
def Changes (job : Job) (disk : Disk) (p : Spot) (b : Build) : Prop :=
  (¬disk.Keeps b.image.toList p ∧ ¬SymbolsAt job disk b p)
    ∨ ∃ q, SymbolsAt job disk b q ∧ ¬disk.Keeps b.symbolFile.1 q

/-- The image cannot be read where it was written: a device does not give it back, or the symbol
file has taken its place. -/
def Loses (job : Job) (disk : Disk) (p : Spot) (b : Build) : Prop :=
  (disk.isDevice p = true ∧ disk.readAt job.image.text p ≠ .ok ⟨b.image.toList, none⟩)
    ∨ (disk.isDevice p = false ∧ SymbolsAt job disk b p ∧ b.symbolFile.1 ≠ b.image.toList)

/-- An image is written, and then the run is stopped and leaves a difference, or it is not stopped
and the image is lost. -/
def Spoiled (channel : Channel) (disk : Disk) (v : Values) : Prop :=
  ∃ image p b, WritesImage channel disk v image p b
    ∧ ((Interrupted (v.job image) channel disk b ∧ Changes (v.job image) disk p b)
      ∨ (¬Interrupted (v.job image) channel disk b ∧ Loses (v.job image) disk p b))

theorem Assembled.unique {job : Job} {disk : Disk} {b b' : Build} (h : Assembled job disk b)
    (h' : Assembled job disk b') : b = b' := by
  obtain ⟨contents, hread, hbuild⟩ := h
  obtain ⟨contents', hread', hbuild'⟩ := h'
  cases hread.symm.trans hread'
  exact Except.ok.inj (hbuild.symm.trans hbuild')

theorem SymbolsAt.unique {job : Job} {disk : Disk} {b : Build} {q q' : Spot}
    (h : SymbolsAt job disk b q) (h' : SymbolsAt job disk b q') : q = q' := by
  obtain ⟨path, hpath, hq, -⟩ := h
  obtain ⟨path', hpath', hq', -⟩ := h'
  cases hpath.symm.trans hpath'
  exact Except.ok.inj (hq.symm.trans hq')

theorem SymbolsAt.not_of_ne {job : Job} {disk : Disk} {b : Build} {p q : Spot}
    (h : SymbolsAt job disk b q) (hpq : q ≠ p) : ¬SymbolsAt job disk b p :=
  fun hp => hpq (h.unique hp)

/-- The write of the symbol file, which there is, makes a difference or not. -/
theorem SymbolsAt.exists_changed_iff {job : Job} {disk : Disk} {b : Build} {q : Spot}
    (h : SymbolsAt job disk b q) :
    (∃ q', SymbolsAt job disk b q' ∧ ¬disk.Keeps b.symbolFile.1 q')
      ↔ ¬disk.Keeps b.symbolFile.1 q := by
  constructor
  · rintro ⟨q', hq', hchanges⟩
    cases h.unique hq'
    exact hchanges
  · exact fun hchanges => ⟨q, h, hchanges⟩

/-- What spoils a run that writes an image concerns this image. -/
theorem WritesImage.spoiled_iff {channel : Channel} {disk : Disk} {v : Values} {image : Path}
    {p : Spot} {b : Build} (h : WritesImage channel disk v image p b) :
    Spoiled channel disk v
      ↔ (Interrupted (v.job image) channel disk b ∧ Changes (v.job image) disk p b)
        ∨ (¬Interrupted (v.job image) channel disk b ∧ Loses (v.job image) disk p b) := by
  refine ⟨?_, fun hspoils => ⟨image, p, b, h, hspoils⟩⟩
  rintro ⟨image', p', b', h', hspoils⟩
  cases h.output.symm.trans h'.output
  cases h.spot.symm.trans h'.spot
  cases h.assembled.unique h'.assembled
  exact hspoils

/-- A symbol file has bytes to the end if and only if the name of its source has. -/
theorem symbolFile_eq_none_iff (b : Build) :
    b.symbolFile.2 = none ↔ ∃ s : String, b.source = s := by
  unfold Build.symbolFile
  constructor
  · intro h
    by_cases hsource : b.source = []
    · exact ⟨"", hsource⟩
    · obtain ⟨c, rest, hcons⟩ := List.exists_cons_of_ne_nil hsource
      have hline : RawText.ofString "# Source: " ++ b.source ++ RawText.ofString "\n"
          ∈ SymbolFile.render (some b.source) b.symbols := by
        rw [hcons]
        exact List.mem_append_left _ (List.mem_append_right _ List.mem_cons_self)
      refine RawText.exists_string_of_subset (Utf8.encodeTexts_eq_none_iff.mp h _ hline) ?_
      exact fun c hc => List.mem_append_left _ (List.mem_append_right _ hc)
  · rintro ⟨s, hs⟩
    rw [hs, SymbolFile.render_ofString, Utf8.encodeTexts_ofString]

section

variable {job : Job} {channel : Channel} {disk after : Disk} {p : Spot} {b : Build} {v : Verdict}

/-- **A run is done unless it is interrupted.** -/
theorem done_iff_of_aftermath (hp : disk.Has p) (htakes : disk.takes b.image.toList p = true)
    (hb : Assembled job disk b)
    (h : Aftermath job channel b (disk.put b.image.toList p) v after) :
    v = .done ↔ ¬Interrupted job channel disk b := by
  have hsource : b.source = job.input.text := by
    obtain ⟨contents, -, hbuild⟩ := hb
    exact source_of_assemble hbuild
  cases h with
  | @unwritten path fault hpath hwrite =>
      refine ⟨nofun, fun hruns => absurd (.unwritten hpath fun hw => ?_) hruns⟩
      obtain ⟨d', hd'⟩ := (Disk.exists_write_put_iff hp htakes).mpr hw
      cases hwrite.symm.trans hd'
  | @unencodable path fault _ hpath hwrite hfault =>
      refine ⟨nofun, fun hruns => absurd (.unencodable hpath fun hname => ?_) hruns⟩
      rw [← hsource, ← symbolFile_eq_none_iff] at hname
      cases hfault.symm.trans hname
  | unsaid hdone hline =>
      obtain ⟨line, hmem, hrefused⟩ := List.exists_of_findSome?_eq_some hline
      exact ⟨nofun, fun hruns => absurd (.unsaid hmem hrefused) hruns⟩
  | done hdone hline =>
      refine ⟨fun _ hstopped => ?_, fun _ => rfl⟩
      cases hstopped with
      | unwritten hpath hstuck =>
          cases hdone with
          | unasked hnone => cases hpath.symm.trans hnone
          | written hpath' hwrite _ =>
              cases hpath.symm.trans hpath'
              exact hstuck ((Disk.exists_write_put_iff hp htakes).mp ⟨_, hwrite⟩)
      | unencodable hpath hname =>
          cases hdone with
          | unasked hnone => cases hpath.symm.trans hnone
          | written _ _ hfault =>
              rw [symbolFile_eq_none_iff, hsource] at hfault
              exact hname hfault
      | unsaid hmem hrefused =>
          rw [List.findSome?_eq_none_iff.mp hline _ hmem] at hrefused
          cases hrefused

/-- The disk after the writes of a run that wrote an image at a spot. -/
inductive Leaves (job : Job) (disk : Disk) (p : Spot) (b : Build) : Disk → Prop where
  | image : (∀ q, ¬SymbolsAt job disk b q) → Leaves job disk p b (disk.put b.image.toList p)
  | both {q : Spot} : SymbolsAt job disk b q → Leaves job disk p b
      ((disk.put b.image.toList p).put b.symbolFile.1 (disk.settle p q))

theorem leaves_of_aftermath (hp : disk.Has p) (htakes : disk.takes b.image.toList p = true)
    (h : Aftermath job channel b (disk.put b.image.toList p) v after) :
    Leaves job disk p b after := by
  have hwritten : ∀ path, job.symbols = some path →
      (disk.put b.image.toList p).write path b.symbolFile.1 = .ok after →
      Leaves job disk p b after := by
    intro path hpath hwrite
    obtain ⟨q, hq, hq', rfl⟩ := (Disk.write_put_eq_ok_iff hp htakes).mp hwrite
    exact .both ⟨path, hpath, hq, hq'⟩
  have hdone : SymbolsDone job b (disk.put b.image.toList p) after → Leaves job disk p b after := by
    intro hdone
    cases hdone with
    | unasked hnone =>
        refine .image fun q hq => ?_
        obtain ⟨path, hpath, -⟩ := hq
        cases hpath.symm.trans hnone
    | written hpath hwrite _ => exact hwritten _ hpath hwrite
  cases h with
  | unwritten hpath hwrite =>
      refine .image fun q hq => ?_
      obtain ⟨path', hpath', hq, hq'⟩ := hq
      cases hpath.symm.trans hpath'
      have hok := (Disk.write_put_eq_ok_iff hp htakes).mpr ⟨q, hq, hq', rfl⟩
      cases hwrite.symm.trans hok
  | unencodable hpath hwrite _ => exact hwritten _ hpath hwrite
  | unsaid hsymbols _ => exact hdone hsymbols
  | done hsymbols _ => exact hdone hsymbols

/-- **The disk is as it was** if and only if no write that counts makes a difference. -/
theorem Leaves.eq_iff (h : Leaves job disk p b after) :
    after = disk ↔ ¬Changes job disk p b := by
  unfold Changes
  cases h with
  | image hnone =>
      rw [Disk.put_eq_self_iff]
      constructor
      · rintro hkeeps (⟨hchanges, -⟩ | ⟨q, hq, -⟩)
        · exact hchanges hkeeps
        · exact hnone q hq
      · intro hclean
        by_contra hchanges
        exact hclean (Or.inl ⟨hchanges, hnone p⟩)
  | @both q hq =>
      rw [hq.exists_changed_iff]
      by_cases hpq : q = p
      · subst hpq
        rw [Disk.put_put_same]
        constructor
        · rintro hkeeps (⟨-, hnone⟩ | hchanges)
          · exact hnone hq
          · exact hchanges hkeeps
        · intro hclean
          by_contra hchanges
          exact hclean (Or.inr hchanges)
      · obtain ⟨path, -, hlocate, -⟩ := id hq
        rw [Disk.settle_of_ne hpq, Disk.put_put_ne hpq (Disk.has_locate hlocate)]
        constructor
        · rintro ⟨hkeeps, hkeeps'⟩ (⟨hchanges, -⟩ | hchanges)
          · exact hchanges hkeeps
          · exact hchanges hkeeps'
        · intro hclean
          constructor
          · by_contra hchanges
            exact hclean (Or.inl ⟨hchanges, hq.not_of_ne hpq⟩)
          · by_contra hchanges
            exact hclean (Or.inr hchanges)

/-- **The image is read where it was written** if and only if it is not lost. -/
theorem Leaves.read_iff (hspot : disk.locate job.image = .ok p)
    (htakes : disk.takes b.image.toList p = true) (h : Leaves job disk p b after) :
    after.read job.image = .ok ⟨b.image.toList, none⟩ ↔ ¬Loses job disk p b := by
  have hp := Disk.has_locate hspot
  unfold Loses
  cases hdevice : disk.isDevice p with
  | true =>
      -- a device is left as it is, and so is what it gives
      have hread : after.read job.image = disk.readAt job.image.text p := by
        rw [← Disk.read_of_locate hspot]
        cases h with
        | image _ => rw [Disk.put_of_isDevice hdevice]
        | @both q hq =>
            obtain ⟨path, -, hq, -⟩ := hq
            rw [Disk.put_of_isDevice hdevice, Disk.settle_of_isDevice hdevice]
            exact Disk.read_put_of_isDevice (Disk.has_locate hq) hspot hdevice _
      rw [hread]
      simp
  | false =>
      have himage : (disk.put b.image.toList p).read job.image = .ok ⟨b.image.toList, none⟩ := by
        rw [Disk.read_of_locate (Disk.locate_put hp b.image.toList hspot)]
        exact Disk.readAt_put htakes hdevice _
      cases h with
      | image hnone => simp [himage, hnone]
      | @both q hq =>
          by_cases hpq : q = p
          · subst hpq
            obtain ⟨path, -, -, hmore⟩ := id hq
            rw [Disk.read_put_put hspot htakes hdevice hmore]
            simp [hq]
          · obtain ⟨path, -, hlocate, -⟩ := id hq
            have hbetween := Disk.locate_put hp b.image.toList hlocate
            rw [Disk.settle_of_ne hpq] at hbetween ⊢
            rw [Disk.read_put_elsewhere (Disk.has_locate hbetween)
              (Disk.locate_put hp b.image.toList hspot)
              (Disk.settle_ne (Disk.has_locate hlocate) hpq), himage]
            simp [hq.not_of_ne hpq]

end

section

variable {disk : Disk} {values : Values} {image : Path} {p : Spot} {b : Build} {v : Verdict}
  {channel : Channel} {r : Run}

/-- A disk that is left as it was is nothing. -/
theorem allOrNothing_of_unchanged (hending : r.ending ≠ .exit .success)
    (hdisk : r.world.disk = disk) : AllOrNothing disk values r where
  success := fun h => absurd h hending
  failure := fun _ => hdisk

/-- A run that does not write an image and leaves the disk as it was is not spoiled. -/
theorem allOrNothing_iff_of_unwritten (hending : r.ending ≠ .exit .success)
    (hdisk : r.world.disk = disk)
    (hnone : ∀ image p b, ¬WritesImage channel disk values image p b) :
    AllOrNothing disk values r ↔ ¬Spoiled channel disk values := by
  refine ⟨fun _ hspoiled => ?_, fun _ => allOrNothing_of_unchanged hending hdisk⟩
  obtain ⟨image, p, b, hwrites, -⟩ := hspoiled
  exact hnone image p b hwrites

/-- What happens after the image is written decides whether the run is all or nothing. -/
theorem allOrNothing_of_aftermath (hwrites : WritesImage channel disk values image p b)
    (hending : r.ending = v.ending)
    (h : Aftermath (values.job image) channel b (disk.put b.image.toList p) v r.world.disk) :
    AllOrNothing disk values r ↔ ¬Spoiled channel disk values := by
  have hp := Disk.has_locate hwrites.spot
  have hleaves := leaves_of_aftermath hp hwrites.takes h
  have hdone := done_iff_of_aftermath hp hwrites.takes hwrites.assembled h
  have hread := hleaves.read_iff hwrites.spot hwrites.takes
  have hsame := hleaves.eq_iff
  rw [← Verdict.ending_eq_success_iff, ← hending] at hdone
  rw [hwrites.spoiled_iff]
  by_cases hstopped : Interrupted (values.job image) channel disk b
  · have hfails : r.ending ≠ .exit .success := fun hsuccess => hdone.mp hsuccess hstopped
    constructor
    · rintro hall (⟨-, hchanges⟩ | ⟨hruns, -⟩)
      · exact hsame.mp (hall.failure hfails) hchanges
      · exact hruns hstopped
    · intro hclean
      refine allOrNothing_of_unchanged hfails (hsame.mpr fun hchanges => ?_)
      exact hclean (Or.inl ⟨hstopped, hchanges⟩)
  · have hsuccess : r.ending = .exit .success := hdone.mpr hstopped
    constructor
    · rintro hall (⟨hstops, -⟩ | ⟨-, hloses⟩)
      · exact hstopped hstops
      · obtain ⟨image', b', himage', hb', hread'⟩ := hall.success hsuccess
        cases hwrites.output.symm.trans himage'
        cases hwrites.assembled.unique hb'
        exact hread.mp hread' hloses
    · intro hclean
      refine ⟨fun _ => ⟨image, b, hwrites.output, hwrites.assembled, hread.mpr fun hloses => ?_⟩,
        fun hfails => absurd hsuccess hfails⟩
      exact hclean (Or.inr ⟨hstopped, hloses⟩)

/-- The course of a job decides whether its run is all or nothing. -/
theorem allOrNothing_of_course (himage : imagePath values.output = .ok image)
    (hending : r.ending = v.ending)
    (h : Course (values.job image) channel disk v r.world.disk) :
    AllOrNothing disk values r ↔ ¬Spoiled channel disk values := by
  have hfails : v ≠ .done → r.ending ≠ .exit .success := by
    intro hv hsuccess
    rw [hending] at hsuccess
    exact hv (Verdict.ending_eq_success_iff.mp hsuccess)
  generalize hfinal : r.world.disk = final at h
  cases h with
  | unsaid hopening =>
      refine allOrNothing_iff_of_unwritten (hfails nofun) hfinal fun image' p b hwrites => ?_
      cases himage.symm.trans hwrites.output
      cases hopening.symm.trans hwrites.opening
  | unread _ hread =>
      refine allOrNothing_iff_of_unwritten (hfails nofun) hfinal fun image' p b hwrites => ?_
      obtain ⟨contents, hcontents, -⟩ := hwrites.assembled
      cases hread.symm.trans hcontents
  | rejected _ hread hbuild =>
      refine allOrNothing_iff_of_unwritten (hfails nofun) hfinal fun image' p b hwrites => ?_
      obtain ⟨contents, hcontents, hb⟩ := hwrites.assembled
      cases hread.symm.trans hcontents
      cases hbuild.symm.trans hb
  | unwritten _ hb hwrite =>
      refine allOrNothing_iff_of_unwritten (hfails nofun) hfinal fun image' p b' hwrites => ?_
      cases himage.symm.trans hwrites.output
      cases hb.unique hwrites.assembled
      obtain ⟨d', hd'⟩ := Disk.exists_write_iff.mpr ⟨p, hwrites.spot, hwrites.takes⟩
      cases hwrite.symm.trans hd'
  | written hopening hb hwrite hafter =>
      obtain ⟨p, hspot, htakes, rfl⟩ := Disk.write_eq_ok_iff.mp hwrite
      rw [← hfinal] at hafter
      exact allOrNothing_of_aftermath ⟨himage, hopening, hb, hspot, htakes⟩ hending hafter

/--
**The tool is all or nothing unless what follows the image spoils it.** For every parser, disk and
command line that it accepts, the run leaves the image in its file if it exits with 0, and leaves
the disk as it was otherwise, with two exceptions and no others. The run is stopped after the image
was written, by a symbol file that cannot be written or a name that is no text, and leaves a
difference; or it is not stopped, and the image is lost to the symbol file or a device.
-/
theorem allOrNothing_iff {parse : Parser Values} {words : List RawText}
    (h : parse disk words = .accepted values) (host : Host) :
    AllOrNothing disk values (run parse host disk words)
      ↔ ¬Spoiled host.channel disk values := by
  unfold run Parser.run
  rw [h]
  dsimp only
  unfold main
  cases himage : imagePath values.output with
  | error e =>
      refine allOrNothing_iff_of_unwritten Ending.noConfusion rfl fun image p b hwrites => ?_
      cases himage.symm.trans hwrites.output
  | ok image =>
      obtain ⟨v, after, hcourse⟩ := exists_course (values.job image) host.channel disk
      obtain ⟨hending, hdisk⟩ := run_of_course (w := ⟨disk, host.channel, [], []⟩) hcourse
        values.verbose "Assembly" host.trace
      refine allOrNothing_of_course himage hending ?_
      rw [hdisk]
      exact hcourse

end

/-- A disk with a source of one instruction, `HLT`, in the working directory `/w`. -/
def loneSource : Disk :=
  ((Disk.empty.addDirectory Disk.root (Utf8.encode "w")).workIn 1).addFile 1
    (Utf8.encode "p.nasm") (Utf8.encode "HLT")

/-- The values of `p.nasm -o p` with a symbol file at a path. -/
def symbolsAt (path : String) : Values where
  input := .ofText "p.nasm"
  output := .ofText "p"
  symbols := some (.ofText path)
  strict := false
  verbose := false

theorem build_of_loneSource {path : String} {image : Path} {b : Build}
    (h : Assembled ((symbolsAt path).job image) loneSource b) :
    b = ⟨#[0x03], [], RawText.ofString "p.nasm", []⟩ := by
  obtain ⟨contents, hread, hbuild⟩ := h
  have hcontents : loneSource.read (.ofText "p.nasm") = .ok ⟨Utf8.encode "HLT", none⟩ := by
    decide +kernel
  cases hcontents.symm.trans hread
  have hresult : (assemble false "p.nasm"
      (Disk.Contents.stream ⟨Utf8.encode "HLT", none⟩)).1.toOption
      = some ⟨#[0x03], [], RawText.ofString "p.nasm", []⟩ := by decide +kernel
  change (assemble false "p.nasm" _).1 = _ at hbuild
  rw [hbuild] at hresult
  exact Option.some.inj hresult

/-- A symbol file beside the image spoils nothing. -/
theorem allOrNothing_iff_beside :
    parser loneSource ["p.nasm", "-o", "p", "-s", "p.sym"] = .accepted (symbolsAt "p.sym")
      ∧ AllOrNothing loneSource (symbolsAt "p.sym")
          (run parser ⟨.strict, fun _ => []⟩ loneSource ["p.nasm", "-o", "p", "-s", "p.sym"])
      ∧ (run parser ⟨.strict, fun _ => []⟩ loneSource
          ["p.nasm", "-o", "p", "-s", "p.sym"]).ending = .exit .success := by
  have hparse : parser loneSource ["p.nasm", "-o", "p", "-s", "p.sym"]
      = .accepted (symbolsAt "p.sym") := by decide +kernel
  refine ⟨hparse, (allOrNothing_iff hparse _).mpr ?_, by decide +kernel⟩
  rintro ⟨image, p, b, hwrites, hspoils⟩
  have himage : imagePath (symbolsAt "p.sym").output = .ok (.ofText "p.rom") := by decide +kernel
  have hspot : loneSource.locate (.ofText "p.rom") = .ok (.vacant 1 (Utf8.encode "p.rom")) := by
    decide +kernel
  have hbeside : loneSource.locate (.ofText "p.sym") = .ok (.vacant 1 (Utf8.encode "p.sym")) := by
    decide +kernel
  cases himage.symm.trans hwrites.output
  cases hspot.symm.trans hwrites.spot
  obtain rfl := build_of_loneSource hwrites.assembled
  rcases hspoils with ⟨hstopped, -⟩ | ⟨-, ⟨hdevice, -⟩ | ⟨-, hsymbols, -⟩⟩
  · cases hstopped with
    | unwritten hpath hstuck =>
        cases hpath
        exact hstuck ⟨_, hbeside, rfl⟩
    | unencodable _ hname => exact hname ⟨"p.nasm", by decide +kernel⟩
    | unsaid hmem hrefused =>
        have hlines : Channel.strict.firstRefusal?
            (closing ((symbolsAt "p.sym").job (.ofText "p.rom")) 1 0) = none := by decide +kernel
        rw [List.findSome?_eq_none_iff.mp hlines _ hmem] at hrefused
        cases hrefused
  · cases hdevice
  · obtain ⟨path, hpath, hsame, -⟩ := hsymbols
    cases hpath
    cases hbeside.symm.trans hsame

/-- A symbol file in a directory that is missing leaves the image behind a failure, and one at the
place of the image, however its path is written, takes the image's place in a success. -/
theorem not_allOrNothing_with_symbols :
    ((run parser ⟨.strict, fun _ => []⟩ loneSource
          ["p.nasm", "-o", "p", "-s", "d/p.sym"]).ending = .exit .invalidArgs
        ∧ parser loneSource ["p.nasm", "-o", "p", "-s", "d/p.sym"]
          = .accepted (symbolsAt "d/p.sym")
        ∧ ¬AllOrNothing loneSource (symbolsAt "d/p.sym") (run parser ⟨.strict, fun _ => []⟩
          loneSource ["p.nasm", "-o", "p", "-s", "d/p.sym"]))
      ∧ ∀ path ∈ ["p.rom", "/w/p.rom", "../w/p.rom"],
        (run parser ⟨.strict, fun _ => []⟩ loneSource
            ["p.nasm", "-o", "p", "-s", RawText.ofString path]).ending = .exit .success
          ∧ parser loneSource ["p.nasm", "-o", "p", "-s", RawText.ofString path]
            = .accepted (symbolsAt path)
          ∧ ¬AllOrNothing loneSource (symbolsAt path) (run parser ⟨.strict, fun _ => []⟩ loneSource
            ["p.nasm", "-o", "p", "-s", RawText.ofString path]) := by
  have hlost : ∀ path ∈ ["p.rom", "/w/p.rom", "../w/p.rom"],
      ((run parser ⟨.strict, fun _ => []⟩ loneSource
            ["p.nasm", "-o", "p", "-s", RawText.ofString path]).ending = .exit .success
          ∧ parser loneSource ["p.nasm", "-o", "p", "-s", RawText.ofString path]
            = .accepted (symbolsAt path))
        ∧ (run parser ⟨.strict, fun _ => []⟩ loneSource
            ["p.nasm", "-o", "p", "-s", RawText.ofString path]).world.disk.read (.ofText "p.rom")
          ≠ .ok ⟨[0x03], none⟩ := by decide +kernel
  refine ⟨⟨by decide +kernel, by decide +kernel, fun hall => ?_⟩, fun path hpath => ?_⟩
  · have hchanged : (run parser ⟨.strict, fun _ => []⟩ loneSource
        ["p.nasm", "-o", "p", "-s", "d/p.sym"]).world.disk ≠ loneSource := by decide +kernel
    exact hchanged (hall.failure (by decide +kernel))
  · obtain ⟨⟨hending, hparse⟩, hread⟩ := hlost path hpath
    refine ⟨hending, hparse, fun hall => ?_⟩
    obtain ⟨image, b, himage, hb, himage'⟩ := hall.success hending
    have houtput : imagePath (.ofText "p") = .ok (.ofText "p.rom") := by decide +kernel
    cases houtput.symm.trans himage
    rw [build_of_loneSource hb] at himage'
    exact hread himage'

end AssembleTool

end RomKit
