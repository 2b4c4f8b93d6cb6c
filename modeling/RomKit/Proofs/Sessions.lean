import RomKit.Assembly.Session
import RomKit.Proofs.PassInvariant

/-!
# What a session shows

A session may assemble good and bad sources in any order, switch between the
modes, and meet files that cannot be opened. Whatever its history, its assembler
shows the result of the last pass that was started, as if no other pass had been
made before it, and nothing if that pass failed (`Assembler.Shows`).

Of a session only its history is needed: the mode it was switched to and the last
pass (`History`). The attributes of the assembler are those that the history gives,
before a step and after it (`Session.perform_assembler`), and so at any moment of a
session (`Session.after_assembler`).
-/

namespace RomKit

/-! ## Histories -/

/-- A pass over a source, as it is started. -/
structure PassRequest where
  /-- The mode at that moment. -/
  strict : Bool
  file : RawText
  stream : Stream
deriving DecidableEq

namespace PassRequest

/-- How the pass ends for an assembler that made no other, and what this assembler keeps. -/
def alone (p : PassRequest) : Except Failure Image × Assembler × List Event :=
  (Assembler.fresh p.strict).run p.file p.stream

/-- The result of the pass, unless it fails. -/
def build? (p : PassRequest) : Option Build :=
  (assemble p.strict p.file p.stream).1.toOption

end PassRequest

namespace Operation

/-- The mode after a step. -/
def mode (strict : Bool) : Operation → Bool
  | .setStrict strict => strict
  | _ => strict

/-- The pass that a step starts. Text without bytes and a file that cannot be opened start none. -/
def starts? (strict : Bool) (disk : Disk) : Operation → Option PassRequest
  | .assembleText text file =>
    match Utf8.encodeText text with
    | .ok bytes => some ⟨strict, file, .ofBytes bytes⟩
    | .error _ => none
  | .assembleBytes bytes file => some ⟨strict, file, .ofBytes bytes⟩
  | .assembleStream stream file => some ⟨strict, file, stream⟩
  | .assembleFile path =>
    match disk.read path with
    | .ok contents => some ⟨strict, path.text, contents.stream⟩
    | .error _ => none
  | _ => none

/-- Gives out or writes the last result. -/
def usesResult : Operation → Bool
  | .getImage | .getSymbols | .writeImage _ | .writeSymbols _ | .writeSymbolsTyped _ => true
  | _ => false

/-- Makes use of the last result and is refused without one. -/
def needsResult : Operation → Bool
  | .getImage | .writeImage _ | .writeSymbols _ | .writeSymbolsTyped _ => true
  | _ => false

end Operation

/-- What counts of the steps made so far. -/
structure History where
  /-- The mode that was set last. -/
  mode : Bool
  /-- The pass that was started last. -/
  last : Option PassRequest
deriving DecidableEq

namespace History

/-- The history after a step on a disk. -/
def next (h : History) (disk : Disk) (op : Operation) : History :=
  ⟨op.mode h.mode, (op.starts? h.mode disk).or h.last⟩

/-- The assembler that a history leaves. -/
def assembler (h : History) : Assembler :=
  .holding h.mode (h.last.bind PassRequest.build?)

end History

namespace Session

/-- The session after some steps, each of which succeeds or fails. -/
def after (s : Session) : List Operation → Session
  | [] => s
  | op :: ops => after (settled (perform op s)) ops

/-- The history after some steps that follow another one. -/
def history (s : Session) (h : History) : List Operation → History
  | [] => h
  | op :: ops => history (settled (perform op s)) (h.next s.disk op) ops

end Session

namespace Assembler

/-- There is nothing to give out. -/
structure ShowsNothing (a : Assembler) : Prop where
  code : a.code = none
  symbols : a.symbols = []
  warnings : a.warnings = []
  sourceName : a.sourceName = none

/-- The assembler shows what a pass gives when it is made alone, and nothing without a pass or after
one that failed. -/
structure Shows (a : Assembler) (last : Option PassRequest) : Prop where
  success : ∀ p image b log, last = some p → p.alone = (.ok image, b, log) →
    a.code = some image ∧ a.symbols = b.symbols ∧ a.warnings = b.warnings
      ∧ a.sourceName = some p.file
  failure : ∀ p e b log, last = some p → p.alone = (.error e, b, log) → a.ShowsNothing
  start : last = none → a.ShowsNothing

/-! ## One step -/

/-- A pass makes no use of earlier ones, and forgets them. -/
theorem run_assembler (a : Assembler) (file : RawText) (stream : Stream) :
    (a.run file stream).2.1
      = holding a.strict (PassRequest.build? ⟨a.strict, file, stream⟩) := by
  rw [run_eq]
  unfold PassRequest.build?
  dsimp only
  obtain ⟨outcome, log⟩ := assemble a.strict file stream
  cases outcome <;> rfl

theorem holding_strict (strict : Bool) (b : Option Build) : (holding strict b).strict = strict := by
  cases b <;> rfl

theorem holding_setStrict (strict strict' : Bool) (b : Option Build) :
    { holding strict b with strict := strict' } = holding strict' b := by
  cases b <;> rfl

theorem showsNothing_holding (strict : Bool) : (holding strict none).ShowsNothing :=
  ⟨rfl, rfl, rfl, rfl⟩

theorem build?_of_alone_ok {p : PassRequest} {image : Image} {b : Assembler} {log : List Event}
    (h : p.alone = (.ok image, b, log)) :
    ∃ build, p.build? = some build ∧ build.image = image ∧ build.source = p.file
      ∧ b = holding p.strict (some build) := by
  unfold PassRequest.build?
  cases hresult : (assemble p.strict p.file p.stream).1 with
  | ok build =>
      obtain ⟨himage, hkept⟩ := run_of_ok (a := fresh p.strict) hresult
      change p.alone.1 = _ at himage
      change p.alone.2.1 = _ at hkept
      rw [h] at himage hkept
      exact ⟨build, rfl, (Except.ok.inj himage).symm, source_of_assemble hresult, hkept⟩
  | error e =>
      have herror : p.alone.1 = _ := (run_of_error (a := fresh p.strict) hresult).1
      rw [h] at herror
      cases herror

theorem build?_of_alone_error {p : PassRequest} {e : Failure} {b : Assembler} {log : List Event}
    (h : p.alone = (.error e, b, log)) : p.build? = none := by
  unfold PassRequest.build?
  cases hresult : (assemble p.strict p.file p.stream).1 with
  | ok build =>
      have himage : p.alone.1 = _ := (run_of_ok (a := fresh p.strict) hresult).1
      rw [h] at himage
      cases himage
  | error e => rfl

/-- The attributes of the assembler that a history leaves are those of its last pass. -/
theorem shows_of_history (h : History) : h.assembler.Shows h.last where
  success := by
    intro p image b log hlast halone
    obtain ⟨build, hbuild, himage, hsource, rfl⟩ := build?_of_alone_ok halone
    unfold History.assembler
    rw [hlast, Option.bind_some, hbuild]
    exact ⟨congrArg some himage, rfl, rfl, congrArg some hsource⟩
  failure := by
    intro p e b log hlast halone
    unfold History.assembler
    rw [hlast, Option.bind_some, build?_of_alone_error halone]
    exact showsNothing_holding h.mode
  start := by
    intro hlast
    unfold History.assembler
    rw [hlast]
    exact showsNothing_holding h.mode

end Assembler

namespace Session

/-- The assembler after a pass is the one the pass returns, however the pass ends. -/
theorem assemble_settled (s : Session)
    (pass : Assembler → Disk → Except FileTrouble Image × Assembler × List Event) :
    settled (assemble pass s) = { s with assembler := (pass s.assembler s.disk).2.1 } := by
  unfold assemble
  obtain ⟨outcome, a, log⟩ := pass s.assembler s.disk
  cases outcome <;> rfl

theorem assembleStream_assembler (s : Session) (stream : Stream) (file : RawText) :
    (settled (assembleStream stream file s)).assembler
      = .holding s.assembler.strict
          (PassRequest.build? ⟨s.assembler.strict, file, stream⟩) := by
  unfold assembleStream
  rw [assemble_settled]
  exact Assembler.run_assembler s.assembler file stream

/-- Text with bytes is assembled as these bytes. -/
theorem assembleText_of_bytes {text : RawText} {bytes : List UInt8}
    (h : Utf8.encodeText text = .ok bytes) (file : RawText) (s : Session) :
    perform (.assembleText text file) s = assembleStream (.ofBytes bytes) file s := by
  show assemble (fun a _ => a.runText file text) s = _
  unfold assembleStream assemble Assembler.runText
  rw [h]

/-- Text without bytes changes nothing. -/
theorem assembleText_of_fault {text : RawText} {fault : Utf8.EncodeFault}
    (h : Utf8.encodeText text = .error fault) (file : RawText) (s : Session) :
    perform (.assembleText text file) s = .error (.encoding fault) s := by
  show assemble (fun a _ => a.runText file text) s = _
  unfold assemble Assembler.runText
  rw [h]

/-- A file is assembled like its contents, under the name of its path. -/
theorem assembleFile_of_read {s : Session} {path : Path} {contents : Disk.Contents}
    (h : s.disk.read path = .ok contents) :
    perform (.assembleFile path) s = assembleStream contents.stream path.text s := by
  show assemble (fun a disk => a.runFile disk path) s = _
  unfold assembleStream assemble Assembler.runFile
  dsimp only
  rw [h]
  dsimp only
  obtain ⟨outcome, a, log⟩ := Assembler.onFiles (s.assembler.run path.text contents.stream)
  cases outcome <;> rfl

/-- A file that cannot be opened changes nothing. -/
theorem assembleFile_of_fault {s : Session} {path : Path} {fault : SystemFault}
    (h : s.disk.read path = .error fault) :
    perform (.assembleFile path) s = .error (.system fault) s := by
  show assemble (fun a disk => a.runFile disk path) s = _
  unfold assemble Assembler.runFile
  dsimp only
  rw [h]

theorem write_assembler (s : Session) (work : Assembler → FileWork Unit) :
    (settled (write work s)).assembler = s.assembler := by
  unfold write
  cases work s.assembler s.disk <;> rfl

theorem perform_of_usesResult {op : Operation} (h : op.usesResult = true) (s : Session) :
    (settled (perform op s)).assembler = s.assembler := by
  cases op with
  | getImage =>
      show (settled (giveImage s)).assembler = s.assembler
      unfold giveImage
      cases s.assembler.result <;> rfl
  | getSymbols => rfl
  | writeImage path => exact write_assembler s fun a => a.writeImage path
  | writeSymbols path => exact write_assembler s fun a => a.writeSymbols path
  | writeSymbolsTyped typed => exact write_assembler s fun a => a.writeSymbolsTyped typed
  | _ => cases h

/-- **A step changes the assembler as it changes the history**: a pass sets every attribute but the
mode, a switch sets the mode alone, and the other steps set none. -/
theorem perform_assembler {s : Session} {h : History} (hs : s.assembler = h.assembler)
    (op : Operation) :
    (settled (perform op s)).assembler = (h.next s.disk op).assembler := by
  have hmode : s.assembler.strict = h.mode := by
    rw [hs]
    exact Assembler.holding_strict h.mode _
  -- a step that starts a pass
  have hpass : ∀ stream file, (settled (assembleStream stream file s)).assembler
      = History.assembler ⟨h.mode, some ⟨h.mode, file, stream⟩⟩ := by
    intro stream file
    rw [assembleStream_assembler, hmode]
    rfl
  cases op with
  | assembleText text file =>
      unfold History.next Operation.starts?
      dsimp only
      cases hbytes : Utf8.encodeText text with
      | ok bytes =>
          rw [assembleText_of_bytes hbytes]
          exact hpass _ _
      | error fault =>
          rw [assembleText_of_fault hbytes]
          exact hs
  | assembleBytes bytes file => exact hpass _ _
  | assembleStream stream file => exact hpass _ _
  | assembleFile path =>
      unfold History.next Operation.starts?
      dsimp only
      cases hread : s.disk.read path with
      | ok contents =>
          rw [assembleFile_of_read hread]
          exact hpass _ _
      | error fault =>
          rw [assembleFile_of_fault hread]
          exact hs
  | setStrict strict =>
      show { s.assembler with strict := strict } = _
      rw [hs]
      exact Assembler.holding_setStrict h.mode strict _
  | getImage => exact (perform_of_usesResult rfl s).trans hs
  | getSymbols => exact hs
  | writeImage path => exact (perform_of_usesResult rfl s).trans hs
  | writeSymbols path => exact (perform_of_usesResult rfl s).trans hs
  | writeSymbolsTyped typed => exact (perform_of_usesResult rfl s).trans hs

/-! ## A whole session -/

/-- At any moment the assembler is the one its history leaves. -/
theorem after_assembler (ops : List Operation) : ∀ {s : Session} {h : History},
    s.assembler = h.assembler → (s.after ops).assembler = (s.history h ops).assembler := by
  induction ops with
  | nil => exact fun hs => hs
  | cons op ops ih => exact fun hs => ih (perform_assembler hs op)

/-- Work that writes the result is refused without one. -/
theorem write_of_no_result {s : Session} (h : s.assembler.code = none)
    (f : Assembler → Image → FileWork Unit) :
    write (fun a => a.withResult (f a)) s
      = .error (.failure (.diagnostic ⟨.nothingAssembled, none⟩)) s := by
  unfold write Assembler.withResult Assembler.result
  dsimp only
  rw [h]
  rfl

/-- Writing is never refused with a diagnostic by the files. -/
theorem write_of_result {s : Session} {image : Image} (h : s.assembler.code = some image)
    {f : Assembler → Image → FileWork Unit}
    (hf : ∀ a image disk d disk', f a image disk ≠ .error (.failure (.diagnostic d)) disk')
    (d : Diagnostic) (s' : Session) :
    write (fun a => a.withResult (f a)) s ≠ .error (.failure (.diagnostic d)) s' := by
  unfold write Assembler.withResult Assembler.result
  dsimp only
  rw [h]
  dsimp only
  cases hwork : f s.assembler image s.disk with
  | ok u disk =>
      intro heq
      cases heq
  | error e disk =>
      intro heq
      cases heq
      exact hf _ _ _ d disk hwork

theorem change_ne_diagnostic (f : Disk → Except SystemFault Disk) (disk : Disk) (d : Diagnostic)
    (disk' : Disk) : FileWork.change f disk ≠ .error (.failure (.diagnostic d)) disk' := by
  unfold FileWork.change
  cases f disk <;> (intro heq; cases heq)

theorem writeTexts_ne_diagnostic (write : List UInt8 → Disk → Except SystemFault Disk)
    (texts : List RawText) (disk : Disk) (d : Diagnostic) (disk' : Disk) :
    FileWork.writeTexts write texts disk ≠ .error (.failure (.diagnostic d)) disk' := by
  rw [FileWork.writeTexts_apply]
  cases write (Utf8.encodeTexts texts).1 disk with
  | error fault =>
      intro heq
      cases heq
  | ok written =>
      dsimp only
      cases (Utf8.encodeTexts texts).2 <;> (intro heq; cases heq)

/-- The steps that need a result do nothing without one. -/
theorem perform_of_no_result {op : Operation} (hop : op.needsResult = true) {s : Session}
    (h : s.assembler.code = none) :
    perform op s = .error (.failure (.diagnostic ⟨.nothingAssembled, none⟩)) s := by
  cases op with
  | getImage =>
      show giveImage s = _
      unfold giveImage Assembler.result
      rw [h]
  | writeImage path =>
      exact write_of_no_result h fun _ image => .change fun d => d.write path image.toList
  | writeSymbols path => exact write_of_no_result h fun _ _ => _
  | writeSymbolsTyped typed => exact write_of_no_result h fun _ _ => _
  | _ => cases hop

theorem giveImage_of_code {s : Session} {image : Image} (h : s.assembler.code = some image) :
    perform .getImage s = .ok (.image image) s := by
  show giveImage s = _
  unfold giveImage Assembler.result
  rw [h]

/-- With a result they are not refused. -/
theorem perform_of_result {op : Operation} (hop : op.needsResult = true) {s : Session}
    {image : Image} (h : s.assembler.code = some image) (d : Diagnostic) (s' : Session) :
    perform op s ≠ .error (.failure (.diagnostic d)) s' := by
  cases op with
  | getImage =>
      rw [giveImage_of_code h]
      intro heq
      cases heq
  | writeImage path =>
      exact write_of_result h
        (fun _ image => change_ne_diagnostic fun d => d.write path image.toList) d s'
  | writeSymbols path => exact write_of_result h (fun _ _ => writeTexts_ne_diagnostic _ _) d s'
  | writeSymbolsTyped typed =>
      exact write_of_result h (fun _ _ => writeTexts_ne_diagnostic _ _) d s'
  | _ => cases hop

/-- What can be relied on in a session with a history. -/
structure Reliable (s : Session) (h : History) : Prop where
  /-- The mode is the one that was set last. -/
  mode : s.assembler.strict = h.mode
  shows : s.assembler.Shows h.last
  /-- What is given out is what is shown. -/
  given : (∀ image, s.assembler.code = some image → perform .getImage s = .ok (.image image) s)
    ∧ perform .getSymbols s = .ok (.symbols s.assembler.symbols) s
  /-- A file that cannot be opened starts no pass and changes nothing. -/
  unopened : ∀ path fault, s.disk.read path = .error fault →
    h.next s.disk (.assembleFile path) = h
      ∧ perform (.assembleFile path) s = .error (.system fault) s
  /-- Neither does text without bytes. -/
  unencoded : ∀ text file fault, Utf8.encodeText text = .error fault →
    h.next s.disk (.assembleText text file) = h
      ∧ perform (.assembleText text file) s = .error (.encoding fault) s
  /-- Giving out and writing the result leave the assembler as it is. -/
  kept : ∀ op : Operation, op.usesResult = true →
    (settled (perform op s)).assembler = s.assembler
  /-- Without a result, and only then, they are refused with a diagnostic. -/
  refused : ∀ op : Operation, op.needsResult = true →
    ((∃ d s', perform op s = .error (.failure (.diagnostic d)) s') ↔ s.assembler.code = none)
  /-- No file is touched when they are refused. -/
  untouched : ∀ op : Operation, op.needsResult = true → s.assembler.code = none →
    (settled (perform op s)).disk = s.disk

theorem reliable_of_assembler {s : Session} {h : History} (hs : s.assembler = h.assembler) :
    s.Reliable h where
  mode := by
    rw [hs]
    exact Assembler.holding_strict h.mode _
  shows := hs ▸ Assembler.shows_of_history h
  given := ⟨fun _ => giveImage_of_code, rfl⟩
  unopened := by
    intro path fault hread
    refine ⟨?_, assembleFile_of_fault hread⟩
    unfold History.next Operation.starts?
    dsimp only
    rw [hread]
    rfl
  unencoded := by
    intro text file fault hbytes
    refine ⟨?_, assembleText_of_fault hbytes file s⟩
    unfold History.next Operation.starts?
    dsimp only
    rw [hbytes]
    rfl
  kept := fun op hop => perform_of_usesResult hop s
  refused := by
    intro op hop
    constructor
    · intro hrefused
      obtain ⟨d, s', herror⟩ := hrefused
      cases hcode : s.assembler.code with
      | none => rfl
      | some image => exact absurd herror (perform_of_result hop hcode d s')
    · intro hcode
      exact ⟨_, s, perform_of_no_result hop hcode⟩
  untouched := by
    intro op hop hcode
    rw [perform_of_no_result hop hcode]
    rfl

/--
**A session shows its last pass and nothing else.** After any steps the mode is the one that was set
last, and the image, the symbols and the warnings are those of the last pass that was started, as a
fresh assembler makes it in the mode of that moment. There are none if that pass failed, or if no
pass was started.
-/
theorem reliable_after (strict : Bool) (disk : Disk) (ops : List Operation) :
    ((fresh strict disk).after ops).Reliable ((fresh strict disk).history ⟨strict, none⟩ ops) := by
  have hstart : (fresh strict disk).assembler = History.assembler ⟨strict, none⟩ := rfl
  exact reliable_of_assembler (after_assembler ops hstart)

/-- A source with an unknown label is assembled, the mode is switched, and a file is missing. -/
def mixedSteps : List Operation :=
  [.assembleText ";x @y HLT" "a.nasm", .setStrict true, .assembleFile (.ofText "b.nasm")]

/-- The result of the first step is shown until the same source fails in the other mode. -/
theorem reliable_after_mixed :
    ((fresh false .empty).after mixedSteps).Reliable
        ⟨true, some ⟨false, "a.nasm", .ofBytes (Source.bytesOf ";x @y HLT")⟩⟩
      ∧ ((fresh false .empty).after mixedSteps).assembler.code = some #[0x60, 0, 0, 0, 0, 0x03]
      ∧ ((fresh false .empty).after mixedSteps).assembler.symbols = [("y", 0x7FFFFF)]
      ∧ ((fresh false .empty).after mixedSteps).assembler.warnings
          = [RawText.ofString "a.nasm:1:4: warning: label 'y' is unused"]
      ∧ ((fresh false .empty).after
          (mixedSteps ++ [.assembleText ";x @y HLT" "a.nasm"])).assembler.strict = true
      ∧ ((fresh false .empty).after
          (mixedSteps ++ [.assembleText ";x @y HLT" "a.nasm"])).assembler.ShowsNothing := by
  have hshown := reliable_after false .empty mixedSteps
  have hfailed := reliable_after false .empty (mixedSteps ++ [.assembleText ";x @y HLT" "a.nasm"])
  rw [show (fresh false .empty).history ⟨false, none⟩ mixedSteps
      = ⟨true, some ⟨false, "a.nasm", .ofBytes (Source.bytesOf ";x @y HLT")⟩⟩ by
    decide +kernel] at hshown
  rw [show (fresh false .empty).history ⟨false, none⟩
        (mixedSteps ++ [.assembleText ";x @y HLT" "a.nasm"])
      = ⟨true, some ⟨true, "a.nasm", .ofBytes (Source.bytesOf ";x @y HLT")⟩⟩ by
    decide +kernel] at hfailed
  obtain ⟨⟨outcome, b, log⟩, halone⟩ : ∃ r, PassRequest.alone
      ⟨false, "a.nasm", .ofBytes (Source.bytesOf ";x @y HLT")⟩ = r := ⟨_, rfl⟩
  obtain ⟨⟨outcome', b', log'⟩, halone'⟩ : ∃ r, PassRequest.alone
      ⟨true, "a.nasm", .ofBytes (Source.bytesOf ";x @y HLT")⟩ = r := ⟨_, rfl⟩
  have houtcome : outcome.toOption = some #[0x60, 0, 0, 0, 0, 0x03] := by
    rw [show outcome = _ from (congrArg (·.1) halone).symm]
    decide +kernel
  have houtcome' : outcome'.toOption = none := by
    rw [show outcome' = _ from (congrArg (·.1) halone').symm]
    decide +kernel
  have hkept : b.symbols = [("y", 0x7FFFFF)]
      ∧ b.warnings = [RawText.ofString "a.nasm:1:4: warning: label 'y' is unused"] := by
    rw [show b = _ from (congrArg (·.2.1) halone).symm]
    decide +kernel
  cases outcome with
  | error e => cases houtcome
  | ok image =>
      cases outcome' with
      | ok image' => cases houtcome'
      | error e =>
          obtain ⟨hcode, hsymbols, hwarnings, -⟩ := hshown.shows.success _ _ _ _ rfl halone
          exact ⟨hshown, hcode.trans houtcome, hsymbols.trans hkept.1, hwarnings.trans hkept.2,
            hfailed.mode, hfailed.shows.failure _ _ _ _ rfl halone'⟩

end Session

end RomKit
