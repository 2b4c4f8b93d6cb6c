import RomKit.Command.Tool
import RomKit.Proofs.PassInvariant

/-!
# Steps of the tools

What the steps that a tool is made of do to its disk. To say something leaves the
disk as it is, and may be refused by the channel. To assemble a file comes to the
result of the pass over its contents. To write a file comes to what the disk makes
of its bytes, and a symbol file may have no bytes from some point on.
-/

namespace RomKit

/-- At most what was written to the channels is different. -/
structure World.Same (w w' : World) : Prop where
  disk : w'.disk = w.disk
  channel : w'.channel = w.channel

namespace World.Same

theorem refl (w : World) : w.Same w :=
  ⟨rfl, rfl⟩

theorem trans {w w' w'' : World} (h : w.Same w') (h' : w'.Same w'') : w.Same w'' :=
  ⟨h'.disk.trans h.disk, h'.channel.trans h.channel⟩

end World.Same

/-- What a channel has against lines: against the first that it does not take. -/
def Channel.firstRefusal? (c : Channel) (lines : List RawText) : Option Utf8.EncodeFault :=
  lines.findSome? fun line => c.refusal? (Text.plain (line ++ "\n"))

namespace Work

theorem bind_of_ok {α β : Type} {x : Work α} {f : α → Work β} {w w' : World} {a : α}
    (h : x w = .ok a w') : (x >>= f) w = f a w' := by
  show EStateM.bind x f w = _
  unfold EStateM.bind
  rw [h]

theorem bind_of_error {α β : Type} {x : Work α} {f : α → Work β} {w w' : World} {t : Trouble}
    (h : x w = .error t w') : (x >>= f) w = .error t w' := by
  show EStateM.bind x f w = _
  unfold EStateM.bind
  rw [h]

theorem get_bind {α : Type} (f : World → Work α) (w : World) :
    ((get : Work World) >>= f) w = f w w := rfl

/-! ## Saying -/

/-- A step that only says something, on the error channel. -/
def Quiet (x : Work Unit) : Prop :=
  ∀ w, ∃ w', x w = .ok () w' ∧ w.Same w'

theorem quiet_warn (line : RawText) : Quiet (warn line) :=
  fun _ => ⟨_, rfl, rfl, rfl⟩

theorem quiet_log (full : Bool) (events : List Event) : Quiet (log full events) :=
  fun _ => ⟨_, rfl, rfl, rfl⟩

theorem quiet_when {x : Work Unit} (h : Quiet x) (b : Bool) :
    Quiet (if b then x else pure ()) := by
  cases b with
  | true => exact h
  | false => exact fun w => ⟨w, rfl, .refl w⟩

section

variable {w : World} {text : RawText} {lines : List RawText} {fault : Utf8.EncodeFault}

theorem print_of_taken (h : w.channel.refusal? (Text.plain text) = none) :
    ∃ w', print text w = .ok () w' ∧ w.Same w' := by
  unfold print
  rw [h]
  exact ⟨_, rfl, rfl, rfl⟩

theorem print_of_refused (h : w.channel.refusal? (Text.plain text) = some fault) :
    print text w = .error (.unencodable fault) w := by
  unfold print
  rw [h]

/-- Says line after line. -/
def sayAll : List RawText → Work Unit
  | [] => pure ()
  | line :: lines => say line >>= fun _ => sayAll lines

/-- Lines are said up to the first that the channel does not take. -/
theorem sayAll_apply (lines : List RawText) (w : World) :
    ∃ w', w.Same w' ∧ sayAll lines w = match w.channel.firstRefusal? lines with
      | none => .ok () w'
      | some fault => .error (.unencodable fault) w' := by
  induction lines generalizing w with
  | nil => exact ⟨w, .refl w, rfl⟩
  | cons line lines ih =>
      unfold Channel.firstRefusal?
      rw [List.findSome?_cons]
      cases hline : w.channel.refusal? (Text.plain (line ++ "\n")) with
      | some fault => exact ⟨w, .refl w, bind_of_error (print_of_refused hline)⟩
      | none =>
          obtain ⟨w₁, hsay, hsame⟩ := print_of_taken hline
          obtain ⟨w₂, hsame', hrest⟩ := ih w₁
          rw [hsame.channel] at hrest
          exact ⟨w₂, hsame.trans hsame', (bind_of_ok hsay).trans hrest⟩

theorem sayAll_of_taken (h : w.channel.firstRefusal? lines = none) :
    ∃ w', sayAll lines w = .ok () w' ∧ w.Same w' := by
  obtain ⟨w', hsame, hsay⟩ := sayAll_apply lines w
  rw [h] at hsay
  exact ⟨w', hsay, hsame⟩

theorem sayAll_of_refused (h : w.channel.firstRefusal? lines = some fault) :
    ∃ w', sayAll lines w = .error (.unencodable fault) w' ∧ w.Same w' := by
  obtain ⟨w', hsame, hsay⟩ := sayAll_apply lines w
  rw [h] at hsay
  exact ⟨w', hsay, hsame⟩

end

/-! ## Files -/

section

variable {w : World} {path : Path} {disk : Disk} {x : FileWork Unit}

theorem onDisk_of_ok (h : x w.disk = .ok () disk) :
    onDisk x w = .ok () { w with disk := disk } := by
  unfold onDisk
  rw [h]

theorem onDisk_of_error {e : FileTrouble} (h : x w.disk = .error e disk) :
    onDisk x w = .error (troubleOf e) { w with disk := disk } := by
  unfold onDisk
  rw [h]

theorem readFile_of_ok {bytes : List UInt8} (h : w.disk.read path = .ok ⟨bytes, none⟩) :
    readFile path w = .ok bytes w := by
  unfold readFile
  rw [h]

theorem readFile_of_fault {fault : SystemFault}
    (h : w.disk.read path = .error fault ∨ ∃ bytes, w.disk.read path = .ok ⟨bytes, some fault⟩) :
    readFile path w = .error (.system fault) w := by
  unfold readFile
  rcases h with h | ⟨bytes, h⟩
  · rw [h]
  · rw [h]

end

end Work

section

variable {texts : List RawText} {path : Path} {d d' : Disk}

theorem change_of_fault {f : Disk → Except SystemFault Disk} {fault : SystemFault}
    (h : f d = .error fault) : FileWork.change f d = .error (.system fault) d := by
  unfold FileWork.change
  rw [h]

theorem change_of_ok {f : Disk → Except SystemFault Disk} (h : f d = .ok d') :
    FileWork.change f d = .ok () d' := by
  unfold FileWork.change
  rw [h]

theorem writeTexts_of_fault {fault : SystemFault}
    (h : d.write path (Utf8.encodeTexts texts).1 = .error fault) :
    FileWork.writeTexts (fun bytes d => d.write path bytes) texts d = .error (.system fault) d := by
  rw [FileWork.writeTexts_apply, h]

theorem writeTexts_of_unencodable {fault : Utf8.EncodeFault}
    (h : d.write path (Utf8.encodeTexts texts).1 = .ok d')
    (htexts : (Utf8.encodeTexts texts).2 = some fault) :
    FileWork.writeTexts (fun bytes d => d.write path bytes) texts d
      = .error (.encoding fault) d' := by
  rw [FileWork.writeTexts_apply, h]
  dsimp only
  rw [htexts]

theorem writeTexts_of_ok (h : d.write path (Utf8.encodeTexts texts).1 = .ok d')
    (htexts : (Utf8.encodeTexts texts).2 = none) :
    FileWork.writeTexts (fun bytes d => d.write path bytes) texts d = .ok () d' := by
  rw [FileWork.writeTexts_apply, h]
  dsimp only
  rw [htexts]

end

/-! ## Assembling a file -/

theorem assemble_ne_patch (strict : Bool) (file : RawText) (stream : Stream) (e : PatchError) :
    (assemble strict file stream).1 ≠ .error (.patch e) := by
  unfold assemble
  cases hstart : Pass.start file stream strict addressSpace with
  | error d =>
      intro h
      cases h
  | ok p =>
      dsimp only
      cases hgenerate : p.generate with
      | error e' p' =>
          intro h
          cases h
          exact (Pass.sound_start hstart).generate_ne_patch e p' hgenerate
      | ok image p' =>
          intro h
          cases h

namespace Assembler

variable {a : Assembler} {disk : Disk} {path : Path} {contents : Disk.Contents}

theorem runFile_of_fault {fault : SystemFault} (h : disk.read path = .error fault) :
    (a.runFile disk path).1 = .error (.system fault) := by
  unfold runFile
  rw [h]

/-- A file that can be opened is assembled under the name of its path. -/
theorem runFile_of_read (h : disk.read path = .ok contents) :
    (a.runFile disk path).1 = (a.run path.text contents.stream).1.mapError .failure
      ∧ (a.runFile disk path).2.1 = (a.run path.text contents.stream).2.1 := by
  unfold runFile
  rw [h]
  exact ⟨rfl, rfl⟩

theorem runFile_of_failure {e : Failure} (h : disk.read path = .ok contents)
    (hbuild : (assemble a.strict path.text contents.stream).1 = .error e) :
    (a.runFile disk path).1 = .error (.failure e) := by
  rw [(runFile_of_read h).1, (run_of_error hbuild).1]
  rfl

theorem runFile_of_build {b : Build} (h : disk.read path = .ok contents)
    (hbuild : (assemble a.strict path.text contents.stream).1 = .ok b) :
    (a.runFile disk path).1 = .ok b.image
      ∧ (a.runFile disk path).2.1 = holding a.strict (some b) := by
  obtain ⟨himage, hkept⟩ := run_of_ok hbuild
  rw [(runFile_of_read h).1, (runFile_of_read h).2, himage, hkept]
  exact ⟨rfl, rfl⟩

end Assembler

end RomKit
