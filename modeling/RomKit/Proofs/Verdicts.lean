import RomKit.Command.BaseAddress
import RomKit.Command.Tool
import RomKit.Proofs.CheckedPaths

/-!
# What exit codes tell

A run of a tool comes to a verdict: the work is done, or something is to blame. The
exit code is meant to tell what: 1 for the source or the image, 2 for an argument
or a path, 3 for the tool itself, which should never be.

The code is chosen from the trouble that stops the work, and this is not quite the
verdict (`Verdict.ending`). An output path without a name stops the tool before it
looks for trouble. Some faults of paths are taken for faults of the tool: a path
that goes through a file, is too long or has too many links. So are names of files
that cannot be written as text. In all other cases the code tells the verdict
(`Verdict.faithful_iff`).
-/

namespace RomKit

namespace Trouble

theorem exitCode_ne_success (t : Trouble) : t.exitCode ≠ .success := by
  cases t with
  | system fault =>
      obtain ⟨kind, message⟩ := fault
      cases kind <;> exact ExitCode.noConfusion
  | _ => exact ExitCode.noConfusion

/-- Of the errors about files, some are taken for faults of the tool. -/
theorem exitCode_system {fault : SystemFault} (h : ¬fault.OfNoPath) :
    ((system fault).exitCode = .invalidArgs
        ∧ fault.kind ∉ [SystemKind.notDirectory, .nameTooLong, .other])
      ∨ ((system fault).exitCode = .internalError
        ∧ fault.kind ∈ [SystemKind.notDirectory, .nameTooLong, .other]) := by
  obtain ⟨kind, message⟩ := fault
  cases kind with
  | missing | permission | isDirectory => exact Or.inl ⟨rfl, by simp⟩
  | notDirectory | nameTooLong | other => exact Or.inr ⟨rfl, by simp⟩
  | zeroCharacter => exact absurd (Or.inl rfl) h
  | notEncodable => exact absurd (Or.inr rfl) h

end Trouble

/-- What a run of a tool comes to. -/
inductive Verdict where
  | done
  /-- Text that was asked for is shown, such as the version. -/
  | answered
  /-- The source is rejected. -/
  | rejected (d : Diagnostic)
  /-- The image has no bytes. -/
  | emptyImage
  /-- The command line asks for nothing that can be done. -/
  | misused
  /-- The path for the image has no name. -/
  | nameless (e : PathError)
  /-- The image does not start at the address that was chosen. -/
  | misplaced (e : BaseAddress.Error)
  /-- The symbol file cannot be understood. -/
  | badSymbols (e : LoadError)
  /-- A file cannot be opened or read. -/
  | unread (fault : SystemFault)
  /-- A file cannot be written. -/
  | unwritten (fault : SystemFault)
  /-- The text for a file has no bytes, because it tells the name of another. -/
  | unencodable (fault : Utf8.EncodeFault)
  /-- The output channel does not take a line, because it tells the name of a file. -/
  | unsaid (fault : Utf8.EncodeFault)
deriving DecidableEq, Repr

namespace Verdict

/-- The source or the image is to blame. -/
def blamesContent : Verdict → Bool
  | .rejected _ | .emptyImage => true
  | _ => false

/-- The value of an option, an argument or a path is to blame. -/
def blamesArguments : Verdict → Bool
  | .done | .answered | .rejected _ | .emptyImage => false
  | _ => true

/-- How the tools end for a verdict. -/
def ending : Verdict → Ending
  | .done => .exit .success
  | .answered => .parsed 0
  | .rejected _ | .emptyImage => .exit .buildError
  | .misused => .parsed 2
  | .misplaced _ | .badSymbols _ => .exit .invalidArgs
  | .nameless e => .uncaught e
  | .unread fault | .unwritten fault => .exit (Trouble.system fault).exitCode
  | .unencodable _ | .unsaid _ => .exit .internalError

/-- A status tells what a verdict is. -/
structure Faithful (v : Verdict) (status : Nat) : Prop where
  /-- The status is 1 only if the source or the image is to blame. -/
  content : status = 1 → v.blamesContent = true
  /-- The status is 2 whenever an argument or a path is to blame. -/
  arguments : v.blamesArguments = true → status = 2
  /-- No fault of the tool is reported. -/
  noFault : status ≠ 3

/-- The error about a file. -/
def fault? : Verdict → Option SystemFault
  | .unread fault | .unwritten fault => some fault
  | _ => none

/-- The path for the image has no name; or a path goes through a file, is too long, has too many
links or leads to a device with an error of its own; or the name of a file cannot be written as
text. -/
def Overlooked : Verdict → Prop
  | .nameless _ | .unencodable _ | .unsaid _ => True
  | .unread fault | .unwritten fault => fault.kind ∈ [.notDirectory, .nameTooLong, .other]
  | _ => False

theorem faithful_invalidArgs {v : Verdict} (h : v.ending.status = 2) :
    v.Faithful v.ending.status := by
  rw [h]
  exact ⟨nofun, fun _ => rfl, nofun⟩

/-- **The status tells the verdict unless it is overlooked.** -/
theorem faithful_iff {v : Verdict} (h : ∀ fault, v.fault? = some fault → ¬fault.OfNoPath) :
    v.Faithful v.ending.status ↔ ¬v.Overlooked := by
  cases v with
  | unread fault =>
      rcases Trouble.exitCode_system (h fault rfl) with ⟨hcode, hkind⟩ | ⟨hcode, hkind⟩
      · have hstatus : (unread fault).ending.status = 2 := congrArg ExitCode.number hcode
        exact ⟨fun _ => hkind, fun _ => faithful_invalidArgs hstatus⟩
      · have hstatus : (unread fault).ending.status = 3 := congrArg ExitCode.number hcode
        exact ⟨fun hfaithful => absurd hstatus hfaithful.noFault, fun hclean => absurd hkind hclean⟩
  | unwritten fault =>
      rcases Trouble.exitCode_system (h fault rfl) with ⟨hcode, hkind⟩ | ⟨hcode, hkind⟩
      · have hstatus : (unwritten fault).ending.status = 2 := congrArg ExitCode.number hcode
        exact ⟨fun _ => hkind, fun _ => faithful_invalidArgs hstatus⟩
      · have hstatus : (unwritten fault).ending.status = 3 := congrArg ExitCode.number hcode
        exact ⟨fun hfaithful => absurd hstatus hfaithful.noFault, fun hclean => absurd hkind hclean⟩
  | nameless e =>
      exact ⟨fun hfaithful => (nomatch hfaithful.arguments rfl), fun h => absurd trivial h⟩
  | unencodable fault => exact ⟨fun h => absurd rfl h.noFault, fun h => absurd trivial h⟩
  | unsaid fault => exact ⟨fun h => absurd rfl h.noFault, fun h => absurd trivial h⟩
  | rejected d => exact ⟨fun _ => id, fun _ => ⟨fun _ => rfl, nofun, nofun⟩⟩
  | emptyImage => exact ⟨fun _ => id, fun _ => ⟨fun _ => rfl, nofun, nofun⟩⟩
  | done => exact ⟨fun _ => id, fun _ => ⟨nofun, nofun, nofun⟩⟩
  | answered => exact ⟨fun _ => id, fun _ => ⟨nofun, nofun, nofun⟩⟩
  | misused => exact ⟨fun _ => id, fun _ => faithful_invalidArgs rfl⟩
  | misplaced e => exact ⟨fun _ => id, fun _ => faithful_invalidArgs rfl⟩
  | badSymbols e => exact ⟨fun _ => id, fun _ => faithful_invalidArgs rfl⟩

/-- A run that exits with 0 is done. -/
theorem ending_eq_success_iff {v : Verdict} : v.ending = .exit .success ↔ v = .done := by
  constructor
  · intro h
    cases v with
    | done => rfl
    | unread fault => exact absurd (Ending.exit.inj h) (Trouble.exitCode_ne_success _)
    | unwritten fault => exact absurd (Ending.exit.inj h) (Trouble.exitCode_ne_success _)
    | _ => cases h
  · rintro rfl
    rfl

end Verdict

namespace Work

/-- A step of a tool ends as a verdict says. -/
def EndsAs (v : Verdict) : EStateM.Result Trouble World ExitCode → Prop
  | .ok code _ => Ending.exit code = v.ending
  | .error t _ => Ending.exit t.exitCode = v.ending

theorem run_ending {x : Work ExitCode} {w : World} {v : Verdict} (h : EndsAs v (x w)) (full : Bool)
    (task : String) (trace : Trouble → RawText) : (x.run full task trace w).ending = v.ending := by
  unfold run
  cases hx : x w with
  | ok code w' =>
      rw [hx] at h
      exact h
  | error t w' =>
      rw [hx] at h
      exact h

end Work

/-! ## The verdict on a run -/

/-- A run on a disk has a verdict, by a rule that says what it comes to. -/
structure Run.JudgedBy (r : Run) (disk : Disk) (comesTo : Verdict → Prop) : Prop where
  /-- It comes to something. -/
  total : ∃ v, comesTo v
  /-- It ends as the verdict says. -/
  ending : ∀ v, comesTo v → r.ending = v.ending
  /-- All files are opened and read, unless there are devices. -/
  opened : (∀ device, Node.device device ∉ disk.nodes) → ∀ fault, ¬comesTo (.unread fault)
  /-- The exit status tells the verdict unless it is overlooked. -/
  faithful_iff : ∀ v, comesTo v → (v.Faithful r.ending.status ↔ ¬v.Overlooked)

section

variable {r : Run} {disk : Disk} {comesTo : Verdict → Prop}

theorem Run.judgedBy (htotal : ∃ v, comesTo v) (hending : ∀ v, comesTo v → r.ending = v.ending)
    (hopened : (∀ device, Node.device device ∉ disk.nodes) → ∀ fault, ¬comesTo (.unread fault))
    (hpath : ∀ v fault, comesTo v → v.fault? = some fault → ¬fault.OfNoPath) :
    r.JudgedBy disk comesTo where
  total := htotal
  ending := hending
  opened := hopened
  faithful_iff := by
    intro v hv
    rw [hending v hv]
    exact Verdict.faithful_iff fun fault => hpath v fault hv

/-- A run that comes to one thing, which has nothing to do with files. -/
theorem Run.judgedBy_of_only {v : Verdict} (hv : comesTo v) (honly : ∀ v', comesTo v' → v' = v)
    (hending : r.ending = v.ending) (hfault : v.fault? = none) : r.JudgedBy disk comesTo := by
  refine judgedBy ⟨v, hv⟩ ?_ ?_ ?_
  · intro v' hv'
    rw [honly v' hv', hending]
  · intro _ fault hunread
    rw [← honly _ hunread] at hfault
    cases hfault
  · intro v' fault hv' hfault'
    rw [honly v' hv', hfault] at hfault'
    cases hfault'

end

/-! ## The verdict on a command line -/

/-- What the documentation of a parser says: requests for text end with 0 and its errors with 2;
files to be read have been found; and the paths of the others hold what a command line can hold.
A rule says which paths of the values are read and which are written. -/
structure Parser.Documented {α : Type} (parse : Parser α) (reads writes : α → List Path)
    (disk : Disk) (words : List RawText) : Prop where
  answered : ∀ status out, parse disk words = .answered status out → status = 0
  refused : ∀ status err, parse disk words = .refused status err → status = 2
  found : ∀ v, parse disk words = .accepted v → ∀ path ∈ reads v, disk.Found path
  typed : ∀ v, parse disk words = .accepted v → ∀ path ∈ writes v, path.Typed

namespace Parser

variable {α : Type} {parse : Parser α} {host : Host} {disk : Disk} {words : List RawText}

/-- What a command line comes to, where a rule says what the work on values comes to. -/
inductive ComesTo (parse : Parser α) (disk : Disk) (words : List RawText)
    (ends : α → Verdict → Prop) : Verdict → Prop where
  | misused {status : Nat} {err : RawText} :
      parse disk words = .refused status err → ComesTo parse disk words ends .misused
  | answered {status : Nat} {out : RawText} :
      parse disk words = .answered status out → ComesTo parse disk words ends .answered
  | work {values : α} {v : Verdict} :
      parse disk words = .accepted values → ends values v → ComesTo parse disk words ends v

/-- The verdict on a run of a tool is that on its work, if there is work. -/
theorem judgedBy_comesTo {work : α → World → Run} {ends : α → Verdict → Prop}
    {reads writes : α → List Path} (hparse : parse.Documented reads writes disk words)
    (h : ∀ values, parse disk words = .accepted values →
      (work values ⟨disk, host.channel, [], []⟩).JudgedBy disk (ends values)) :
    (parse.run host disk words work).JudgedBy disk (parse.ComesTo disk words ends) := by
  unfold run
  cases hwords : parse disk words with
  | accepted values =>
      have hwork := h values hwords
      have hends : ∀ v, parse.ComesTo disk words ends v → ends values v := by
        intro v hv
        cases hv with
        | work haccepted hends =>
            cases hwords.symm.trans haccepted
            exact hends
        | misused hrefused => cases hwords.symm.trans hrefused
        | answered hanswered => cases hwords.symm.trans hanswered
      obtain ⟨v, hv⟩ := hwork.total
      exact ⟨⟨v, .work hwords hv⟩, fun v hv => hwork.ending v (hends v hv),
        fun hdisk fault hv => hwork.opened hdisk fault (hends _ hv),
        fun v hv => hwork.faithful_iff v (hends v hv)⟩
  | answered status out =>
      refine Run.judgedBy_of_only (.answered hwords) (fun v hv => ?_) ?_ rfl
      · cases hv with
        | answered => rfl
        | misused hrefused => cases hwords.symm.trans hrefused
        | work haccepted _ => cases hwords.symm.trans haccepted
      · exact congrArg Ending.parsed (hparse.answered status out hwords)
  | refused status err =>
      refine Run.judgedBy_of_only (.misused hwords) (fun v hv => ?_) ?_ rfl
      · cases hv with
        | misused => rfl
        | answered hanswered => cases hwords.symm.trans hanswered
        | work haccepted _ => cases hwords.symm.trans haccepted
      · exact congrArg Ending.parsed (hparse.refused status err hwords)

end Parser

end RomKit
