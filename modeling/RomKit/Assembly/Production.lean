import RomKit.Assembly.Token
import RomKit.Event
import RomKit.Image

/-!
# Productions

A pass works through its source production by production. The current byte selects
one. It reads on with the cursor and puts down what it finds: bytes at the end of
the image, or an entry of the label table. Both happen to one state, the `Pass`, in
the order in which they are written here, and a production that fails leaves the
state as it is at that moment.

In every production all that can fail comes before anything is put down. So a
production reads a token and then puts it down as a whole
(`Pass.produce_eq_read_put`).
-/

namespace RomKit

/-- What has been put down: the image, the label table, and what was told. -/
structure Draft where
  image : Image
  labels : Labels
  log : Array Event
deriving DecidableEq, Repr

/-- The state of a pass over one source. -/
structure Pass where
  cursor : Cursor
  draft : Draft
  /-- References to undefined labels are errors. -/
  strict : Bool
  /-- The largest size of an image. -/
  limit : Int
  /-- The labels that the last success found unused. -/
  unused : List Definition
deriving DecidableEq, Repr

/-- A step of a pass. What it has done stays when it fails. -/
abbrev Production := EStateM Diagnostic Pass

namespace Draft

/-- Nothing yet. -/
def empty : Draft :=
  ⟨#[], .empty, #[]⟩

/-- Appends bytes to the image. -/
def append (d : Draft) (bytes : List UInt8) : Draft :=
  { d with image := d.image ++ bytes }

/-- The instruction that pushes a payload of a given length. -/
def pushOf (length : Nat) : Instruction :=
  ⟨.lit, false, .ofLength length⟩

end Draft

namespace Pass

open Cursor Scan Source Token

/-! ## Primitives -/

/-- Moves the cursor. -/
def read {α : Type} (x : Scan α) : Production α := fun p =>
  match x p.cursor with
  | .ok a c => .ok a { p with cursor := c }
  | .error e c => .error e { p with cursor := c }

/-- Appends bytes to the image. -/
def emit (bytes : List UInt8) : Production Unit :=
  modify fun p => { p with draft := p.draft.append bytes }

/-- Changes the label table. -/
def record {α : Type} (x : EStateM Diagnostic Labels α) : Production α := fun p =>
  match x p.draft.labels with
  | .ok a t => .ok a { p with draft := { p.draft with labels := t } }
  | .error e t => .error e { p with draft := { p.draft with labels := t } }

/-- Tells about an event. -/
def tell (e : Event) : Production Unit :=
  modify fun p => { p with draft := { p.draft with log := p.draft.log.push e } }

/-- The end of the image so far. -/
def position : Production Nat := do
  return (← get).draft.image.size

/-! ## Productions -/

/-- Skips `( … )`. Comments do not nest. -/
def skipComment (start : Location) : Production Unit := do
  let _ ← read advance
  let _ ← read (takeRun (· != closeParen))
  if (← get).cursor.atEnd then throw ⟨.openComment, some start⟩
  let _ ← read advance

/-- Pushes four bytes that are to be the address of a label, zero for now. -/
def emitReference (start : Location) : Production Unit := do
  let name ← read (scanName start .reference)
  emit [(Draft.pushOf Image.addressSize).control]
  let offset ← position
  record (modify fun t => t.refer ⟨name, offset, some start⟩)
  emit (List.replicate Image.addressSize 0)

/-- Binds a label to the end of the image. -/
def defineLabel (start : Location) : Production Unit := do
  let name ← read (scanName start .definition)
  let offset ← position
  record (Labels.define ⟨name, offset, some start⟩)
  tell (.labelDefined name offset)

/-- Puts down the text after a quote as it is. -/
def emitString (start : Location) : Production Unit := do
  let _ ← read advance
  let bytes ← read (takeRun (!isSpace ·))
  if bytes.isEmpty then throw ⟨.emptyString, some start⟩
  emit bytes

/-- Pushes the number after `#`. -/
def emitLiteral (start : Location) : Production Unit := do
  let _ ← read advance
  let payload ← read (scanDigits start)
  if payload.isEmpty then throw ⟨.missingDigits, some start⟩
  emit [(Draft.pushOf payload.length).control]
  emit payload

/-- Puts down the bytes that digits spell. -/
def emitData (start : Location) : Production Unit := do
  let bytes ← read (scanDigits start)
  emit bytes

/-- Puts down the control byte of a mnemonic with its modifiers. A blank, a comment or the end must
follow. -/
def emitInstruction (start : Location) : Production Unit := do
  let run ← read (takeRun isSymbol)
  let size ← read scanWidth
  let (name, ret) := splitReturn run
  match toInstruction (textOf name) ret size with
  | .error cause => throw ⟨cause, some start⟩
  | .ok i =>
    match (← get).cursor.current with
    | none => emit [i.control]
    | some b =>
      if separates b then emit [i.control]
      else throw ⟨.unseparated b (textOf name), some start⟩

/-- Runs the production that the current byte `b`, at `start`, selects. -/
def produce (start : Location) (b : UInt8) : Production Unit :=
  if b == openParen then skipComment start
  else if b == semicolon then emitReference start
  else if b == atSign then defineLabel start
  else if b == quote then emitString start
  else if b == hash then emitLiteral start
  else if isSpace b then do
    let _ ← read advance
  else if isHexDigit b then emitData start
  else if isSymbol b then emitInstruction start
  else throw ⟨.unexpectedByte b, some start⟩

/-- Runs a production, unless the source is at its end; tells whether it did. -/
def step : Production Bool := do
  let p ← get
  match p.cursor.current with
  | none => return false
  | some b =>
    produce p.cursor.location b
    return true

end Pass

/-! ## Reading before putting down -/

namespace Draft

/-- Appends an instruction that pushes a payload. -/
def appendPush (d : Draft) (payload : List UInt8) : Draft :=
  d.append ((pushOf payload.length).control :: payload)

/-- Puts down a token that starts at a place. A reference pushes four bytes, zero for now. -/
def put (start : Location) (token : Token) : EStateM Diagnostic Draft Unit := fun d =>
  match token with
  | .blank _ | .comment _ => .ok () d
  | .reference name =>
    let r : Reference := ⟨name, d.image.size + 1, some start⟩
    .ok () ({ d with labels := d.labels.refer r }.appendPush (Image.bigEndian 0))
  | .definition name =>
    let offset : Int := d.image.size
    match Labels.define ⟨name, offset, some start⟩ d.labels with
    | .error e _ => .error e d
    | .ok _ labels =>
      .ok () { d with labels := labels, log := d.log.push (.labelDefined name offset) }
  | .string bytes | .data bytes => .ok () (d.append bytes)
  | .literal payload => .ok () (d.appendPush payload)
  | .instruction i => .ok () (d.append [i.control])

end Draft

namespace Pass

open Cursor Scan Source Token

/-- Puts down a token. -/
def put (start : Location) (token : Token) : Production Unit := fun p =>
  match p.draft.put start token with
  | .ok _ d => .ok () { p with draft := d }
  | .error e d => .error e { p with draft := d }

section

variable {α β : Type} {start : Location}

theorem read_bind (x : Scan α) (f : α → Scan β) :
    read (x >>= f) = read x >>= fun a => read (f a) := by
  funext p
  show read (EStateM.bind x f) p = EStateM.bind (read x) (fun a => read (f a)) p
  unfold read EStateM.bind
  dsimp only
  cases x p.cursor with
  | ok a c => rfl
  | error e c => rfl

theorem read_eq_ok {x : Scan α} {p q : Pass} {a : α} (h : read x p = .ok a q) :
    ∃ c, x p.cursor = .ok a c ∧ q = { p with cursor := c } := by
  unfold read at h
  split at h
  · next c hx =>
    cases h
    exact ⟨_, hx, rfl⟩
  · cases h

theorem bind_apply (x : Production α) (f : α → Production β) (p : Pass) :
    (x >>= f) p = match x p with
      | .ok a q => f a q
      | .error e q => .error e q := by
  show EStateM.bind x f p = _
  unfold EStateM.bind
  cases x p with
  | ok a q => rfl
  | error e q => rfl

/-- Two ways to go on are the same if they are the same after every success. -/
theorem bind_congr_of_ok {x : Production α} {f g : α → Production β} {p : Pass}
    (h : ∀ a q, x p = .ok a q → f a q = g a q) : (x >>= f) p = (x >>= g) p := by
  rw [bind_apply, bind_apply]
  cases hx : x p with
  | ok a q => exact h a q hx
  | error e q => rfl

/-- The parenthesis that ends the run ends the comment. -/
theorem skipComment_eq (start : Location) :
    skipComment start = read (scanComment start) >>= put start := by
  unfold skipComment scanComment
  simp only [read_bind, bind_assoc]
  congr 1
  funext _ p
  refine bind_congr_of_ok fun text q hrun => ?_
  obtain ⟨c, htake, rfl⟩ := read_eq_ok hrun
  have hsees : c.sees (· != closeParen) = false := sees_of_takeWhile htake
  generalize hq : ({ p with cursor := c } : Pass) = q
  have hcursor : q.cursor = c := by rw [← hq]
  rw [bind_apply, bind_apply]
  show (if q.cursor.atEnd then _ else _ : Production Unit) q = _
  cases hc : c.current with
  | none =>
      have hend : q.cursor.atEnd = true := by rw [hcursor, atEnd, hc]; rfl
      have hnot : read (takeIf (· == closeParen)) q = .ok none q := by
        unfold read takeIf
        rw [hcursor, if_neg (by simp [sees, hc]), ← hq]
      rw [if_pos hend, hnot]
      rfl
  | some b =>
      obtain rfl : b = closeParen := by simpa [sees, hc] using hsees
      have hend : ¬q.cursor.atEnd = true := by simp [hcursor, atEnd, hc]
      have hclose : read (takeIf (· == closeParen)) q = read advance q := by
        unfold read takeIf
        rw [hcursor, if_pos (by simp [sees, hc])]
      rw [if_neg hend, hclose, bind_apply]
      cases hread : read advance q with
      | error e r => rfl
      | ok found r =>
          obtain ⟨c', hadvance, -⟩ := read_eq_ok hread
          rw [hcursor] at hadvance
          cases advance_eq_some hc hadvance
          rfl

/-- The zeros lie behind the control byte, where the reference says. -/
theorem emitReference_eq (start : Location) :
    emitReference start = read (scanReference start) >>= put start := by
  unfold emitReference scanReference
  rw [read_bind, bind_assoc]
  congr 1
  funext name p
  show EStateM.Result.ok () _ = EStateM.Result.ok () _
  congr 1
  simp [Draft.append, Draft.appendPush, Image.addressSize, Image.bigEndian]

theorem defineLabel_eq (start : Location) :
    defineLabel start = read (scanDefinition start) >>= put start := by
  unfold defineLabel scanDefinition
  rw [read_bind, bind_assoc]
  congr 1
  funext name p
  show (record _ >>= fun _ => tell _) p = put start (.definition name) p
  rw [bind_apply]
  unfold record put Draft.put
  dsimp only
  cases hfind : p.draft.labels.find? name with
  | none =>
      rw [Labels.define_of_new hfind]
      rfl
  | some first =>
      rw [Labels.define_of_known hfind]

theorem emitString_eq (start : Location) :
    emitString start = read (scanString start) >>= put start := by
  unfold emitString scanString
  simp only [read_bind, bind_assoc]
  congr 1
  funext _
  congr 1
  funext bytes
  split
  · rfl
  · rfl

theorem emitLiteral_eq (start : Location) :
    emitLiteral start = read (scanLiteral start) >>= put start := by
  unfold emitLiteral scanLiteral
  simp only [read_bind, bind_assoc]
  congr 1
  funext _
  congr 1
  funext payload
  split
  · rfl
  · funext p
    show EStateM.Result.ok () _ = EStateM.Result.ok () _
    simp [Draft.append, Draft.appendPush]

theorem emitData_eq (start : Location) :
    emitData start = read (scanData start) >>= put start := by
  unfold emitData scanData
  rw [read_bind, bind_assoc]
  rfl

theorem emitInstruction_eq (start : Location) :
    emitInstruction start = read (scanInstruction start) >>= put start := by
  unfold emitInstruction scanInstruction
  simp only [read_bind, bind_assoc]
  congr 1
  funext run
  congr 1
  funext size
  cases toInstruction (textOf (splitReturn run).1) (splitReturn run).2 size with
  | error cause => rfl
  | ok i =>
      funext p
      show (match p.cursor.current with | none => _ | some b => _ : Production Unit) p
        = (read (match p.cursor.current with | none => _ | some b => _) >>= put start) p
      cases p.cursor.current with
      | none => rfl
      | some b =>
          dsimp only
          split
          · rfl
          · rfl

/-- **A production reads a token and then puts it down.** -/
theorem produce_eq_read_put (start : Location) (b : UInt8) :
    produce start b = read (scanFrom start b) >>= put start := by
  unfold produce scanFrom
  split
  · exact skipComment_eq start
  split
  · exact emitReference_eq start
  split
  · exact defineLabel_eq start
  split
  · exact emitString_eq start
  split
  · exact emitLiteral_eq start
  split
  · unfold scanBlank
    rw [read_bind, bind_assoc]
    rfl
  split
  · exact emitData_eq start
  split
  · exact emitInstruction_eq start
  · rfl

end

/-- **A step reads a token and puts it down.** -/
theorem step_eq (p : Pass) : p.step = match Token.scan p.cursor with
    | .error e c => .error e { p with cursor := c }
    | .ok none c => .ok false { p with cursor := c }
    | .ok (some token) c =>
      match p.draft.put p.cursor.location token with
      | .error e d => .error e { p with cursor := c, draft := d }
      | .ok _ d => .ok true { p with cursor := c, draft := d } := by
  unfold Token.scan
  show (match p.cursor.current with | none => _ | some b => _ : Production Bool) p = _
  cases p.cursor.current with
  | none => rfl
  | some b =>
      dsimp only
      rw [produce_eq_read_put, bind_apply, bind_apply]
      unfold read put
      cases scanFrom p.cursor.location b p.cursor with
      | error e c => rfl
      | ok token c =>
          dsimp only
          cases p.draft.put p.cursor.location token with
          | error e d => rfl
          | ok _ d => rfl

theorem remaining_step_lt {p p' : Pass} (h : p.step = .ok true p') :
    p'.cursor.remaining < p.cursor.remaining := by
  rw [step_eq] at h
  split at h
  · cases h
  · cases h
  · next token c hs =>
    split at h
    · cases h
    · cases h
      exact Token.remaining_scan_lt hs

end Pass

end RomKit
