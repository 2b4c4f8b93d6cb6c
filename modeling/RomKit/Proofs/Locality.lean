import RomKit.Proofs.Partition

/-!
# Disassembly is local

Decoding looks ahead in one place only: a push wants its payload, and the image may be too short
for it. Every other entry is decided by its own bytes, so it stays the same when bytes are added
behind the image (`Entry.decode_append`), and the entries of two images in a row are those of the
one and then those of the other (`entries_append_of_whole`).

A push that is cut off is where this ends. It is shown as data, and with more bytes behind it, it
would be an instruction.
-/

namespace RomKit

namespace Entry

/-- The entry is a push that lacks a part of its payload. -/
def isTruncated (e : Entry) : Bool :=
  match e.shape with
  | .data _ .truncated => true
  | _ => false

/-- The control byte is that of a push, and fewer bytes follow than it pushes. -/
def Overruns (control : UInt8) (following : Nat) : Prop :=
  ∃ ret width, control = Instruction.control ⟨.lit, ret, width⟩ ∧ following < width.byteCount

/-- **Everything decoding can do.** A push that is cut off is shown as data. Otherwise the entry is
not a truncated one, and it is the same with more bytes behind it. -/
theorem decode_cases (symbols : SymbolMap) (address : Int) (control : UInt8) (rest : List UInt8) :
    (Overruns control rest.length
        ∧ (decode symbols address control (windowOf control rest)).isTruncated = true)
      ∨ (¬Overruns control rest.length
        ∧ (decode symbols address control (windowOf control rest)).isTruncated = false
        ∧ ∀ more, decode symbols address control (windowOf control (rest ++ more))
          = decode symbols address control (windowOf control rest)) := by
  have hfields : ∀ {ret width}, control = Instruction.control ⟨.lit, ret, width⟩ →
      Instruction.decode control = .ok ⟨.lit, ret, width⟩ := by
    rintro ret width rfl
    exact Instruction.decode_control _
  unfold decode
  cases hdecode : Instruction.decode control with
  | error e =>
      refine Or.inr ⟨?_, rfl, fun more => rfl⟩
      rintro ⟨ret, width, hcontrol, -⟩
      cases hdecode.symm.trans (hfields hcontrol)
  | ok i =>
      dsimp only
      by_cases hallowed : (!i.allowed) = true
      · rw [if_pos hallowed]
        refine Or.inr ⟨?_, rfl, fun more => by rw [if_pos hallowed]⟩
        rintro ⟨ret, width, hcontrol, -⟩
        -- a push accepts all modifiers
        cases hdecode.symm.trans (hfields hcontrol)
        cases ret <;> cases width <;> cases hallowed
      · rw [if_neg hallowed]
        by_cases hlit : i.opcode ≠ .lit
        · rw [if_pos hlit]
          refine Or.inr ⟨?_, rfl, fun more => by rw [if_neg hallowed, if_pos hlit]⟩
          rintro ⟨ret, width, hcontrol, -⟩
          cases hdecode.symm.trans (hfields hcontrol)
          exact hlit rfl
        · rw [if_neg hlit]
          unfold windowOf
          by_cases hshort : rest.length < i.width.byteCount
          · rw [if_pos hshort]
            refine Or.inl ⟨⟨i.ret, i.width, ?_, hshort⟩, rfl⟩
            rw [← Instruction.control_of_decode hdecode, ← Classical.not_not.mp hlit]
          · rw [if_neg hshort]
            refine Or.inr ⟨?_, rfl, fun more => ?_⟩
            · rintro ⟨ret, width, hcontrol, hover⟩
              cases hdecode.symm.trans (hfields hcontrol)
              exact hshort hover
            · rw [if_neg hallowed, if_neg hlit, if_neg (by rw [List.length_append]; omega),
                List.take_append_of_le_length (by omega)]

section

variable {symbols : SymbolMap} {address : Int} {control : UInt8} {rest : List UInt8}

theorem isTruncated_decode_iff :
    (decode symbols address control (windowOf control rest)).isTruncated = true
      ↔ Overruns control rest.length := by
  rcases decode_cases symbols address control rest with ⟨hover, htruncated⟩ | ⟨hfits, hwhole, -⟩
  · exact iff_of_true htruncated hover
  · exact iff_of_false (by rw [hwhole]; decide) hfits

/-- More bytes make no difference to an entry that is whole. -/
theorem decode_append (h : (decode symbols address control (windowOf control rest)).isTruncated
      = false) (more : List UInt8) :
    decode symbols address control (windowOf control (rest ++ more))
      = decode symbols address control (windowOf control rest) := by
  rcases decode_cases symbols address control rest with ⟨-, htruncated⟩ | ⟨-, -, hsame⟩
  · rw [htruncated] at h
    cases h
  · exact hsame more

end

end Entry

section

variable (symbols : SymbolMap)

/-- **A first entry that is whole stays the first**, and decoding goes on behind it as before, with
more bytes at the end. -/
theorem entries_cons_append {address : Int} {control : UInt8} {rest : List UInt8} {e : Entry}
    (he : e = Entry.decode symbols address control (Entry.windowOf control rest))
    (hwhole : e.isTruncated = false) (more : List UInt8) :
    entries symbols address (control :: rest ++ more)
      = e :: entries symbols (address + e.bytes.length)
          ((control :: rest).drop e.bytes.length ++ more) := by
  subst he
  obtain ⟨later, hlater⟩ := Entry.decode_takes symbols address control rest
  rw [List.cons_append, entries, Entry.decode_append hwhole, ← List.cons_append, ← hlater,
    List.append_assoc, List.drop_left, List.drop_left]

/-- **Images in a row are listed in a row**, if the first ends with a whole entry. -/
theorem entries_append_of_whole {address : Int} {data : List UInt8}
    (h : ∀ e ∈ entries symbols address data, e.isTruncated = false) (more : List UInt8) :
    entries symbols address (data ++ more)
      = entries symbols address data ++ entries symbols (address + data.length) more := by
  fun_induction entries symbols address data with
  | case1 address => simp
  | case2 address control rest e ih =>
      obtain ⟨later, hlater⟩ := Entry.decode_takes symbols address control rest
      have hlength : ((control :: rest).length : Int)
          = e.bytes.length + ((control :: rest).drop e.bytes.length).length := by
        rw [← hlater, List.drop_left, List.length_append, Int.natCast_add]
      rw [entries_cons_append symbols rfl (h e List.mem_cons_self),
        ih fun e' he' => h e' (List.mem_cons_of_mem _ he'), hlength, List.cons_append,
        Int.add_assoc]

/-- The entries before the first truncated one are there with more bytes, too. -/
theorem takeWhile_prefix_entries_append (address : Int) (data more : List UInt8) :
    (entries symbols address data).takeWhile (fun e => !e.isTruncated)
      <+: entries symbols address (data ++ more) := by
  fun_induction entries symbols address data with
  | case1 address => exact List.nil_prefix
  | case2 address control rest e ih =>
      cases hwhole : e.isTruncated with
      | true =>
          rw [List.takeWhile_cons_of_neg (by simp [hwhole])]
          exact List.nil_prefix
      | false =>
          rw [List.takeWhile_cons_of_pos (by simp [hwhole]),
            entries_cons_append symbols rfl hwhole more, List.prefix_cons_inj]
          exact ih

/-- **An entry is a truncated one if and only if it is a push whose payload would run past the end
of the image.** -/
theorem isTruncated_iff_of_entries_append {address : Int} {data : List UInt8}
    {before after : List Entry} {e : Entry}
    (h : entries symbols address data = before ++ e :: after) :
    e.isTruncated = true ↔ ∃ ret width,
      e.bytes.head? = some (Instruction.control ⟨.lit, ret, width⟩)
        ∧ data.length < (before.flatMap Entry.bytes).length + 1 + width.byteCount := by
  have hdata := flatMap_bytes_entries symbols address data
  rw [h, List.flatMap_append] at hdata
  obtain ⟨control, rest, hrest, he, -⟩ := entries_eq_cons symbols (entries_behind symbols h)
  obtain ⟨later, hlater⟩ := Entry.decode_takes symbols
    (address + (before.flatMap Entry.bytes).length) control rest
  rw [← he] at hlater
  have hhead : e.bytes.head? = some control := by
    have hpos := Entry.bytes_decode_pos symbols
      (address + (before.flatMap Entry.bytes).length) control rest
    rw [← he] at hpos
    obtain ⟨first, others, hbytes⟩ := List.exists_cons_of_length_pos hpos
    rw [hbytes, List.cons_append] at hlater
    rw [hbytes, (List.cons.inj hlater).1]
    rfl
  have hlength : data.length = (before.flatMap Entry.bytes).length + 1 + rest.length := by
    rw [← hdata, hrest, List.length_append, List.length_cons]
    omega
  rw [hhead, hlength, he, Entry.isTruncated_decode_iff, Entry.Overruns]
  simp only [Option.some.injEq, Nat.add_lt_add_iff_left]

/-- Four bytes behind the control byte are enough for any entry. -/
theorem not_isTruncated_of_room {address : Int} {data : List UInt8} {before after : List Entry}
    {e : Entry} (h : entries symbols address data = before ++ e :: after)
    (hroom : (before.flatMap Entry.bytes).length + 5 ≤ data.length) : e.isTruncated = false := by
  rw [← Bool.not_eq_true, isTruncated_iff_of_entries_append symbols h]
  rintro ⟨ret, width, -, hover⟩
  have hwidth : width.byteCount ≤ 4 := by cases width <;> decide
  omega

end

/--
**Disassembly is local.** For every image, address of its first byte and names: whatever bytes are
added behind the image, the entries of the whole are those of the image followed by those of the
added bytes at the address where the image ends, if and only if no entry of the image is a
truncated push. In any case the entries before the first truncated push are the first entries of
the whole. A truncated push is one whose payload would run past the end of the image.
-/
theorem disassemble_is_local (symbols : SymbolMap) (image : List UInt8) (address : Int) :
    ((∀ more, disassemble symbols (image ++ more) (some address) none
          = disassemble symbols image (some address) none
            ++ disassemble symbols more (some (address + image.length)) none)
        ↔ ∀ e ∈ disassemble symbols image (some address) none, e.isTruncated = false)
      ∧ (∀ more, (disassemble symbols image (some address) none).takeWhile (fun e => !e.isTruncated)
          <+: disassemble symbols (image ++ more) (some address) none)
      ∧ ∀ before e after,
          disassemble symbols image (some address) none = before ++ e :: after →
          (e.isTruncated = true ↔ ∃ ret width,
            e.bytes.head? = some (Instruction.control ⟨.lit, ret, width⟩)
              ∧ image.length < (before.flatMap Entry.bytes).length + 1 + width.byteCount) := by
  refine ⟨⟨fun hlocal e he => ?_, fun hwhole => entries_append_of_whole symbols hwhole⟩,
    takeWhile_prefix_entries_append symbols address image,
    fun before e after h => isTruncated_iff_of_entries_append symbols h⟩
  -- four more bytes are enough for any payload
  obtain ⟨before, after, hsplit⟩ := List.append_of_mem he
  have hlonger : entries symbols address (image ++ List.replicate 4 0)
      = before
        ++ e :: (after ++ entries symbols (address + image.length) (List.replicate 4 0)) := by
    refine (hlocal (List.replicate 4 0)).trans ?_
    rw [hsplit, List.append_assoc, List.cons_append]
    rfl
  refine not_isTruncated_of_room symbols hlonger ?_
  have hbytes := congrArg List.length (flatMap_bytes_entries symbols address image)
  have hpos := (shows_of_mem_entries symbols address image e he).length_bounds.1
  rw [show entries symbols address image = _ from hsplit, List.flatMap_append, List.flatMap_cons,
    List.length_append, List.length_append] at hbytes
  rw [List.length_append, List.length_replicate]
  omega

/-- The third piece lacks its payload, and the first two stay as they are whatever follows. Without
the third piece, listing goes on behind them. -/
theorem disassemble_is_local_threePieces :
    ∃ pushed other truncated,
      disassemble .empty threePieces (some 0) none = [pushed, other, truncated]
        ∧ truncated.isTruncated = true
        ∧ (¬∀ more, disassemble .empty (threePieces ++ more) (some 0) none
            = [pushed, other, truncated] ++ disassemble .empty more (some (0 + 7)) none)
        ∧ [pushed, other] <+: disassemble .empty (threePieces ++ [0x41]) (some 0) none
        ∧ ∀ more, disassemble .empty (threePieces.take 6 ++ more) (some 0) none
            = [pushed, other] ++ disassemble .empty more (some (0 + 6)) none := by
  have hpieces : disassemble .empty threePieces (some 0) none
      = [⟨0, [0x60, 0x00, 0x7f, 0xff, 0xf9],
          .code ⟨.lit, false, .four⟩ [0x00, 0x7f, 0xff, 0xf9], ""⟩,
        ⟨5, [0x1f], .data 0x1f .noOpcode, "no such opcode"⟩,
        ⟨6, [0x00], .data 0x00 .truncated, "truncated literal"⟩] := by
    decide +kernel
  have hwhole : disassemble .empty (threePieces.take 6) (some 0) none
      = [⟨0, [0x60, 0x00, 0x7f, 0xff, 0xf9],
          .code ⟨.lit, false, .four⟩ [0x00, 0x7f, 0xff, 0xf9], ""⟩,
        ⟨5, [0x1f], .data 0x1f .noOpcode, "no such opcode"⟩] := by
    decide +kernel
  obtain ⟨hlocal, hfirst, -⟩ := disassemble_is_local .empty threePieces 0
  obtain ⟨hlocal', -, -⟩ := disassemble_is_local .empty (threePieces.take 6) 0
  rw [hpieces] at hlocal hfirst
  rw [hwhole] at hlocal'
  refine ⟨_, _, _, hpieces, rfl, fun hall => ?_, hfirst [0x41], hlocal'.mpr ?_⟩
  · cases hlocal.mp hall _ (List.mem_cons_of_mem _ (List.mem_cons_of_mem _ List.mem_cons_self))
  · exact List.forall_mem_cons.mpr ⟨rfl, List.forall_mem_singleton.mpr rfl⟩

end RomKit
