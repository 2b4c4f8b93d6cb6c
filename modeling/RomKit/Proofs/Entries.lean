import RomKit.Listing.Disassembly

/-!
# An image is cut into entries

Decoding at the start of some bytes gives an entry that holds the first of them,
and its shape says what they are (`shows_decode`, `decode_takes`). Decoding goes
on behind the entry, so the bytes of all entries in a row are the image
(`flatMap_bytes_entries`). Conversely the bytes of an instruction are decoded to
that instruction, whatever comes behind them (`entries_append`).
-/

namespace RomKit

namespace Instruction

/-- A control byte is that of the instruction read from it. -/
theorem control_of_decode {b : UInt8} {i : Instruction} (h : decode b = .ok i) :
    i.control = b := by
  -- the fields of a control byte overlap with nothing: all 256 bytes are put together again
  have hall : ∀ n : Fin 256, ∀ op ∈ Opcode.ofOrdinal? (n.val % 32),
      (⟨op, decide (128 ≤ n.val), widthBits (UInt8.ofNat n.val)⟩ : Instruction).control
        = UInt8.ofNat n.val := by
    decide +kernel
  have hb := hall ⟨b.toNat, b.toNat_lt⟩
  simp only [UInt8.ofNat_toNat] at hb
  unfold decode at h
  split at h
  · next op hop =>
    cases h
    exact hb op hop
  · cases h

end Instruction

/-- A shape shows some bytes: an instruction that its opcode allows, with a payload if it pushes
one, or a single byte. -/
inductive Shape.Shows : Shape → List UInt8 → Prop where
  | plain {i : Instruction} :
      i.allowed = true → i.opcode ≠ .lit → Shows (.code i []) [i.control]
  | push {i : Instruction} {payload : List UInt8} :
      i.allowed = true → i.opcode = .lit → payload.length = i.width.byteCount →
      Shows (.code i payload) (i.control :: payload)
  | data {b : UInt8} {reason : DataReason} : Shows (.data b reason) [b]

namespace Entry

/-- **An entry shows its bytes.** -/
theorem shows_decode (symbols : SymbolMap) (address : Int) (control : UInt8) (rest : List UInt8) :
    (decode symbols address control (windowOf control rest)).shape.Shows
      (decode symbols address control (windowOf control rest)).bytes := by
  unfold decode
  split
  · exact .data
  · next i hi =>
    have hcontrol := Instruction.control_of_decode hi
    split
    · exact .data
    · next hallowed =>
      have hallowed' : i.allowed = true := by simpa using hallowed
      split
      · next hlit =>
        show Shape.Shows (.code i []) [control]
        rw [← hcontrol]
        exact .plain hallowed' hlit
      · next hlit =>
        have hlit' : i.opcode = .lit := Classical.not_not.mp hlit
        unfold windowOf
        by_cases hshort : rest.length < i.width.byteCount
        · rw [if_pos hshort]
          exact .data
        · rw [if_neg hshort]
          show Shape.Shows (.code i (rest.take i.width.byteCount))
            (control :: rest.take i.width.byteCount)
          rw [← hcontrol]
          refine .push hallowed' hlit' ?_
          rw [List.length_take]
          omega

/-- An entry takes its bytes from the start of what it is decoded from. -/
theorem decode_takes (symbols : SymbolMap) (address : Int) (control : UInt8) (rest : List UInt8) :
    ∃ later, (decode symbols address control (windowOf control rest)).bytes ++ later
      = control :: rest := by
  unfold decode
  split
  · exact ⟨rest, rfl⟩
  · next i hi =>
    split
    · exact ⟨rest, rfl⟩
    · split
      · exact ⟨rest, rfl⟩
      · unfold windowOf
        by_cases hshort : rest.length < i.width.byteCount
        · rw [if_pos hshort]
          exact ⟨rest, rfl⟩
        · rw [if_neg hshort]
          refine ⟨rest.drop i.width.byteCount, ?_⟩
          exact congrArg (control :: ·) (List.take_append_drop _ _)

/-- The bytes of an instruction are decoded to it. -/
theorem decode_of_shows {symbols : SymbolMap} {address : Int} {i : Instruction}
    {payload : List UInt8} {control : UInt8} {later : List UInt8}
    (h : Shape.Shows (.code i payload) (control :: later)) (rest : List UInt8) :
    decode symbols address control (windowOf control (later ++ rest))
      = ofCode symbols address (control :: later) i payload := by
  unfold decode
  cases h with
  | plain hallowed hlit =>
      rw [Instruction.decode_control]
      dsimp only
      rw [hallowed, if_neg (by decide), if_pos hlit]
  | push hallowed hlit hlen =>
      rw [Instruction.decode_control]
      dsimp only
      rw [hallowed, if_neg (by decide), if_neg (Classical.not_not.mpr hlit), ← hlen]
      unfold windowOf
      rw [if_neg (by rw [List.length_append]; omega), List.take_left]

end Entry

variable (symbols : SymbolMap)

/-- **The bytes of the entries are the image.** -/
theorem flatMap_bytes_entries (address : Int) (data : List UInt8) :
    (entries symbols address data).flatMap Entry.bytes = data := by
  fun_induction entries symbols address data with
  | case1 => rfl
  | case2 address control rest e ih =>
      obtain ⟨later, hlater⟩ := Entry.decode_takes symbols address control rest
      rw [List.flatMap_cons, ih, ← hlater, List.drop_left]

/-- The first entry is decoded from the start of the bytes, the others from what it leaves. -/
theorem entries_eq_cons {address : Int} {data : List UInt8} {e : Entry} {after : List Entry}
    (h : entries symbols address data = e :: after) :
    ∃ control rest, data = control :: rest
      ∧ e = Entry.decode symbols address control (Entry.windowOf control rest)
      ∧ after = entries symbols (address + e.bytes.length) (data.drop e.bytes.length) := by
  cases data with
  | nil =>
      rw [entries] at h
      cases h
  | cons control rest =>
      rw [entries] at h
      injection h with hfirst hlater
      subst hfirst
      exact ⟨control, rest, rfl, rfl, hlater.symm⟩

/-- **Entries behind others are the entries of the bytes behind theirs.** -/
theorem entries_behind {address : Int} {data : List UInt8} {before after : List Entry}
    (h : entries symbols address data = before ++ after) :
    entries symbols (address + (before.flatMap Entry.bytes).length) (after.flatMap Entry.bytes)
      = after := by
  induction before generalizing address data with
  | nil =>
      have hdata := flatMap_bytes_entries symbols address data
      rw [h, List.nil_append] at hdata
      rw [hdata]
      simpa using h
  | cons first before ih =>
      obtain ⟨control, rest, -, -, hlater⟩ := entries_eq_cons symbols h
      have hbehind := ih hlater.symm
      rw [Int.add_assoc, ← Int.natCast_add, ← List.length_append, ← List.flatMap_cons] at hbehind
      exact hbehind

theorem shows_of_mem_entries (address : Int) (data : List UInt8) :
    ∀ e ∈ entries symbols address data, e.shape.Shows e.bytes := by
  fun_induction entries symbols address data with
  | case1 => intro e he; cases he
  | case2 address control rest e ih =>
      intro x hx
      rcases List.mem_cons.mp hx with rfl | hx
      · exact Entry.shows_decode symbols address control rest
      · exact ih x hx

/-- **The bytes of an instruction give one entry**, and decoding goes on behind them. -/
theorem entries_append {i : Instruction} {payload bytes : List UInt8}
    (h : Shape.Shows (.code i payload) bytes) (address : Int) (rest : List UInt8) :
    entries symbols address (bytes ++ rest)
      = Entry.ofCode symbols address bytes i payload
        :: entries symbols (address + bytes.length) rest := by
  cases bytes with
  | nil => cases h
  | cons control later =>
      rw [List.cons_append, entries, Entry.decode_of_shows h]
      show _ :: entries symbols (address + (control :: later).length)
        ((control :: later ++ rest).drop (control :: later).length) = _
      rw [List.drop_left]

/-- A count cuts the entries short and changes none of them. -/
theorem disassemble_some (data : List UInt8) (start : Option Int) (count : Int) :
    disassemble symbols data start (some count)
      = (disassemble symbols data start none).take (max count 0).toNat := by
  have hcount : (max count 0).toNat = count.toNat := by omega
  rw [hcount]
  rfl

end RomKit
