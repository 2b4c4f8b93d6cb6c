import RomKit.Proofs.ListedAddresses

/-!
# The entries of an image are a partition of it

Every byte of an image is shown by one entry. An entry has one to five bytes, it
lies where the entries before it end, and it is what decoding a single instruction
at that offset gives, so the loop over an image meets no offset without a byte.

Names have no part in this. They are only looked up for comments, and how many
bytes an entry takes is decided by the bytes alone.
-/

namespace RomKit

/-- An entry shows one to five bytes: a control byte, and at most four bytes of payload. -/
theorem Shape.Shows.length_bounds {shape : Shape} {bytes : List UInt8} (h : shape.Shows bytes) :
    1 ≤ bytes.length ∧ bytes.length ≤ 5 := by
  cases h with
  | plain _ _ => simp
  | data => simp
  | @push i payload _ _ hlen =>
      rw [List.length_cons, hlen]
      cases i.width <;> decide

namespace Entry

/-! ## Decoding at an offset -/

theorem clip_of_le {length bound : Nat} (h : bound ≤ length) : clip length bound = bound := by
  unfold clip
  rw [if_neg (by omega)]
  omega

/-- A slice is what stands between its bounds. -/
theorem slice_middle (before middle after : List UInt8) :
    slice (before ++ middle ++ after) before.length (before.length + middle.length : Nat)
      = middle := by
  unfold slice
  rw [clip_of_le (by simp only [List.length_append]; omega),
    clip_of_le (by simp only [List.length_append]; omega), ← List.length_append, List.take_left,
    List.drop_left]

/-- What follows an offset is what follows the byte there. -/
theorem windowAt_append (before : List UInt8) (control : UInt8) (rest : List UInt8) :
    windowAt (before ++ control :: rest) before.length = windowOf control rest := by
  funext n
  unfold windowAt windowOf
  dsimp only
  by_cases hshort : rest.length < n
  · rw [if_pos hshort, if_pos (by rw [List.length_append, List.length_cons]; omega)]
  · have htake : (rest.take n).length = n := by rw [List.length_take]; omega
    have hwhole := slice_middle before (control :: rest.take n) (rest.drop n)
    rw [List.append_assoc, List.cons_append, List.take_append_drop, List.length_cons, htake]
      at hwhole
    have hpayload := slice_middle (before ++ [control]) (rest.take n) (rest.drop n)
    rw [List.append_assoc, List.append_assoc, List.take_append_drop, List.singleton_append,
      List.length_append, List.length_singleton, htake] at hpayload
    have hstop : (before.length : Int) + 1 + n = (before.length + (n + 1) : Nat) := by omega
    have hstop' : (before.length : Int) + 1 + n = (before.length + 1 + n : Nat) := by omega
    rw [if_neg hshort, if_neg (by rw [List.length_append, List.length_cons]; omega)]
    refine congrArg some (Prod.ext ?_ ?_)
    · rw [hstop]
      exact hwhole
    · rw [hstop']
      exact hpayload

theorem decodeAt_append (symbols : SymbolMap) (address : Int) {before : List UInt8}
    (control : UInt8) (rest : List UInt8) (h : before.length < 0x8000000000000000) :
    decodeAt symbols (before ++ control :: rest) before.length address
      = .ok (decode symbols address control (windowOf control rest)) := by
  unfold decodeAt
  rw [if_neg (by omega)]
  dsimp only
  rw [if_neg (by omega), if_neg (by omega), Int.toNat_natCast,
    List.getElem?_append_right (Nat.le_refl _), Nat.sub_self, List.getElem?_cons_zero]
  dsimp only
  rw [windowAt_append]

/-- A byte string with more bytes than an offset, split there. -/
theorem exists_split {data : List UInt8} {offset : Nat} (h : offset < data.length) :
    ∃ before control rest, data = before ++ control :: rest ∧ before.length = offset := by
  refine ⟨data.take offset, data[offset], data.drop (offset + 1), ?_, ?_⟩
  · rw [← List.drop_eq_getElem_cons h, List.take_append_drop]
  · rw [List.length_take]
    omega

theorem bytes_decodeAt_pos {symbols : SymbolMap} {data : List UInt8} {offset : Nat} {address : Int}
    {e : Entry} (h : offset < data.length)
    (he : decodeAt symbols data offset address = .ok e) : 0 < e.bytes.length := by
  obtain ⟨before, control, rest, rfl, rfl⟩ := exists_split h
  have hsize : before.length < 0x8000000000000000 := by
    unfold decodeAt at he
    split at he
    · cases he
    · omega
  rw [decodeAt_append symbols address control rest hsize] at he
  cases he
  exact bytes_decode_pos symbols address control rest

/-! ## Entries without comments -/

/-- An entry without its comment. -/
def uncommented (e : Entry) : Entry :=
  { e with comment := "" }

theorem uncommented_decode (symbols symbols' : SymbolMap) (address : Int) (control : UInt8)
    (window : Window) :
    (decode symbols address control window).uncommented
      = (decode symbols' address control window).uncommented := by
  unfold decode
  cases Instruction.decode control with
  | error e => rfl
  | ok i =>
      dsimp only
      by_cases hallowed : (!i.allowed) = true
      · rw [if_pos hallowed, if_pos hallowed]
        rfl
      · rw [if_neg hallowed, if_neg hallowed]
        by_cases hlit : i.opcode ≠ .lit
        · rw [if_pos hlit, if_pos hlit]
          rfl
        · rw [if_neg hlit, if_neg hlit]
          cases window i.width.byteCount with
          | none => rfl
          | some shown => rfl

end Entry

section

variable (symbols symbols' : SymbolMap)

/-- **Each entry is what decoding at its offset gives.** -/
theorem decodeAt_of_entries_append {address : Int} {data : List UInt8} {before after : List Entry}
    {e : Entry} (h : entries symbols address data = before ++ e :: after)
    (hsize : data.length ≤ 0x8000000000000000) :
    Entry.decodeAt symbols data (before.flatMap Entry.bytes).length e.address = .ok e := by
  have hdata := flatMap_bytes_entries symbols address data
  rw [h, List.flatMap_append] at hdata
  obtain ⟨control, rest, hrest, he, -⟩ := entries_eq_cons symbols (entries_behind symbols h)
  rw [hrest] at hdata
  have hlen := congrArg List.length hdata
  rw [List.length_append, List.length_cons] at hlen
  rw [← hdata, Entry.decodeAt_append symbols _ control rest (by omega),
    address_of_entries_append h, ← he]

/-- Names change nothing but comments. -/
theorem uncommented_entries (address : Int) (data : List UInt8) :
    (entries symbols address data).map Entry.uncommented
      = (entries symbols' address data).map Entry.uncommented := by
  fun_induction entries symbols address data with
  | case1 => rw [entries]
  | case2 address control rest e ih =>
      have hsame := Entry.uncommented_decode symbols symbols' address control
        (Entry.windowOf control rest)
      have hbytes : e.bytes
          = (Entry.decode symbols' address control (Entry.windowOf control rest)).bytes :=
        (Entry.mk.inj hsame).2.1
      rw [entries, List.map_cons, List.map_cons, ih, hbytes]
      exact congrArg (· :: _) hsame

end

/-! ## The loop over an image -/

/-- As many entries have been found as are asked for. -/
def enough (count : Option Int) (found : Nat) : Bool :=
  match count with
  | some n => n ≤ found
  | none => false

/-- The loop over an image that decodes at one offset after another, until there is no byte left or
enough entries have been found. -/
def decodeLoop (symbols : SymbolMap) (data : List UInt8) (start : Int) (count : Option Int)
    (offset : Nat) (found : List Entry) : Except Entry.OffsetError (List Entry) :=
  if _h : offset < data.length then
    if enough count found.length then .ok found
    else match _he : Entry.decodeAt symbols data offset (start + offset) with
      | .error e => .error e
      | .ok e => decodeLoop symbols data start count (offset + e.bytes.length) (found ++ [e])
  else .ok found
termination_by data.length - offset
decreasing_by
  have := Entry.bytes_decodeAt_pos _h _he
  omega

/-- Of the entries that are left, those that are still asked for. -/
def wanted (count : Option Int) (found : Nat) (rest : List Entry) : List Entry :=
  match count with
  | some n => rest.take (n - found).toNat
  | none => rest

theorem wanted_of_enough {count : Option Int} {found : Nat} (h : enough count found = true)
    (rest : List Entry) : wanted count found rest = [] := by
  cases count with
  | none => cases h
  | some n =>
      have hn : n ≤ found := of_decide_eq_true h
      show rest.take (n - found).toNat = []
      rw [show (n - found).toNat = 0 by omega, List.take_zero]

theorem wanted_cons {count : Option Int} {found : Nat} (h : ¬enough count found = true)
    (e : Entry) (rest : List Entry) :
    wanted count found (e :: rest) = e :: wanted count (found + 1) rest := by
  cases count with
  | none => rfl
  | some n =>
      have hn : ¬n ≤ found := fun hle => h (decide_eq_true hle)
      show (e :: rest).take (n - found).toNat = e :: rest.take (n - (found + 1 : Nat)).toNat
      rw [show (n - found).toNat = (n - (found + 1 : Nat)).toNat + 1 by omega, List.take_succ_cons]

/-- **The loop finds the entries of the bytes that are left**, as many as are asked for. -/
theorem decodeLoop_eq (symbols : SymbolMap) (start : Int) (count : Option Int) {n : Nat} :
    ∀ (rest before : List UInt8) (found : List Entry), rest.length = n →
    (before ++ rest).length ≤ 0x8000000000000000 →
    decodeLoop symbols (before ++ rest) start count before.length found
      = .ok (found ++ wanted count found.length
          (entries symbols (start + before.length) rest)) := by
  -- on the number of bytes that are left: an entry takes one at least
  induction n using Nat.strongRecOn with
  | ind n ih =>
      intro rest before found hn hsize
      unfold decodeLoop
      cases rest with
      | nil =>
          rw [dif_neg (by simp), entries]
          cases count <;> simp [wanted]
      | cons control rest =>
          rw [dif_pos (by simp)]
          by_cases henough : enough count found.length = true
          · rw [if_pos henough, wanted_of_enough henough, List.append_nil]
          rw [if_neg henough]
          have hbefore : before.length < 0x8000000000000000 := by
            rw [List.length_append, List.length_cons] at hsize
            omega
          have hdecode := Entry.decodeAt_append symbols (start + before.length) control rest hbefore
          split
          · next e he => cases hdecode.symm.trans he
          · next e he =>
            cases hdecode.symm.trans he
            generalize hdecoded : Entry.decode symbols (start + before.length) control
              (Entry.windowOf control rest) = e
            have hpos := Entry.bytes_decode_pos symbols (start + before.length) control rest
            obtain ⟨later, hlater⟩ :=
              Entry.decode_takes symbols (start + before.length) control rest
            rw [hdecoded] at hpos hlater
            rw [← hlater] at hsize hn
            have hmore := ih later.length (by rw [← hn, List.length_append]; omega) later
              (before ++ e.bytes) (found ++ [e]) rfl (by rw [List.append_assoc]; exact hsize)
            rw [List.append_assoc, hlater, List.length_append, List.length_append,
              List.length_singleton] at hmore
            rw [hmore, entries, hdecoded, wanted_cons henough, ← hlater, List.drop_left,
              List.append_assoc, Int.natCast_add, Int.add_assoc]
            rfl

/-- **An image is listed by the loop**: it decodes the entries one by one, and stops when there are
enough. -/
theorem decodeLoop_disassemble (symbols : SymbolMap) {data : List UInt8} (start count : Option Int)
    (hsize : data.length ≤ 0x8000000000000000) :
    decodeLoop symbols data (start.getD (placedAddress 0 data.length)) count 0 []
      = .ok (disassemble symbols data start count) := by
  have hloop := decodeLoop_eq symbols (start.getD (placedAddress 0 data.length)) count data [] []
    rfl hsize
  rw [List.nil_append, List.length_nil, Int.natCast_zero, Int.add_zero] at hloop
  rw [hloop, List.nil_append]
  unfold disassemble wanted
  cases count with
  | none => rfl
  | some n => simp

/--
**A listing is a partition of the image.** Whatever the image, the address of its first byte and the
names: the bytes of the entries in a row are the image, each entry has one to five bytes, it lies
where those before it end, and it is what decoding at that offset gives. If no address is chosen,
the last byte lies at the top of memory. A count keeps the first entries as they are: the loop that
decodes entry by entry and stops when there are enough of them finds no other. Other names make no
difference except in comments.
-/
theorem disassemble_partitions_image (symbols : SymbolMap) (data : List UInt8)
    (start : Option Int) :
    (disassemble symbols data start none).flatMap Entry.bytes = data
      ∧ (∀ e ∈ disassemble symbols data start none, 1 ≤ e.bytes.length ∧ e.bytes.length ≤ 5)
      ∧ (∀ before e after, disassemble symbols data start none = before ++ e :: after →
          e.address = start.getD (addressSpace - data.length)
            + (before.flatMap Entry.bytes).length
          ∧ (data.length ≤ 0x8000000000000000 →
              Entry.decodeAt symbols data (before.flatMap Entry.bytes).length e.address = .ok e)
          ∧ (start = none → after = [] → e.address + e.bytes.length = addressSpace))
      ∧ (∀ count, disassemble symbols data start (some count)
          = (disassemble symbols data start none).take (max count 0).toNat)
      ∧ (data.length ≤ 0x8000000000000000 → ∀ count,
          decodeLoop symbols data (start.getD (addressSpace - data.length)) count 0 []
            = .ok (disassemble symbols data start count))
      ∧ ∀ symbols' count, (disassemble symbols' data start count).map Entry.uncommented
          = (disassemble symbols data start count).map Entry.uncommented := by
  have hbytes := flatMap_bytes_entries symbols (start.getD (placedAddress 0 data.length)) data
  refine ⟨hbytes, fun e he => (shows_of_mem_entries symbols _ data e he).length_bounds,
    fun before e after h => ⟨?_, decodeAt_of_entries_append symbols h, fun hstart hlast => ?_⟩,
    disassemble_some symbols data start, fun hsize count => ?_, fun symbols' count => ?_⟩
  · rw [address_of_entries_append h]
    unfold placedAddress
    rw [Int.add_zero]
  · subst hstart hlast
    have hend := address_of_entries_append h
    rw [show entries symbols _ data = _ from h, List.flatMap_append, List.flatMap_cons,
      List.flatMap_nil, List.append_nil] at hbytes
    have hlen := congrArg List.length hbytes
    rw [List.length_append] at hlen
    rw [hend, Option.getD_none, placedAddress]
    omega
  · have hloop := decodeLoop_disassemble symbols start count hsize
    unfold placedAddress at hloop
    rw [Int.add_zero] at hloop
    exact hloop
  · have hall := uncommented_entries symbols' symbols
      (start.getD (placedAddress 0 data.length)) data
    cases count with
    | none => exact hall
    | some n =>
        show ((entries symbols' _ data).take n.toNat).map _ = ((entries symbols _ data).take _).map _
        rw [List.map_take, List.map_take, hall]

/-- A pushed address, a byte that is no instruction, and a push that lacks its payload. -/
def threePieces : List UInt8 :=
  [0x60, 0x00, 0x7f, 0xff, 0xf9, 0x1f, 0x00]

theorem disassemble_partitions_image_threePieces :
    ∃ pushed other truncated,
      disassemble .empty threePieces none none = [pushed, other, truncated]
        ∧ pushed.bytes.length = 5
        ∧ Entry.decodeAt .empty threePieces 5 other.address = .ok other
        ∧ truncated.address + truncated.bytes.length = addressSpace := by
  have hpieces : disassemble .empty threePieces none none
      = [⟨0x7ffff9, [0x60, 0x00, 0x7f, 0xff, 0xf9],
          .code ⟨.lit, false, .four⟩ [0x00, 0x7f, 0xff, 0xf9], ""⟩,
        ⟨0x7ffffe, [0x1f], .data 0x1f .noOpcode, "no such opcode"⟩,
        ⟨0x7fffff, [0x00], .data 0x00 .truncated, "truncated literal"⟩] := by
    decide +kernel
  obtain ⟨-, -, hentry, -⟩ := disassemble_partitions_image .empty threePieces none
  exact ⟨_, _, _, hpieces, rfl,
    (hentry [_] _ [_] hpieces).2.1 (by decide),
    (hentry [_, _] _ [] hpieces).2.2 rfl rfl⟩

end RomKit
