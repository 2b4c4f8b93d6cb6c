import RomKit.Command.BaseAddress
import RomKit.Proofs.Entries

/-!
# Where listed bytes lie

An entry has the address of its first byte, and the next entry starts where its
bytes end (`address_of_entries_append`). So a listing covers the addresses from
its base on, as many as the image has bytes, and it stays in memory if the image
fits there.

An address that the user chooses is checked for that. The address that is taken
without a choice is not: it puts the last byte of the image at the top of memory,
and an image that is larger than memory then starts below zero.
-/

namespace RomKit

namespace Entry

/-- The bytes of an entry lie in memory. -/
def InMemory (e : Entry) : Prop :=
  0 ≤ e.address ∧ e.address + e.bytes.length ≤ addressSpace

theorem address_decode (symbols : SymbolMap) (address : Int) (control : UInt8) (window : Window) :
    (decode symbols address control window).address = address := by
  unfold decode
  split
  · rfl
  · split
    · rfl
    · split
      · rfl
      · split
        · rfl
        · rfl

end Entry

/-! ## Entries lie side by side -/

section

variable {symbols : SymbolMap} {address : Int} {data : List UInt8}

/-- **An entry starts where the entries before it end.** -/
theorem address_of_entries_append {before after : List Entry} {e : Entry}
    (h : entries symbols address data = before ++ e :: after) :
    e.address = address + (before.flatMap Entry.bytes).length := by
  obtain ⟨control, rest, -, he, -⟩ := entries_eq_cons symbols (entries_behind symbols h)
  rw [he, Entry.address_decode]

/-- Entries cover the addresses of the image, and no others. -/
theorem bounds_of_mem_entries {e : Entry} (h : e ∈ entries symbols address data) :
    address ≤ e.address ∧ e.address + e.bytes.length ≤ address + data.length := by
  obtain ⟨before, after, hsplit⟩ := List.append_of_mem h
  have haddress := address_of_entries_append hsplit
  have hbytes := congrArg List.length (flatMap_bytes_entries symbols address data)
  rw [hsplit, List.flatMap_append, List.flatMap_cons, List.length_append,
    List.length_append] at hbytes
  omega

theorem mem_entries_of_mem_disassemble {count : Option Int} {e : Entry}
    (h : e ∈ disassemble symbols data (some address) count) :
    e ∈ entries symbols address data := by
  cases count with
  | none => exact h
  | some n => exact List.mem_of_mem_take h

theorem count_pos_of_mem {start : Option Int} {n : Int} {e : Entry}
    (h : e ∈ disassemble symbols data start (some n)) : 0 < n := by
  by_cases hpos : 0 < n
  · exact hpos
  · have hnone : n.toNat = 0 := by omega
    unfold disassemble at h
    dsimp only at h
    rw [hnone] at h
    cases h

/-- Unless nothing is asked for, an image with bytes has an entry at its start. -/
theorem exists_entry_at_start (symbols : SymbolMap) (address : Int) {count : Option Int}
    (hdata : data ≠ []) (hcount : ∀ n, count = some n → 0 < n) :
    ∃ e ∈ disassemble symbols data (some address) count, e.address = address := by
  obtain ⟨control, rest, rfl⟩ := List.exists_cons_of_ne_nil hdata
  refine ⟨Entry.decode symbols address control (Entry.windowOf control rest), ?_,
    Entry.address_decode _ _ _ _⟩
  have hmem : ∀ k, Entry.decode symbols address control (Entry.windowOf control rest)
      ∈ (entries symbols address (control :: rest)).take (k + 1) := by
    intro k
    rw [entries]
    exact List.mem_cons_self
  cases count with
  | none => exact List.mem_of_mem_take (hmem 0)
  | some n =>
      have hpos := hcount n rfl
      have hn : n.toNat = n.toNat - 1 + 1 := by omega
      show _ ∈ (entries symbols _ _).take n.toNat
      rw [hn]
      exact hmem _

end

/-! ## The base of a listing -/

/-- **An image ends in memory wherever it is placed**, and it starts there too unless it is larger
than memory and no address was chosen for it. -/
theorem BaseAddress.bounds_of_choose {size : Nat} {address : Option RawText} {base : Int}
    (h : choose size address = .ok base) :
    base + size ≤ addressSpace ∧ (0 ≤ base ↔ ¬(address = none ∧ addressSpace < size)) := by
  unfold choose at h
  split at h
  · cases h
    unfold placedAddress
    refine ⟨by omega, ?_⟩
    simp only [true_and]
    omega
  · split at h
    · cases h
    · split at h
      · next hfits =>
        cases h
        refine ⟨by omega, ?_⟩
        simp [hfits.1]
      · cases h

/--
**What is listed lies in memory, with one exception.** For every image, choice of an address, names
and count: either the choice is refused, or every entry of the listing lies in memory. This fails
if and only if the image is larger than memory, no address is chosen for it, and at least one entry
is asked for.
-/
theorem listed_in_memory_iff (data : List UInt8) (address : Option RawText) (symbols : SymbolMap)
    (count : Option Int) :
    ((∃ error, BaseAddress.choose data.length address = .error error)
        ∨ ∃ base, BaseAddress.choose data.length address = .ok base
          ∧ ∀ e ∈ disassemble symbols data (some base) count, e.InMemory)
      ↔ ¬(address = none ∧ addressSpace < data.length ∧ ∀ n, count = some n → 0 < n) := by
  cases hbase : BaseAddress.choose data.length address with
  | error error =>
      refine ⟨fun _ hlarge => ?_, fun _ => Or.inl ⟨error, rfl⟩⟩
      rw [hlarge.1] at hbase
      cases hbase
  | ok base =>
      obtain ⟨hend, hstart⟩ := BaseAddress.bounds_of_choose hbase
      constructor
      · intro hlisted hlarge
        obtain ⟨error, herror⟩ | ⟨base', hbase', hinside⟩ := hlisted
        · cases herror
        · cases hbase'
          have hdata : data ≠ [] := by
            rintro rfl
            exact absurd hlarge.2.1 (Nat.not_lt_zero _)
          obtain ⟨e, he, haddress⟩ := exists_entry_at_start symbols base hdata hlarge.2.2
          have hlow := (hinside e he).1
          rw [haddress] at hlow
          exact hstart.mp hlow ⟨hlarge.1, hlarge.2.1⟩
      · intro hfits
        refine Or.inr ⟨base, rfl, fun e he => ?_⟩
        have hbounds := bounds_of_mem_entries (mem_entries_of_mem_disassemble he)
        have hlow : 0 ≤ base := by
          refine hstart.mpr fun hlarge => hfits ⟨hlarge.1, hlarge.2, fun n hn => ?_⟩
          -- there is an entry, so one was asked for
          subst hn
          exact count_pos_of_mem he
        exact ⟨by omega, by omega⟩

/-- An image with one byte more than memory is listed from the address below zero on. -/
theorem listed_below_zero :
    BaseAddress.choose (List.replicate (addressSpace + 1) (0x03 : UInt8)).length none = .ok (-1)
      ∧ ∃ e ∈ disassemble .empty (List.replicate (addressSpace + 1) 0x03) (some (-1)) none,
          e.address = -1 ∧ ¬e.InMemory := by
  constructor
  · rw [List.length_replicate]
    rfl
  · have hdata : List.replicate (addressSpace + 1) (0x03 : UInt8) ≠ [] := by
      rw [List.replicate_succ]
      exact List.cons_ne_nil _ _
    have hcount : ∀ n : Int, none = some n → 0 < n := fun n hn => nomatch hn
    obtain ⟨e, he, haddress⟩ := exists_entry_at_start .empty (-1) hdata hcount
    refine ⟨e, he, haddress, fun hinside => ?_⟩
    have hlow := hinside.1
    omega

end RomKit
