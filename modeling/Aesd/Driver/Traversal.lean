import Aesd.Lib.Concat
import Aesd.Driver.Fifo

/-!
# The three traversals of the circular buffer

The loops of `aesd_circular_buffer_find_entry_offset_for_fpos`,
`aesd_circular_buffer_find_EOF_offset` and `aesd_circular_buffer_find_absolute_offset`, on a buffer
that stores the entries `l`: with `sizes` the sizes of `l`, they are `locate sizes`, `sizes.sum` and
the prefix sum at a valid pair.
-/

namespace Aesd.Driver.Traversal

open Aesd.Lib.Circular Aesd.Lib.Concat
open Aesd.Driver.Ring Aesd.Driver.Ring.CircularBuffer Aesd.Driver.Fifo

/-- The entry found has a byte at the offset found. -/
theorem findEntryLoop_lt {buffer : CircularBuffer} :
    ∀ {n index charOffset slot c : ℕ}, buffer.findEntryLoop n index charOffset = some (slot, c) →
      c < (buffer.deref slot).size
  | 0, _, _, _, _, h => by simp [findEntryLoop] at h
  | n + 1, index, charOffset, slot, c, h => by
    unfold findEntryLoop at h
    rcases hg : buffer.getEntryByOffset index with _ | current <;> rw [hg] at h
    · simp at h
    · simp only at h
      split_ifs at h with hnull hlt
      · simp only [Option.some.injEq, Prod.mk.injEq] at h
        obtain ⟨rfl, rfl⟩ := h
        exact hlt
      · exact findEntryLoop_lt h

theorem findEntryOffsetForFpos_lt {buffer : CircularBuffer} {charOffset slot c : ℕ}
    (h : buffer.findEntryOffsetForFpos charOffset = some (slot, c)) :
    c < (buffer.deref slot).size := findEntryLoop_lt h

theorem drop_sizes {l : List BufferEntry} {i : ℕ} (hi : i < l.length) :
    (l.map BufferEntry.size).drop i = l[i].size :: (l.map BufferEntry.size).drop (i + 1) := by
  rw [List.drop_eq_getElem_cons (by simpa using hi), List.getElem_map]

section Holds
variable {buffer : CircularBuffer} {l : List BufferEntry} (h : Holds buffer l)
include h

/-- Past the stored entries the traversals meet a null pointer, if they meet a slot at all. -/
theorem null_of_getEntryByOffset {index slot : ℕ} (hi : l.length ≤ index)
    (hg : buffer.getEntryByOffset index = some slot) : (buffer.deref slot).buffptr = none := by
  unfold getEntryByOffset at hg
  split_ifs at hg with hlt
  rw [← Option.some.inj hg]
  exact h.stale index hi hlt

theorem findEntryLoop_eq : ∀ {n index charOffset : ℕ}, index + n = maxWriteOperationsSupported →
    buffer.findEntryLoop n index charOffset =
      (locateFrom index ((l.map BufferEntry.size).drop index) charOffset).map fun kc =>
        ((buffer.outOffs + kc.1) % maxWriteOperationsSupported, kc.2)
  | 0, index, charOffset, hn => by
    have hle := h.length_le
    rw [List.drop_of_length_le (by simp; omega)]
    rfl
  | n + 1, index, charOffset, hn => by
    unfold findEntryLoop
    rcases Nat.lt_or_ge index l.length with hi | hi
    · have hnull : l[index].buffptr ≠ none := h.nonnull _ (List.getElem_mem hi)
      simp only [h.getEntryByOffset_of_lt hi, h.deref_slot hi, if_neg hnull, drop_sizes hi,
        locateFrom]
      split_ifs
      · rfl
      · exact findEntryLoop_eq (by omega)
    · rw [List.drop_of_length_le (by simpa using hi)]
      rcases hg : buffer.getEntryByOffset index with _ | current
      · rfl
      · simp [null_of_getEntryByOffset h hi hg, locateFrom]

/-- **The lookup of a position** is the lookup in the sizes of the stored entries. -/
theorem findEntryOffsetForFpos_eq (p : ℕ) :
    buffer.findEntryOffsetForFpos p = (locate (l.map BufferEntry.size) p).map fun kc =>
      ((buffer.outOffs + kc.1) % maxWriteOperationsSupported, kc.2) :=
  findEntryLoop_eq h (Nat.zero_add _)

theorem findEOFLoop_eq : ∀ {n index eofOffset : ℕ}, index + n = maxWriteOperationsSupported →
    buffer.findEOFLoop n index eofOffset = eofOffset + ((l.map BufferEntry.size).drop index).sum
  | 0, index, eofOffset, hn => by
    have hle := h.length_le
    rw [List.drop_of_length_le (by simp; omega)]
    rfl
  | n + 1, index, eofOffset, hn => by
    unfold findEOFLoop
    rcases Nat.lt_or_ge index l.length with hi | hi
    · have hnull : l[index].buffptr ≠ none := h.nonnull _ (List.getElem_mem hi)
      simp only [h.getEntryByOffset_of_lt hi, h.deref_slot hi, if_neg hnull, drop_sizes hi,
        List.sum_cons]
      rw [findEOFLoop_eq (by omega), Nat.add_assoc]
    · rw [List.drop_of_length_le (by simpa using hi)]
      rcases hg : buffer.getEntryByOffset index with _ | current
      · rfl
      · simp [null_of_getEntryByOffset h hi hg]

/-- **The end offset** is the total size of the stored entries. -/
theorem findEOFOffset_eq : buffer.findEOFOffset = (l.map BufferEntry.size).sum := by
  unfold findEOFOffset
  rw [findEOFLoop_eq h (Nat.zero_add _)]
  simp

theorem sizesBefore_eq : ∀ {n index : ℕ} {absoluteOffset : ℤ}, index + n ≤ l.length →
    buffer.sizesBefore n index absoluteOffset =
      absoluteOffset + (((l.map BufferEntry.size).drop index).take n).sum
  | 0, index, absoluteOffset, hn => by simp [sizesBefore]
  | n + 1, index, absoluteOffset, hn => by
    have hi : index < l.length := by omega
    unfold sizesBefore
    simp only [h.getEntryByOffset_of_lt hi, h.deref_slot hi, drop_sizes hi, List.take_succ_cons,
      List.sum_cons]
    rw [sizesBefore_eq (by omega)]
    push_cast
    ring

/-- **The position of a byte of an entry**: a prefix sum, or `-1` if there is no such byte. -/
theorem findAbsoluteOffset_eq (k c : ℕ) :
    buffer.findAbsoluteOffset k c =
      if ∃ e, l[k]? = some e ∧ c < e.size then
        (((l.map BufferEntry.size).take k).sum + c : ℤ) else -1 := by
  unfold findAbsoluteOffset
  rcases Nat.lt_or_ge k l.length with hk | hk
  · have hnull : l[k].buffptr ≠ none := h.nonnull _ (List.getElem_mem hk)
    simp only [h.getEntryByOffset_of_lt hk, h.deref_slot hk, hnull, false_or,
      List.getElem?_eq_getElem hk, Option.some.injEq, exists_eq_left']
    split_ifs with h1 h2 h2
    · omega
    · rfl
    · rw [sizesBefore_eq h (by omega), List.drop_zero]
      push_cast
      ring
    · omega
  · rw [if_neg (by rw [List.getElem?_eq_none hk]; simp)]
    rcases hg : buffer.getEntryByOffset k with _ | current
    · rfl
    · simp [null_of_getEntryByOffset h hk hg]

end Holds

end Aesd.Driver.Traversal
