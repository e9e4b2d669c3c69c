import Aesd.Driver.Write

/-!
# The memory of the device, from loading to unloading

`aesd_cleanup_module` frees what the ten slots of the array point to and then what `temp_entry` points
to, without looking at which slots are in use. That is right because of what the device owns: the
pointers in the slots are those of the stored entries (`slots_perm`), so the slots and `temp_entry` hold
the live allocations, each of them once (`OwnsMemory`). Every run of writes keeps this, and unloading
the module after it frees every allocation (`writes_cleanup`).
-/

namespace Aesd.Driver.Cleanup

open Aesd.Lib.Alloc Aesd.Lib.Alloc.Heap
open Aesd.Driver.Ring Aesd.Driver.Ring.CircularBuffer Aesd.Driver.Fifo Aesd.Driver.Device
open Aesd.Driver.Store Aesd.Driver.Write

/-- `entry->buffptr = NULL` -/
def clearBuffptr (buffer : CircularBuffer) (slot : ℕ) : CircularBuffer :=
  { buffer with
    entry := buffer.entry.set slot { buffer.deref slot with buffptr := none }
    entry_length := by rw [List.length_set, buffer.entry_length] }

/-- The loop of `aesd_circular_buffer_cleanup`, from `index` on with `n` rounds left. -/
def cleanupLoop : ℕ → ℕ → Heap UInt8 → CircularBuffer → Option (Heap UInt8 × CircularBuffer)
  | 0, _, heap, buffer => some (heap, buffer)
  | n + 1, index, heap, buffer => do
    let heap ← heap.free (buffer.deref index).buffptr
    cleanupLoop n (index + 1) heap (clearBuffptr buffer index)

/-- `aesd_circular_buffer_cleanup` -/
def circularBufferCleanup (heap : Heap UInt8) (buffer : CircularBuffer) :
    Option (Heap UInt8 × CircularBuffer) :=
  cleanupLoop maxWriteOperationsSupported 0 heap buffer

/-- `aesd_cleanup_module`; `temp_entry` keeps its pointer. -/
def cleanupModule (d : AesdDev) : Option AesdDev := do
  let (heap, buffer) ← circularBufferCleanup d.heap d.buffer
  let heap ← heap.free d.tempEntry.buffptr
  some { d with heap, buffer }

/-- The ten slots of the array, and `temp_entry`. -/
def holders (d : AesdDev) : List BufferEntry := d.buffer.entry ++ [d.tempEntry]

/-- **The slots and `temp_entry` own the memory.** -/
structure OwnsMemory (d : AesdDev) : Prop where
  /-- The live allocations are the pointers held. -/
  live : ∀ p, d.heap.block p ≠ none ↔ p ∈ (holders d).filterMap BufferEntry.buffptr
  distinct : ((holders d).filterMap BufferEntry.buffptr).Nodup
  sized : ∀ e ∈ holders d, ∀ p b, e.buffptr = some p → d.heap.block p = some b →
    e.size ≤ b.length
  temp_null : d.tempEntry.buffptr = none → d.tempEntry.size = 0

/-! ### The slots -/

section Holds
variable {buffer : CircularBuffer} {l : List BufferEntry} (h : Holds buffer l)
include h

/-- The array, read from the oldest slot on: the stored entries, then slots without a pointer. -/
theorem rotate_entry :
    ∃ stale, buffer.entry.rotate buffer.outOffs = l ++ stale ∧ ∀ e ∈ stale, e.buffptr = none := by
  have hle := h.length_le
  have hlen := buffer.entry_length
  have hslot : ∀ i (hi : i < (buffer.entry.rotate buffer.outOffs).length),
      (buffer.entry.rotate buffer.outOffs)[i] =
        buffer.deref ((buffer.outOffs + i) % maxWriteOperationsSupported) := by
    intro i hi
    have hget := @getElem?_entry buffer _
      (Nat.mod_lt (buffer.outOffs + i) (by decide : 0 < maxWriteOperationsSupported))
    rw [List.getElem_rotate, ← Option.some.injEq, ← List.getElem?_eq_getElem, ← hget, hlen,
      Nat.add_comm]
  refine ⟨(buffer.entry.rotate buffer.outOffs).drop l.length, ?_, fun e he => ?_⟩
  · have htake : (buffer.entry.rotate buffer.outOffs).take l.length = l := by
      refine List.ext_getElem (by simp [hlen, hle]) fun i hi hil => ?_
      rw [List.getElem_take, hslot, h.deref_slot hil]
    conv_lhs => rw [← List.take_append_drop l.length (buffer.entry.rotate buffer.outOffs), htake]
  · obtain ⟨i, hi, rfl⟩ := List.getElem_of_mem he
    rw [List.length_drop, List.length_rotate, hlen] at hi
    rw [List.getElem_drop, hslot]
    exact h.stale _ (by omega) (by omega)

/-- **The pointers in the slots** are those of the stored entries. -/
theorem slots_perm :
    (buffer.entry.filterMap BufferEntry.buffptr).Perm (l.filterMap BufferEntry.buffptr) := by
  obtain ⟨stale, hrot, hstale⟩ := rotate_entry h
  have hnil : stale.filterMap BufferEntry.buffptr = [] :=
    List.filterMap_eq_nil_iff.mpr hstale
  have hperm := (List.rotate_perm buffer.entry buffer.outOffs).filterMap BufferEntry.buffptr
  rw [hrot, List.filterMap_append, hnil, List.append_nil] at hperm
  exact hperm.symm

theorem mem_slot {e : BufferEntry} (he : e ∈ buffer.entry) {p : ℕ} (hp : e.buffptr = some p) :
    e ∈ l := by
  obtain ⟨stale, hrot, hstale⟩ := rotate_entry h
  have hmem := List.mem_rotate (n := buffer.outOffs) |>.mpr he
  rw [hrot, List.mem_append] at hmem
  rcases hmem with hmem | hmem
  · exact hmem
  · rw [hstale e hmem] at hp
    cases hp

end Holds

theorem holders_perm {d : AesdDev} (h : Owned d) :
    ((holders d).filterMap BufferEntry.buffptr).Perm (owners (stored d.buffer) d.tempEntry) := by
  have htemp : [d.tempEntry].filterMap BufferEntry.buffptr = d.tempEntry.buffptr.toList := by
    rcases hp : d.tempEntry.buffptr with _ | p <;> simp [hp]
  unfold holders owners
  rw [List.filterMap_append, htemp]
  exact (slots_perm h.holds).append_right _

theorem ownsMemory_of_owned {d : AesdDev} (h : Owned d) : OwnsMemory d := by
  have hperm := holders_perm h
  refine ⟨fun p => ?_, hperm.nodup_iff.mpr h.nodup, fun e he p b hp hb => ?_, h.temp_null⟩
  · rw [h.live, hperm.mem_iff]
  · unfold holders at he
    rw [List.mem_append, List.mem_singleton] at he
    refine h.sized e ?_ p b hp hb
    rcases he with he | rfl
    · exact List.mem_cons_of_mem _ (mem_slot h.holds he hp)
    · exact List.mem_cons_self

/-! ### Unloading the module -/

theorem deref_clearBuffptr (buffer : CircularBuffer) {slot : ℕ} (j : ℕ)
    (h : slot < maxWriteOperationsSupported) :
    (clearBuffptr buffer slot).deref j =
      if j = slot then { buffer.deref slot with buffptr := none } else buffer.deref j :=
  deref_set buffer j _ h

/-- The loop frees the pointers of the slots from `index` on, and leaves `NULL` there. -/
theorem cleanupLoop_ok {n index : ℕ} (hn : index + n = maxWriteOperationsSupported)
    {heap heap' : Heap UInt8} {buffer : CircularBuffer}
    (hfree : heap.freeAll ((buffer.entry.drop index).map BufferEntry.buffptr) = some heap') :
    ∃ buffer' : CircularBuffer, cleanupLoop n index heap buffer = some (heap', buffer') ∧
      ∀ j < maxWriteOperationsSupported, (buffer'.deref j).buffptr =
        if j < index then (buffer.deref j).buffptr else none := by
  induction n generalizing index heap buffer with
  | zero =>
    have hnil : buffer.entry.drop index = [] :=
      List.drop_eq_nil_of_le (by rw [buffer.entry_length]; omega)
    rw [hnil] at hfree
    obtain rfl : heap = heap' := Option.some.inj hfree
    exact ⟨buffer, rfl, fun j hj => by rw [if_pos (by omega)]⟩
  | succ n ih =>
    have hi : index < maxWriteOperationsSupported := by omega
    have hi' : index < buffer.entry.length := by rw [buffer.entry_length]; exact hi
    have hget : buffer.entry[index] = buffer.deref index := by
      rw [← Option.some.injEq, ← List.getElem?_eq_getElem hi', getElem?_entry hi]
    have hrest : (clearBuffptr buffer index).entry.drop (index + 1) =
        buffer.entry.drop (index + 1) := List.drop_set_of_lt (by omega)
    rw [List.drop_eq_getElem_cons hi', hget, List.map_cons, Heap.freeAll,
      Option.bind_eq_some_iff] at hfree
    obtain ⟨heap₁, hone, hfree⟩ := hfree
    rw [← hrest] at hfree
    obtain ⟨buffer', hloop, hnull⟩ := ih (by omega) hfree
    refine ⟨buffer', ?_, fun j hj => ?_⟩
    · unfold cleanupLoop
      rw [hone]
      exact hloop
    · rw [hnull j hj, deref_clearBuffptr buffer j hi]
      by_cases hji : j = index
      · rw [if_pos (by omega), if_pos hji, if_neg (by omega)]
      · rw [if_neg hji]
        by_cases hlt : j < index
        · rw [if_pos (by omega), if_pos hlt]
        · rw [if_neg (by omega), if_neg hlt]

/-- **Unloading the module** frees each allocation once; no slot points anywhere afterwards. -/
theorem cleanupModule_ok {d : AesdDev} (h : OwnsMemory d) :
    ∃ d', cleanupModule d = some d' ∧ (∀ p, d'.heap.block p = none) ∧
      ∀ j < maxWriteOperationsSupported, (d'.buffer.deref j).buffptr = none := by
  have hptrs : (holders d).filterMap BufferEntry.buffptr =
      ((holders d).map BufferEntry.buffptr).reduceOption := by
    rw [List.reduceOption, List.filterMap_map]
    rfl
  have hnd := h.distinct
  rw [hptrs] at hnd
  obtain ⟨heap, hall, hframe⟩ := freeAll_ok hnd fun i hi => (h.live i).mpr (hptrs ▸ hi)
  unfold holders at hall
  rw [List.map_append, freeAll_append, Option.bind_eq_some_iff] at hall
  obtain ⟨heap₁, hslots, htemp⟩ := hall
  obtain ⟨buffer, hloop, hnull⟩ :=
    @cleanupLoop_ok maxWriteOperationsSupported 0 (Nat.zero_add _) _ _ _ hslots
  have hone : heap₁.free d.tempEntry.buffptr = some heap := by
    simpa [Heap.freeAll] using htemp
  refine ⟨{ d with heap, buffer }, ?_, fun p => ?_, fun j hj => ?_⟩
  · simp [cleanupModule, circularBufferCleanup, hloop, hone]
  · show heap.block p = none
    rw [hframe, ← hptrs]
    split_ifs with hp
    · rfl
    · exact not_not.mp fun hn => hp ((h.live p).mp hn)
  · rw [hnull j hj, if_neg (Nat.not_lt_zero j)]

/-! ### The life of the device -/

/-- **The device owns its memory from loading to unloading.** Every run of `aesd_write` calls, whatever
the allocator, the user copies and the locks do, comes to its end without undefined behaviour; then the
slots and `temp_entry` own the live allocations, and unloading the module frees them all. -/
theorem writes_cleanup (calls : List (Bytes × WriteEnv)) :
    ∃ rets d, writes initModule calls = some (rets, d) ∧ OwnsMemory d ∧
      ∃ d', cleanupModule d = some d' ∧ ∀ p, d'.heap.block p = none := by
  obtain ⟨d, hw, hown, -⟩ := writes_refines inv_initModule calls
  obtain ⟨d', hc, hnone, -⟩ := cleanupModule_ok (ownsMemory_of_owned hown)
  exact ⟨_, d, hw, ownsMemory_of_owned hown, d', hc, hnone⟩

end Aesd.Driver.Cleanup
