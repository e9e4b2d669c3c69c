import Aesd.Driver.Device

/-!
# What the device stores

The purpose of the device, without memory: a `LineStore` is the last ten complete lines and the
bytes of the line under construction. A device that owns its memory (`Owned`: the pointers of the
stored entries and of `temp_entry` are distinct and are exactly the live allocations, each with room
for its size) shows the line store `view d`, and `aesd_write` does on it what `LineStore.write`
says, for every choice of the kernel (`aesdWrite_refines`); in particular it never runs into
undefined behaviour.
-/

namespace Aesd.Driver.Store

open Aesd.Lib.Alloc Aesd.Lib.Circular
open Aesd.Driver.Ring Aesd.Driver.Ring.CircularBuffer Aesd.Driver.Fifo Aesd.Driver.Device

/-- The complete lines, oldest first, and the line under construction. -/
@[ext] structure LineStore where
  entries : List Bytes
  pending : Bytes
  deriving DecidableEq

/-- The store of a device just loaded. -/
def LineStore.empty : LineStore := ⟨[], []⟩

/-- The bytes are taken: they complete the pending line if they end with a newline. -/
def LineStore.accept (s : LineStore) (buf : Bytes) : LineStore :=
  if buf.getLast? = some newline then
    ⟨(s.entries ++ [s.pending ++ buf]).rtake maxWriteOperationsSupported, []⟩
  else ⟨s.entries, s.pending ++ buf⟩

/-- What a write does to the store. A failed allocation loses the pending line; a write killed
while it waits for the buffer leaves its bytes behind. -/
def LineStore.write (s : LineStore) (buf : Bytes) (env : WriteEnv) : ℤ × LineStore :=
  if buf.length = 0 then (0, s)
  else if env.mutexKilled then (-eintr, s)
  else if env.alloc.isOk = false then (-enomem, { s with pending := [] })
  else if env.copy.isSome then (-efault, s)
  else if buf.getLast? = some newline ∧ env.semKilled then
    (-eintr, { s with pending := s.pending ++ buf })
  else (buf.length, s.accept buf)

/-! ### The store a device shows -/

/-- The entries stored, oldest first: those found by offset before the first `NULL`. -/
def stored (buffer : CircularBuffer) : List BufferEntry :=
  ((List.range maxWriteOperationsSupported).map fun i =>
    buffer.deref ((buffer.outOffs + i) % maxWriteOperationsSupported)).takeWhile
      fun e => e.buffptr.isSome

/-- The first `size` bytes of an entry's memory. -/
def bytesOf (heap : Heap UInt8) (e : BufferEntry) : Bytes :=
  ((e.buffptr.bind heap.block).getD []).take e.size

/-- The store a device shows. -/
def view (d : AesdDev) : LineStore :=
  ⟨(stored d.buffer).map (bytesOf d.heap), bytesOf d.heap d.tempEntry⟩

/-- The allocations the device points to. -/
def owners (l : List BufferEntry) (temp : BufferEntry) : List ℕ :=
  l.filterMap BufferEntry.buffptr ++ temp.buffptr.toList

/-- **The device owns its memory.** -/
structure Owned (d : AesdDev) : Prop where
  holds : Holds d.buffer (stored d.buffer)
  nodup : (owners (stored d.buffer) d.tempEntry).Nodup
  live : ∀ p, d.heap.block p ≠ none ↔ p ∈ owners (stored d.buffer) d.tempEntry
  sized : ∀ e ∈ d.tempEntry :: stored d.buffer, ∀ p b, e.buffptr = some p →
    d.heap.block p = some b → e.size ≤ b.length
  temp_null : d.tempEntry.buffptr = none → d.tempEntry.size = 0

theorem stored_eq {buffer : CircularBuffer} {l : List BufferEntry} (h : Holds buffer l) :
    stored buffer = l := by
  have hle := h.length_le
  have hsplit : maxWriteOperationsSupported =
      l.length + (maxWriteOperationsSupported - l.length) := by omega
  have hl : ((List.range l.length).map fun i =>
      buffer.deref ((buffer.outOffs + i) % maxWriteOperationsSupported)) = l := by
    refine List.ext_getElem (by simp) fun i _ hi => ?_
    rw [List.getElem_map, List.getElem_range, h.deref_slot hi]
  have hall : ∀ e ∈ l, e.buffptr.isSome = true := fun e he =>
    Option.isSome_iff_ne_none.mpr (h.nonnull e he)
  unfold stored
  rw [congrArg List.range hsplit, List.range_add, List.map_append, hl,
    List.takeWhile_append_of_pos hall]
  rcases hk : maxWriteOperationsSupported - l.length with _ | k
  · simp
  · have hst := h.stale l.length le_rfl (by omega)
    rw [List.range_succ_eq_map]
    simp [hst]

/-! ### Owners and frames -/

/-- The bytes of an entry whose memory did not change. -/
theorem bytesOf_congr {heap heap' : Heap UInt8} {e : BufferEntry}
    (h : ∀ p, e.buffptr = some p → heap'.block p = heap.block p) :
    bytesOf heap' e = bytesOf heap e := by
  unfold bytesOf
  rcases hp : e.buffptr with _ | p
  · rfl
  · simp [h p hp]

theorem mem_ptrs {l : List BufferEntry} {e : BufferEntry} {p : ℕ} (he : e ∈ l)
    (hp : e.buffptr = some p) : p ∈ l.filterMap BufferEntry.buffptr :=
  List.mem_filterMap.mpr ⟨e, he, hp⟩

theorem map_bytesOf_congr {heap heap' : Heap UInt8} {l : List BufferEntry}
    (h : ∀ p ∈ l.filterMap BufferEntry.buffptr, heap'.block p = heap.block p) :
    l.map (bytesOf heap') = l.map (bytesOf heap) :=
  List.map_congr_left fun _ he => bytesOf_congr fun p hp => h p (mem_ptrs he hp)

theorem owners_some (l : List BufferEntry) (q n : ℕ) :
    owners l ⟨some q, n⟩ = l.filterMap BufferEntry.buffptr ++ [q] := rfl

theorem owners_null (l : List BufferEntry) :
    owners l BufferEntry.null = l.filterMap BufferEntry.buffptr := by
  simp [owners, BufferEntry.null]

section Owned
variable {d : AesdDev} (h : Owned d)
include h

/-- The stored entries do not share memory with `temp_entry`. -/
theorem Owned.temp_notMem {p : ℕ} (hp : d.tempEntry.buffptr = some p) :
    p ∉ (stored d.buffer).filterMap BufferEntry.buffptr := by
  intro hm
  have hnd := h.nodup
  unfold owners at hnd
  rw [hp] at hnd
  exact (List.nodup_append.mp hnd).2.2 p hm p (by simp) rfl

theorem Owned.live_block {p : ℕ} (hp : p ∈ owners (stored d.buffer) d.tempEntry) :
    ∃ b, d.heap.block p = some b :=
  Option.ne_none_iff_exists'.mp ((h.live p).mpr hp)

theorem Owned.temp_block {p : ℕ} (hp : d.tempEntry.buffptr = some p) :
    ∃ b, d.heap.block p = some b ∧ d.tempEntry.size ≤ b.length := by
  obtain ⟨b, hb⟩ := h.live_block (p := p) (by simp [owners, hp])
  exact ⟨b, hb, h.sized _ (by simp) p b hp hb⟩

theorem Owned.length_bytesOf {e : BufferEntry} (he : e ∈ d.tempEntry :: stored d.buffer) :
    (bytesOf d.heap e).length = e.size := by
  unfold bytesOf
  rcases hp : e.buffptr with _ | p
  · rcases List.mem_cons.mp he with rfl | he
    · simp [h.temp_null hp]
    · exact absurd hp (h.holds.nonnull e he)
  · have hown : p ∈ owners (stored d.buffer) d.tempEntry := by
      rcases List.mem_cons.mp he with rfl | he
      · simp [owners, hp]
      · exact List.mem_append_left _ (mem_ptrs he hp)
    obtain ⟨b, hb⟩ := h.live_block hown
    simpa [hb] using h.sized e he p b hp hb

/-- The sizes the traversals see are the lengths of the lines. -/
theorem Owned.map_size :
    (stored d.buffer).map BufferEntry.size = (view d).entries.map List.length := by
  simp only [view, List.map_map]
  exact List.map_congr_left fun e he => (h.length_bytesOf (List.mem_cons_of_mem _ he)).symm

theorem Owned.block_eq {p : ℕ} (hp : d.tempEntry.buffptr ≠ some p) :
    d.heap.block p =
      if p ∈ (stored d.buffer).filterMap BufferEntry.buffptr then d.heap.block p else none := by
  split_ifs with hm
  · rfl
  · by_contra hn
    have hown := (h.live p).mp hn
    simp only [owners, List.mem_append, Option.mem_toList] at hown
    exact hown.elim hm hp

/-- **A new `temp_entry`**: its memory is at an id no stored entry uses, and it is the only
allocation besides theirs. -/
theorem Owned.of_temp {heap : Heap UInt8} {q : ℕ} (size : ℕ) {b : Bytes}
    (hq : q ∉ (stored d.buffer).filterMap BufferEntry.buffptr) (hb : heap.block q = some b)
    (hsize : size ≤ b.length)
    (hframe : ∀ p, p ≠ q → heap.block p =
      if p ∈ (stored d.buffer).filterMap BufferEntry.buffptr then d.heap.block p else none) :
    Owned { d with heap, tempEntry := ⟨some q, size⟩ } ∧
      view { d with heap, tempEntry := ⟨some q, size⟩ } = ⟨(view d).entries, b.take size⟩ := by
  have hst : ∀ p ∈ (stored d.buffer).filterMap BufferEntry.buffptr,
      heap.block p = d.heap.block p := by
    intro p hp
    rw [hframe p (fun he => hq (he ▸ hp)), if_pos hp]
  have hnd : ((stored d.buffer).filterMap BufferEntry.buffptr).Nodup :=
    (List.nodup_append.mp h.nodup).1
  refine ⟨⟨h.holds, ?_, fun p => ?_, ?_, fun hn => by cases hn⟩, ?_⟩
  · rw [owners_some]
    exact List.nodup_append.mpr ⟨hnd, by simp, fun a ha c hc => by
      rw [List.mem_singleton.mp hc]; rintro rfl; exact hq ha⟩
  · rw [owners_some, List.mem_append, List.mem_singleton]
    by_cases hpq : p = q
    · simp [hpq, hb]
    · rw [hframe p hpq]
      split_ifs with hm
      · have hl := (h.live p).mpr (List.mem_append_left _ hm)
        simp [hm, hl]
      · simp [hm, hpq]
  · intro e he p b' hp hb'
    rcases List.mem_cons.mp he with rfl | he
    · simp only [Option.some.injEq] at hp
      subst hp
      rw [hb, Option.some.injEq] at hb'
      exact hb' ▸ hsize
    · exact h.sized e (List.mem_cons_of_mem _ he) p b' hp (hst p (mem_ptrs he hp) ▸ hb')
  · simp only [view, map_bytesOf_congr hst]
    simp [bytesOf, hb]

/-- **No `temp_entry`**: only the memory of the stored entries is live. -/
theorem Owned.of_null {heap : Heap UInt8}
    (hframe : ∀ p, heap.block p =
      if p ∈ (stored d.buffer).filterMap BufferEntry.buffptr then d.heap.block p else none) :
    Owned { d with heap, tempEntry := BufferEntry.null } ∧
      view { d with heap, tempEntry := BufferEntry.null } = ⟨(view d).entries, []⟩ := by
  have hst : ∀ p ∈ (stored d.buffer).filterMap BufferEntry.buffptr,
      heap.block p = d.heap.block p := fun p hp => by rw [hframe p, if_pos hp]
  refine ⟨⟨h.holds, ?_, fun p => ?_, ?_, fun _ => rfl⟩, ?_⟩
  · rw [owners_null]; exact (List.nodup_append.mp h.nodup).1
  · rw [owners_null, hframe p]
    split_ifs with hm
    · have hl := (h.live p).mpr (List.mem_append_left _ hm)
      simp [hm, hl]
    · simp [hm]
  · intro e he p b' hp hb'
    rcases List.mem_cons.mp he with rfl | he
    · cases hp
    · exact h.sized e (List.mem_cons_of_mem _ he) p b' hp (hst p (mem_ptrs he hp) ▸ hb')
  · simp only [view, map_bytesOf_congr hst]
    simp [bytesOf, BufferEntry.null]

end Owned

end Aesd.Driver.Store
