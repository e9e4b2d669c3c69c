import Aesd.Driver.Ring

/-!
# The circular buffer is a bounded FIFO

`Holds buffer l` says that the buffer stores the entries `l`, oldest first: they are the circular
window from `out_offs` on, `in_offs` is the slot after it, `full` tells a full window from an empty
one, and the slots outside the window are `NULL`. Adding an entry keeps the last ten
(`holds_addEntry`) and returns the pointer of the entry that fell out (`addEntry_fst`).
-/

namespace Aesd.Driver.Fifo

open Aesd.Lib.Circular Aesd.Driver.Ring Aesd.Driver.Ring.CircularBuffer

/-- The buffer stores the entries `l`, oldest first. -/
structure Holds (buffer : CircularBuffer) (l : List BufferEntry) : Prop where
  outOffs_lt : buffer.outOffs < maxWriteOperationsSupported
  window : Window buffer.entry buffer.outOffs l
  inOffs_eq : buffer.inOffs = (buffer.outOffs + l.length) % maxWriteOperationsSupported
  full_iff : buffer.full = true ↔ l.length = maxWriteOperationsSupported
  stale : ∀ i, l.length ≤ i → i < maxWriteOperationsSupported →
    (buffer.deref ((buffer.outOffs + i) % maxWriteOperationsSupported)).buffptr = none
  nonnull : ∀ e ∈ l, e.buffptr ≠ none

theorem holds_init : Holds init [] where
  outOffs_lt := by decide
  window := Window.nil _ _
  inOffs_eq := rfl
  full_iff := by decide
  stale := by decide
  nonnull := by simp

theorem getElem?_entry {buffer : CircularBuffer} {slot : ℕ}
    (h : slot < maxWriteOperationsSupported) :
    buffer.entry[slot]? = some (buffer.deref slot) := by
  have hlt : slot < buffer.entry.length := by rw [buffer.entry_length]; exact h
  unfold deref
  rw [List.getD_eq_getElem?_getD, List.getElem?_eq_getElem hlt]
  rfl

theorem deref_set (buffer : CircularBuffer) {slot : ℕ} (j : ℕ) (e : BufferEntry)
    (h : slot < maxWriteOperationsSupported) :
    (buffer.entry.set slot e).getD j BufferEntry.null =
      if j = slot then e else buffer.deref j := by
  have hlt : slot < buffer.entry.length := by rw [buffer.entry_length]; exact h
  unfold deref
  rw [List.getD_eq_getElem?_getD, List.getD_eq_getElem?_getD]
  split_ifs with hj
  · rw [hj, List.getElem?_set_self hlt]; rfl
  · rw [List.getElem?_set_ne (Ne.symm hj)]

theorem succ_slot (out n : ℕ) :
    ((out + n) % maxWriteOperationsSupported + 1) % maxWriteOperationsSupported =
      (out + (n + 1)) % maxWriteOperationsSupported := by
  rw [Nat.mod_add_mod, Nat.add_assoc]

/-- The slot after a window is the slot it starts at only if the window fills the array. -/
theorem full_slot {out n : ℕ} (hout : out < maxWriteOperationsSupported)
    (hn : n < maxWriteOperationsSupported) :
    (out + (n + 1)) % maxWriteOperationsSupported = out ↔ n + 1 = maxWriteOperationsSupported := by
  simp only [maxWriteOperationsSupported] at *
  omega

section Holds
variable {buffer : CircularBuffer} {l : List BufferEntry} (h : Holds buffer l)
include h

theorem Holds.length_le : l.length ≤ maxWriteOperationsSupported := by
  have := h.window.fits
  rwa [buffer.entry_length] at this

theorem Holds.inOffs_lt : buffer.inOffs < maxWriteOperationsSupported := by
  rw [h.inOffs_eq]; exact Nat.mod_lt _ (by decide)

theorem Holds.getElem?_eq {i : ℕ} (hi : i < l.length) :
    l[i]? = some (buffer.deref ((buffer.outOffs + i) % maxWriteOperationsSupported)) := by
  have hw := h.window.get i hi
  rw [buffer.entry_length] at hw
  rw [← hw, getElem?_entry (Nat.mod_lt _ (by decide))]

theorem Holds.getEntryByOffset_of_lt {i : ℕ} (hi : i < l.length) :
    buffer.getEntryByOffset i =
      some ((buffer.outOffs + i) % maxWriteOperationsSupported) := by
  have hle := h.length_le
  rw [getEntryByOffset, if_pos (by omega)]

theorem Holds.deref_slot {i : ℕ} (hi : i < l.length) :
    buffer.deref ((buffer.outOffs + i) % maxWriteOperationsSupported) = l[i] := by
  have hg := h.getElem?_eq hi
  rw [List.getElem?_eq_getElem hi, Option.some.injEq] at hg
  exact hg.symm

/-- What the slot `getEntryByOffset` gives holds. -/
theorem Holds.deref_getEntryByOffset {i : ℕ} (hi : i < l.length) :
    (buffer.getEntryByOffset i).map buffer.deref = l[i]? := by
  have hle := h.length_le
  rw [h.getElem?_eq hi, getEntryByOffset, if_pos (by omega)]
  rfl

theorem Holds.deref_stale {i : ℕ} (hi : l.length ≤ i) (hlt : i < maxWriteOperationsSupported) :
    ∃ e, (buffer.getEntryByOffset i).map buffer.deref = some e ∧ e.buffptr = none := by
  refine ⟨_, ?_, h.stale i hi hlt⟩
  rw [getEntryByOffset, if_pos hlt]
  rfl

/-- **The pointer returned** is the one of the entry that falls out, if any. -/
theorem addEntry_fst (e : BufferEntry) :
    (buffer.addEntry e).1 =
      if l.length = maxWriteOperationsSupported then l.head?.bind BufferEntry.buffptr else none := by
  have hout := h.outOffs_lt
  by_cases hl : l.length = maxWriteOperationsSupported
  · have h0 := h.getElem?_eq (i := 0) (by omega)
    rw [Nat.add_zero, Nat.mod_eq_of_lt hout] at h0
    rw [if_pos hl, List.head?_eq_getElem?, h0]
    simp [addEntry, h.full_iff.mpr hl]
  · have hf : buffer.full = false := by
      rw [← Bool.not_eq_true, h.full_iff]; exact hl
    simp [addEntry, hl, hf]

theorem holds_addEntry {e : BufferEntry} (he : e.buffptr ≠ none) :
    Holds (buffer.addEntry e).2 ((l ++ [e]).rtake maxWriteOperationsSupported) := by
  have hle := h.length_le
  have hout := h.outOffs_lt
  have hin := h.inOffs_lt
  have hlen := buffer.entry_length
  have hmem : ∀ x ∈ (l ++ [e]).rtake maxWriteOperationsSupported, x.buffptr ≠ none := by
    intro x hx
    rcases List.mem_append.mp (mem_of_mem_rtake hx) with hx | hx
    · exact h.nonnull x hx
    · rw [List.mem_singleton.mp hx]; exact he
  by_cases hl : l.length = maxWriteOperationsSupported
  · -- a full buffer: the new entry goes over the oldest one
    have hf : buffer.full = true := h.full_iff.mpr hl
    have hio : buffer.inOffs = buffer.outOffs := by
      rw [h.inOffs_eq, hl, Nat.add_mod_right, Nat.mod_eq_of_lt hout]
    have htake : (l ++ [e]).rtake maxWriteOperationsSupported = l.tail ++ [e] := by
      have hpos : 0 < l.length := by omega
      obtain ⟨a, l', rfl⟩ := List.exists_cons_of_length_pos hpos
      simp only [List.rtake, List.length_append, List.length_singleton, List.tail_cons]
      rw [hl, Nat.add_sub_cancel_left]
      rfl
    have hw := h.window.rotate (by rw [hl, hlen]) (by omega) e
    rw [hlen, Nat.mod_eq_of_lt hout, ← Window.mod, List.length_set, hlen] at hw
    rw [htake] at hmem ⊢
    refine ⟨?_, ?_, ?_, ?_, fun i hi hlt => ?_, hmem⟩
    · simp only [addEntry, hf, if_true]; exact Nat.mod_lt _ (by decide)
    · simpa [addEntry, hf, hio] using hw
    · simp [addEntry, hf, hio, hl]
    · simp [addEntry, hf, hio, hl]
    · simp only [List.length_append, List.length_tail, List.length_singleton, hl] at hi
      omega
  · -- a free slot: the window grows
    have hf : buffer.full = false := by
      rw [← Bool.not_eq_true, h.full_iff]; exact hl
    have hlt : l.length < maxWriteOperationsSupported := by omega
    have htake : (l ++ [e]).rtake maxWriteOperationsSupported = l ++ [e] :=
      rtake_of_length_le (by simpa using hlt)
    have hw := h.window.push (by rw [hlen]; exact hlt) e
    rw [hlen, ← h.inOffs_eq] at hw
    rw [htake] at hmem ⊢
    refine ⟨?_, ?_, ?_, ?_, fun i hi hlt => ?_, hmem⟩
    · simpa [addEntry, hf] using hout
    · simpa [addEntry, hf] using hw
    · simp only [addEntry, hf, h.inOffs_eq, List.length_append, List.length_singleton]
      exact succ_slot _ _
    · have hnext := succ_slot buffer.outOffs l.length
      simp only [addEntry, hf, h.inOffs_eq, List.length_append, List.length_singleton,
        Bool.false_eq_true, if_false]
      rw [hnext, ← full_slot hout hlt]
      split_ifs with hs <;> simp [hs]
    · have hne : (buffer.outOffs + i) % maxWriteOperationsSupported ≠ buffer.inOffs := by
        rw [h.inOffs_eq]
        simp only [List.length_append, List.length_singleton] at hi
        exact slot_ne hlt (by omega) (by omega)
      simp only [List.length_append, List.length_singleton] at hi
      have hst := h.stale i (by omega) hlt
      have hd := deref_set buffer ((buffer.outOffs + i) % maxWriteOperationsSupported) e hin
      rw [if_neg hne] at hd
      simp only [addEntry, hf, deref, Bool.false_eq_true, if_false]
      rw [hd]
      exact hst

end Holds

/-! ### Runs of insertions -/

theorem addEntries_concat (buffer : CircularBuffer) (es : List BufferEntry) (e : BufferEntry) :
    buffer.addEntries (es ++ [e]) =
      ((buffer.addEntries es).1 ++ [((buffer.addEntries es).2.addEntry e).1],
        ((buffer.addEntries es).2.addEntry e).2) := by
  induction es generalizing buffer with
  | nil => rfl
  | cons a es ih => rw [List.cons_append, addEntries, ih]; rfl

theorem holds_addEntries {es : List BufferEntry} (hes : ∀ e ∈ es, e.buffptr ≠ none) :
    Holds (init.addEntries es).2 (es.rtake maxWriteOperationsSupported) := by
  induction es using List.reverseRecOn with
  | nil => exact holds_init
  | append_singleton es e ih =>
    have hstep := holds_addEntry (ih fun x hx => hes x (by simp [hx])) (hes e (by simp))
    rw [rtake_concat] at hstep
    rw [addEntries_concat]
    exact hstep

/-- The pointers returned, for a buffer that started empty: nothing for the first ten entries, then
the pointers of the entries in the order they were added. -/
theorem addEntries_returned {es : List BufferEntry} (hes : ∀ e ∈ es, e.buffptr ≠ none) :
    (init.addEntries es).1 =
      List.replicate (min es.length maxWriteOperationsSupported) none ++
        (es.take (es.length - maxWriteOperationsSupported)).map BufferEntry.buffptr := by
  induction es using List.reverseRecOn with
  | nil => rfl
  | append_singleton es e ih =>
    have hes' : ∀ x ∈ es, x.buffptr ≠ none := fun x hx => hes x (by simp [hx])
    have hfst := addEntry_fst (holds_addEntries hes') e
    rw [addEntries_concat, ih hes', hfst, length_rtake, List.length_append, List.length_singleton]
    by_cases hlt : es.length < maxWriteOperationsSupported
    · rw [if_neg (by omega), min_eq_left hlt.le, min_eq_left hlt, Nat.sub_eq_zero_of_le hlt.le,
        Nat.sub_eq_zero_of_le hlt, List.replicate_succ']
      simp
    · have hle : maxWriteOperationsSupported ≤ es.length := by omega
      have hk : es.length - maxWriteOperationsSupported < es.length := by
        simp only [maxWriteOperationsSupported] at hle ⊢
        omega
      have hhead : (es.rtake maxWriteOperationsSupported).head? =
          some es[es.length - maxWriteOperationsSupported] := by
        rw [List.head?_eq_getElem?, getElem?_rtake, Nat.add_zero, List.getElem?_eq_getElem hk]
      have htake : (es ++ [e]).take (es.length + 1 - maxWriteOperationsSupported) =
          es.take (es.length - maxWriteOperationsSupported) ++
            [es[es.length - maxWriteOperationsSupported]] := by
        rw [Nat.sub_add_comm hle, List.take_append_of_le_length (by omega), List.take_add_one,
          List.getElem?_eq_getElem hk]
        rfl
      rw [if_pos (min_eq_left hle), min_eq_right hle, min_eq_right (by omega), hhead, htake,
        List.map_append, ← List.append_assoc]
      rfl

/-- What a bounded FIFO of ten places shows after the entries `es` were added: `returned` lists what
each of the insertions gave back. -/
structure RefinesFifo (es : List BufferEntry) (returned : List (Option ℕ))
    (buffer : CircularBuffer) : Prop where
  inOffs_lt : buffer.inOffs < maxWriteOperationsSupported
  outOffs_lt : buffer.outOffs < maxWriteOperationsSupported
  full_iff : buffer.full = true ↔ maxWriteOperationsSupported ≤ es.length
  /-- The `i`-th oldest of the last entries is found at offset `i`. -/
  stored : ∀ i < min es.length maxWriteOperationsSupported,
    (buffer.getEntryByOffset i).map buffer.deref =
      es[es.length - min es.length maxWriteOperationsSupported + i]?
  unused : ∀ i, min es.length maxWriteOperationsSupported ≤ i → i < maxWriteOperationsSupported →
    ∃ e, (buffer.getEntryByOffset i).map buffer.deref = some e ∧ e.buffptr = none
  outside : ∀ i, maxWriteOperationsSupported ≤ i → buffer.getEntryByOffset i = none
  /-- The `k`-th insertion, counted from one, returns the pointer of the entry ten before it. -/
  evicted : ∀ k, 1 ≤ k → k ≤ es.length → returned[k - 1]? =
    some (if maxWriteOperationsSupported < k then
      es[k - maxWriteOperationsSupported - 1]?.bind BufferEntry.buffptr else none)
  /-- The pointers returned, then those still stored: every pointer once, in order. -/
  conserved : returned.filter Option.isSome ++
    ((List.range (min es.length maxWriteOperationsSupported)).map fun i =>
      (buffer.getEntryByOffset i).bind fun p => (buffer.deref p).buffptr) =
        es.map BufferEntry.buffptr

theorem map_range_getElem? {α β : Type*} (l : List α) (f : Option α → β) :
    ((List.range l.length).map fun i => f l[i]?) = l.map fun a => f (some a) := by
  refine List.ext_getElem? fun i => ?_
  rw [List.getElem?_map, List.getElem?_map]
  rcases Nat.lt_or_ge i l.length with hi | hi
  · rw [List.getElem?_range hi, List.getElem?_eq_getElem hi]
    simp [hi]
  · rw [List.getElem?_eq_none (by simpa using hi), List.getElem?_eq_none hi]
    rfl

theorem Holds.map_buffptr {buffer : CircularBuffer} {l : List BufferEntry} (h : Holds buffer l) :
    ((List.range l.length).map fun i =>
      (buffer.getEntryByOffset i).bind fun p => (buffer.deref p).buffptr) =
        l.map BufferEntry.buffptr := by
  have hbind : l.map BufferEntry.buffptr = l.map fun e => (some e).bind BufferEntry.buffptr := rfl
  rw [hbind, ← map_range_getElem? l fun e => e.bind BufferEntry.buffptr]
  refine List.map_congr_left fun i hi => ?_
  rw [← h.deref_getEntryByOffset (List.mem_range.mp hi)]
  rcases buffer.getEntryByOffset i with _ | p <;> rfl

theorem filter_returned {es : List BufferEntry} (hes : ∀ e ∈ es, e.buffptr ≠ none) :
    (init.addEntries es).1.filter Option.isSome =
      (es.take (es.length - maxWriteOperationsSupported)).map BufferEntry.buffptr := by
  rw [addEntries_returned hes, List.filter_append, List.filter_eq_nil_iff.mpr, List.nil_append,
    List.filter_eq_self.mpr]
  · intro p hp
    obtain ⟨e, he, rfl⟩ := List.mem_map.mp hp
    exact Option.isSome_iff_ne_none.mpr (hes e (List.mem_of_mem_take he))
  · intro p hp
    rw [(List.mem_replicate.mp hp).2]
    decide

theorem getElem?_returned {es : List BufferEntry} (hes : ∀ e ∈ es, e.buffptr ≠ none) {k : ℕ}
    (h1 : 1 ≤ k) (hk : k ≤ es.length) :
    (init.addEntries es).1[k - 1]? = some (if maxWriteOperationsSupported < k then
      es[k - maxWriteOperationsSupported - 1]?.bind BufferEntry.buffptr else none) := by
  rw [addEntries_returned hes]
  split_ifs with hlt
  · have hi : k - maxWriteOperationsSupported - 1 < es.length := by omega
    rw [List.getElem?_append_right (by simp; omega), List.length_replicate, List.getElem?_map,
      min_eq_right (by omega), Nat.sub_right_comm, List.getElem?_take_of_lt (by omega),
      List.getElem?_eq_getElem hi]
    rfl
  · rw [List.getElem?_append_left (by simp; omega), List.getElem?_replicate, if_pos (by omega)]

/-- **The circular buffer refines a bounded FIFO.** -/
theorem addEntries_refinesFifo (es : List BufferEntry) (hes : ∀ e ∈ es, e.buffptr ≠ none) :
    RefinesFifo es (init.addEntries es).1 (init.addEntries es).2 := by
  have h := holds_addEntries hes
  have hlen : (es.rtake maxWriteOperationsSupported).length =
      min es.length maxWriteOperationsSupported := by rw [length_rtake, min_comm]
  refine ⟨h.inOffs_lt, h.outOffs_lt, ?_, fun i hi => ?_, fun i hi hlt => ?_, fun i hi => ?_,
    fun k h1 hk => getElem?_returned hes h1 hk, ?_⟩
  · rw [h.full_iff, hlen]; omega
  · rw [h.deref_getEntryByOffset (by omega), getElem?_rtake]
    congr 1; omega
  · exact h.deref_stale (by omega) hlt
  · rw [getEntryByOffset, if_neg (by omega)]
  · rw [← hlen, h.map_buffptr, filter_returned hes, ← List.map_append, rtake_append_drop]

/-- Eleven insertions: the array wrapped once. -/
theorem addEntries_refinesFifo_eleven :
    RefinesFifo ((List.range 11).map fun i => ⟨some i, i⟩)
      (init.addEntries ((List.range 11).map fun i => ⟨some i, i⟩)).1
      (init.addEntries ((List.range 11).map fun i => ⟨some i, i⟩)).2 :=
  addEntries_refinesFifo _ (by decide)

end Aesd.Driver.Fifo
