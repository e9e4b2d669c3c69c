import Aesd.Driver.SeekRace

/-!
# Positions in machine words

The sums of the traversals and of `aesd_llseek` are kept in `size_t` and `loff_t`, and wrap. The word
versions of the two summing loops are the reductions of the exact ones (`findEOFOffsetWord_eq`,
`findAbsoluteOffsetWord_eq`), so with less than `2 ^ 63` bytes stored nothing is lost: the three
traversals are inverse to each other (`traversals_agree`), and a seek succeeds exactly if the exact
target is a position of the content (`aesdLlseek_exact`).
-/

namespace Aesd.Driver.Offsets

open Aesd.Lib.Circular Aesd.Lib.Concat Aesd.Lib.Lts
open Aesd.Driver.Ring Aesd.Driver.Ring.CircularBuffer Aesd.Driver.Fifo Aesd.Driver.Traversal
open Aesd.Driver.Device Aesd.Driver.Store Aesd.Driver.Write Aesd.Driver.Read Aesd.Driver.Conservation
open Aesd.Driver.SeekRace

/-! ### The sums as the code keeps them -/

/-- A `size_t`. -/
def sizeT (n : ℕ) : ℕ := n % 2 ^ 64

/-- `findEOFLoop` with `eof_offset` a `size_t`. -/
def findEOFLoopWord (buffer : CircularBuffer) : ℕ → ℕ → ℕ → ℕ
  | 0, _, eofOffset => eofOffset
  | n + 1, index, eofOffset =>
    match buffer.getEntryByOffset index with
    | none => eofOffset
    | some current =>
      if (buffer.deref current).buffptr = none then eofOffset
      else findEOFLoopWord buffer n (index + 1) (sizeT (eofOffset + (buffer.deref current).size))

/-- `aesd_circular_buffer_find_EOF_offset`, as it is returned. -/
def findEOFOffsetWord (buffer : CircularBuffer) : ℕ :=
  findEOFLoopWord buffer maxWriteOperationsSupported 0 0

/-- `sizesBefore` with `absolute_offset` a `loff_t`. -/
def sizesBeforeWord (buffer : CircularBuffer) : ℕ → ℕ → ℤ → ℤ
  | 0, _, absoluteOffset => absoluteOffset
  | n + 1, index, absoluteOffset =>
    match buffer.getEntryByOffset index with
    | none => absoluteOffset
    | some current =>
      sizesBeforeWord buffer n (index + 1) (loff (absoluteOffset + (buffer.deref current).size))

/-- `aesd_circular_buffer_find_absolute_offset`, as it is returned. -/
def findAbsoluteOffsetWord (buffer : CircularBuffer) (entryOffset charOffset : ℕ) : ℤ :=
  match buffer.getEntryByOffset entryOffset with
  | none => -1
  | some current =>
    if (buffer.deref current).buffptr = none ∨ (buffer.deref current).size ≤ charOffset then -1
    else sizesBeforeWord buffer entryOffset 0 (loff charOffset)

theorem sizeT_of_lt {n : ℕ} (h : n < 2 ^ 64) : sizeT n = n := Nat.mod_eq_of_lt h

theorem loff_of_mem {z : ℤ} (hlo : -2 ^ 63 ≤ z) (hhi : z < 2 ^ 63) : loff z = z :=
  Int.bmod_eq_of_le_mul_two (by push_cast; omega) (by push_cast; omega)

theorem findEOFLoopWord_eq (buffer : CircularBuffer) (n index eofOffset : ℕ) :
    findEOFLoopWord buffer n index (sizeT eofOffset) =
      sizeT (buffer.findEOFLoop n index eofOffset) := by
  induction n generalizing index eofOffset with
  | zero => rfl
  | succ n ih =>
    unfold findEOFLoopWord findEOFLoop
    rcases buffer.getEntryByOffset index with _ | current
    · rfl
    · dsimp only
      split_ifs
      · rfl
      · rw [← ih]
        unfold sizeT
        rw [Nat.mod_add_mod]

theorem findEOFOffsetWord_eq (buffer : CircularBuffer) :
    findEOFOffsetWord buffer = sizeT buffer.findEOFOffset :=
  findEOFLoopWord_eq buffer maxWriteOperationsSupported 0 0

theorem sizesBeforeWord_eq (buffer : CircularBuffer) (n index : ℕ) (absoluteOffset : ℤ) :
    sizesBeforeWord buffer n index (loff absoluteOffset) =
      loff (buffer.sizesBefore n index absoluteOffset) := by
  induction n generalizing index absoluteOffset with
  | zero => rfl
  | succ n ih =>
    unfold sizesBeforeWord sizesBefore
    rcases buffer.getEntryByOffset index with _ | current
    · rfl
    · dsimp only
      rw [← ih]
      unfold loff
      rw [Int.bmod_add_bmod]

theorem findAbsoluteOffsetWord_eq (buffer : CircularBuffer) (k c : ℕ) :
    findAbsoluteOffsetWord buffer k c = loff (buffer.findAbsoluteOffset k c) := by
  have hneg : loff (-1) = -1 := loff_of_mem (by norm_num) (by norm_num)
  unfold findAbsoluteOffsetWord findAbsoluteOffset
  rcases buffer.getEntryByOffset k with _ | current
  · exact hneg.symm
  · dsimp only
    split_ifs
    · exact hneg.symm
    · exact sizesBeforeWord_eq buffer k 0 c

/-! ### The three traversals -/

/-- The pairs of a stored entry and an offset below its size, and the positions below the end, are
in correspondence by the traversals; `l` are the entries stored, oldest first. -/
structure TraversalsAgree (buffer : CircularBuffer) (l : List BufferEntry) : Prop where
  lookup_null : ∀ p, buffer.findEntryOffsetForFpos p = none ↔ findEOFOffsetWord buffer ≤ p
  lookup_found : ∀ p < findEOFOffsetWord buffer, ∃ k slot c,
    buffer.findEntryOffsetForFpos p = some (slot, c) ∧ buffer.getEntryByOffset k = some slot ∧
      l[k]? = some (buffer.deref slot) ∧ c < (buffer.deref slot).size ∧
      findAbsoluteOffsetWord buffer k c = p
  position_found : ∀ k c, findAbsoluteOffsetWord buffer k c ≠ -1 → ∃ p slot : ℕ,
    findAbsoluteOffsetWord buffer k c = p ∧ p < findEOFOffsetWord buffer ∧
      buffer.getEntryByOffset k = some slot ∧ buffer.findEntryOffsetForFpos p = some (slot, c)
  position_none : ∀ k c, findAbsoluteOffsetWord buffer k c = -1 ↔
    ¬ ∃ e, l[k]? = some e ∧ c < e.size

section Holds
variable {buffer : CircularBuffer} {l : List BufferEntry} (h : Holds buffer l)
include h

theorem findEOFOffsetWord_sum (htotal : (l.map BufferEntry.size).sum < 2 ^ 63) :
    findEOFOffsetWord buffer = (l.map BufferEntry.size).sum := by
  rw [findEOFOffsetWord_eq, findEOFOffset_eq h, sizeT_of_lt (by omega)]

theorem findAbsoluteOffsetWord_some (htotal : (l.map BufferEntry.size).sum < 2 ^ 63) {k c : ℕ}
    {e : BufferEntry} (hk : l[k]? = some e) (hc : c < e.size) :
    findAbsoluteOffsetWord buffer k c = (((l.map BufferEntry.size).take k).sum + c : ℕ) ∧
      ((l.map BufferEntry.size).take k).sum + c < (l.map BufferEntry.size).sum := by
  have hlt : ((l.map BufferEntry.size).take k).sum + c < (l.map BufferEntry.size).sum :=
    take_sum_add_lt (by rw [List.getElem?_map, hk]; rfl) hc
  refine ⟨?_, hlt⟩
  rw [findAbsoluteOffsetWord_eq, findAbsoluteOffset_eq h, if_pos ⟨e, hk, hc⟩,
    loff_of_mem (by omega) (by omega)]
  push_cast
  rfl

theorem findAbsoluteOffsetWord_none {k c : ℕ} (hkc : ¬ ∃ e, l[k]? = some e ∧ c < e.size) :
    findAbsoluteOffsetWord buffer k c = -1 := by
  rw [findAbsoluteOffsetWord_eq, findAbsoluteOffset_eq h, if_neg hkc]
  exact loff_of_mem (by norm_num) (by norm_num)

/-- The lookup of the position of byte `c` of entry `k`. -/
theorem findEntryOffsetForFpos_some {k c p : ℕ} {e : BufferEntry} (hk : l[k]? = some e)
    (hc : c < e.size) (hp : ((l.map BufferEntry.size).take k).sum + c = p) :
    buffer.findEntryOffsetForFpos p =
      some ((buffer.outOffs + k) % maxWriteOperationsSupported, c) := by
  have hloc : locate (l.map BufferEntry.size) p = some (k, c) :=
    locate_eq_some.mpr ⟨e.size, by rw [List.getElem?_map, hk]; rfl, hc, hp⟩
  rw [findEntryOffsetForFpos_eq h, hloc]
  rfl

theorem Holds.traversalsAgree (htotal : (l.map BufferEntry.size).sum < 2 ^ 63) :
    TraversalsAgree buffer l := by
  have heof := findEOFOffsetWord_sum h htotal
  refine ⟨fun p => ?_, fun p hp => ?_, fun k c hkc => ?_, fun k c => ?_⟩
  · rw [findEntryOffsetForFpos_eq h, Option.map_eq_none_iff, locate_eq_none, heof]
  · rw [heof] at hp
    rcases hloc : locate (l.map BufferEntry.size) p with _ | ⟨k, c⟩
    · exact absurd (locate_eq_none.mp hloc) (not_le.mpr hp)
    · obtain ⟨size, hk, hc, hpos⟩ := locate_eq_some.mp hloc
      rw [List.getElem?_map, Option.map_eq_some_iff] at hk
      obtain ⟨e, he, rfl⟩ := hk
      have hkl : k < l.length := (List.getElem?_eq_some_iff.mp he).1
      have hslot := (h.getElem?_eq hkl).symm.trans he
      rw [Option.some.injEq] at hslot
      refine ⟨k, _, c, findEntryOffsetForFpos_some h he hc hpos,
        h.getEntryByOffset_of_lt hkl, h.getElem?_eq hkl, hslot ▸ hc, ?_⟩
      rw [(findAbsoluteOffsetWord_some h htotal he hc).1, hpos]
  · have hex : ∃ e, l[k]? = some e ∧ c < e.size := by
      by_contra hn
      exact hkc (findAbsoluteOffsetWord_none h hn)
    obtain ⟨e, he, hc⟩ := hex
    obtain ⟨hpos, hlt⟩ := findAbsoluteOffsetWord_some h htotal he hc
    exact ⟨_, _, hpos, heof ▸ hlt,
      h.getEntryByOffset_of_lt (List.getElem?_eq_some_iff.mp he).1,
      findEntryOffsetForFpos_some h he hc rfl⟩
  · refine ⟨fun hneg => ?_, findAbsoluteOffsetWord_none h⟩
    rintro ⟨e, he, hc⟩
    rw [(findAbsoluteOffsetWord_some h htotal he hc).1] at hneg
    omega

end Holds

/-- **The three traversals agree** on every buffer that adding entries leads to. -/
theorem traversals_agree (es : List BufferEntry) (hes : ∀ e ∈ es, e.buffptr ≠ none)
    (htotal : ((es.rtake maxWriteOperationsSupported).map BufferEntry.size).sum < 2 ^ 63) :
    TraversalsAgree (init.addEntries es).2 (es.rtake maxWriteOperationsSupported) :=
  Holds.traversalsAgree (holds_addEntries hes) htotal

/-- Eleven entries, the first one stored empty: the array wrapped once. -/
theorem traversals_agree_eleven :
    TraversalsAgree (init.addEntries ((List.range 11).map fun i => ⟨some i, i - 1⟩)).2
      (((List.range 11).map fun i => ⟨some i, i - 1⟩).rtake maxWriteOperationsSupported) :=
  traversals_agree _ (by decide) (by decide)

/-! ### Seeking -/

/-- What the offset of a seek is counted from; `whence` may be anything else. -/
def seekBase (fpos : ℤ) (eofOffset : ℕ) (whence : ℤ) : Option ℤ :=
  if whence = seekSet then some 0
  else if whence = seekCur then some fpos
  else if whence = seekEnd then some eofOffset
  else none

/-- A target that wrapped is refused, for it is negative then. -/
theorem seekTo_loff {z : ℤ} {eofOffset : ℕ} (hlo : -2 ^ 63 ≤ z) (hhi : z < 2 ^ 64)
    (heof : eofOffset < 2 ^ 63) (fpos : ℤ) :
    seekTo (loff z) fpos eofOffset =
      if 0 ≤ z ∧ z ≤ eofOffset then (z, z) else (-erange, fpos) := by
  unfold seekTo
  by_cases hfit : z < 2 ^ 63
  · rw [loff_of_mem hlo hfit]
    by_cases hz : 0 ≤ z ∧ z ≤ eofOffset
    · rw [if_neg (by omega), if_pos hz]
    · rw [if_pos (by omega), if_neg hz]
  · have hwrap : loff z < 0 := by
      unfold loff
      rw [Int.bmod_def]
      omega
    rw [if_pos (Or.inl hwrap), if_neg (by omega)]

/-- **A seek is exact.** With less than `2 ^ 63` bytes stored, any position and any offset: if the
exact sum of base and offset is a position of the content or its end, it is returned and becomes
`f_pos`; otherwise an error is returned and `f_pos` stays. -/
theorem aesdLlseek_exact {d : AesdDev} (hd : Loaded d) (heof : (content d).length < 2 ^ 63)
    {fpos offset : ℤ} (hpos : 0 ≤ fpos) (hpos' : fpos < 2 ^ 63) (hoff : -2 ^ 63 ≤ offset)
    (hoff' : offset < 2 ^ 63) (whence : ℤ) :
    (∀ base, seekBase fpos (content d).length whence = some base → 0 ≤ base + offset →
      base + offset ≤ (content d).length →
        aesdLlseek d.buffer false fpos offset whence = (base + offset, base + offset)) ∧
    ((∀ base, seekBase fpos (content d).length whence = some base →
      ¬ (0 ≤ base + offset ∧ base + offset ≤ (content d).length)) →
        ∃ e < 0, aesdLlseek d.buffer false fpos offset whence = (e, fpos)) := by
  have hseek : ∀ base, seekBase fpos (content d).length whence = some base →
      aesdLlseek d.buffer false fpos offset whence =
        if 0 ≤ base + offset ∧ base + offset ≤ (content d).length then
          (base + offset, base + offset) else (-erange, fpos) := by
    intro base hbase
    have hexact := fun hlo hhi => seekTo_loff (z := base + offset) hlo hhi heof fpos
    unfold seekBase at hbase
    unfold aesdLlseek
    rw [if_neg (by decide), findEOFOffset_view (inv_loaded hd)]
    by_cases hset : whence = seekSet
    · rw [if_pos hset, Option.some.injEq] at hbase
      rw [← hexact (by omega) (by omega), if_pos hset, ← hbase, zero_add, loff_of_mem hoff hoff']
    · rw [if_neg hset] at hbase ⊢
      by_cases hcur : whence = seekCur
      · rw [if_pos hcur, Option.some.injEq] at hbase
        rw [← hexact (by omega) (by omega), if_pos hcur, hbase]
      · rw [if_neg hcur] at hbase ⊢
        by_cases hend : whence = seekEnd
        · rw [if_pos hend, Option.some.injEq] at hbase
          rw [← hexact (by omega) (by omega), if_pos hend, hbase]
        · rw [if_neg hend] at hbase
          cases hbase
  refine ⟨fun base hbase hlo hhi => ?_, fun hout => ?_⟩
  · rw [hseek base hbase, if_pos ⟨hlo, hhi⟩]
  · rcases hbase : seekBase fpos (content d).length whence with _ | base
    · refine ⟨-einval, by decide, ?_⟩
      unfold seekBase at hbase
      unfold aesdLlseek
      split_ifs at hbase with hset hcur hend
      rw [if_neg (by decide), if_neg hset, if_neg hcur, if_neg hend]
    · refine ⟨-erange, by decide, ?_⟩
      rw [hseek base hbase, if_neg (hout base hbase)]

theorem loaded_initModule : Loaded initModule := ⟨initModule, [], rfl, rfl⟩

/-- On a device with the line `"ab\n"`: from the end to its last byte, beyond the end, and a step that
would wrap. -/
theorem aesdLlseek_exact_line :
    ∃ d, run writeStep initModule [([97, 98, newline], smooth)] = some d ∧
      aesdLlseek d.buffer false 0 (-1) seekEnd = (2, 2) ∧
      (∃ e < 0, aesdLlseek d.buffer false 1 1 seekEnd = (e, 1)) ∧
      ∃ e < 0, aesdLlseek d.buffer false 3 (2 ^ 63 - 1) seekCur = (e, 3) := by
  obtain ⟨d, hr, -, hv⟩ := run_writeStep inv_initModule [([97, 98, newline], smooth)]
  have hd : Loaded d := loaded_initModule.run hr
  have hlen : (content d).length = 3 := by
    unfold content
    rw [hv, view_initModule]
    decide
  have hexact := fun {fpos offset : ℤ} hpos hpos' hoff hoff' whence =>
    @aesdLlseek_exact d hd (by rw [hlen]; norm_num) fpos offset hpos hpos' hoff hoff' whence
  rw [hlen] at hexact
  refine ⟨d, hr, ?_, ?_, ?_⟩
  · exact (hexact (by norm_num) (by norm_num) (by norm_num) (by norm_num) seekEnd).1 3 rfl (by norm_num)
      (by norm_num)
  · refine (hexact (by norm_num) (by norm_num) (by norm_num) (by norm_num) seekEnd).2 fun base hbase => ?_
    obtain rfl : (3 : ℤ) = base := Option.some.inj hbase
    norm_num
  · refine (hexact (by norm_num) (by norm_num) (by norm_num) (by norm_num) seekCur).2 fun base hbase => ?_
    obtain rfl : (3 : ℤ) = base := Option.some.inj hbase
    norm_num

end Aesd.Driver.Offsets
