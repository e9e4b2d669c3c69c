import Aesd.Driver.Write

/-!
# `aesd_read` and the seeks, on the line store

With `C` the lines stored, laid end to end: `aesd_read` delivers the slice of `C` at the position
(`aesdRead_eq`), `aesd_llseek` accepts the positions up to the end of `C` (`aesdLlseek_set`), and the
first half of `aesd_ioctl` finds the position of a byte of a line (`findAbsoluteOffset_view`).
-/

namespace Aesd.Driver.Read

open Aesd.Lib.Alloc Aesd.Lib.Alloc.Heap Aesd.Lib.Concat
open Aesd.Driver.Ring Aesd.Driver.Ring.CircularBuffer Aesd.Driver.Fifo Aesd.Driver.Traversal
open Aesd.Driver.Device Aesd.Driver.Store

/-- The lines stored, laid end to end. -/
def content (d : AesdDev) : Bytes := (view d).entries.flatten

/-! ### The user's buffer -/

@[simp] theorem overlay_nil (ubuf : Bytes) (off : ℕ) : overlay ubuf off [] = ubuf := by
  simp [overlay]

theorem overlay_overlay (ubuf : Bytes) {off : ℕ} (h : off ≤ ubuf.length) (a b : Bytes) :
    overlay (overlay ubuf off a) (off + a.length) b = overlay ubuf off (a ++ b) := by
  have hlen : (ubuf.take off ++ a).length = off + a.length := by simp; omega
  unfold overlay
  rw [List.take_left' hlen, List.drop_append, hlen, List.drop_eq_nil_of_le (by omega),
    List.drop_drop, List.nil_append, List.append_assoc (ubuf.take off), List.length_append]
  congr 2
  omega

theorem length_overlay {ubuf : Bytes} {off : ℕ} {src : Bytes} (h : off + src.length ≤ ubuf.length) :
    (overlay ubuf off src).length = ubuf.length := by
  simp [overlay]; omega

section Owned
variable {d : AesdDev} (h : Owned d)
include h

/-! ### The traversals on the line store -/

theorem findEOFOffset_view : d.buffer.findEOFOffset = (content d).length := by
  rw [findEOFOffset_eq h.holds, h.map_size, content, List.length_flatten]

theorem findAbsoluteOffset_view (k c : ℕ) :
    d.buffer.findAbsoluteOffset k c =
      if ∃ b, (view d).entries[k]? = some b ∧ c < b.length then
        ((((view d).entries.map List.length).take k).sum + c : ℤ) else -1 := by
  rw [findAbsoluteOffset_eq h.holds, h.map_size]
  have hiff : (∃ e, (stored d.buffer)[k]? = some e ∧ c < e.size) ↔
      ∃ b, (view d).entries[k]? = some b ∧ c < b.length := by
    simp only [view, List.getElem?_map, Option.map_eq_some_iff]
    constructor
    · rintro ⟨e, he, hc⟩
      refine ⟨_, ⟨e, he, rfl⟩, ?_⟩
      rwa [h.length_bytesOf (List.mem_cons_of_mem _ (List.mem_of_getElem? he))]
    · rintro ⟨_, ⟨e, he, rfl⟩, hc⟩
      refine ⟨e, he, ?_⟩
      rwa [h.length_bytesOf (List.mem_cons_of_mem _ (List.mem_of_getElem? he))] at hc
  rw [if_congr hiff rfl rfl]

theorem findEntry_located {pos entry c : ℕ}
    (hf : d.buffer.findEntryOffsetForFpos pos = some (entry, c)) :
    ∃ k, ∃ hk : k < (stored d.buffer).length, d.buffer.deref entry = (stored d.buffer)[k] ∧
      c < (stored d.buffer)[k].size ∧
      (((view d).entries.map List.length).take k).sum + c = pos := by
  rw [findEntryOffsetForFpos_eq h.holds, Option.map_eq_some_iff] at hf
  obtain ⟨⟨k, c'⟩, hloc, heq⟩ := hf
  obtain ⟨size, hk, hc, hpos⟩ := locate_eq_some.mp hloc
  simp only [Prod.mk.injEq] at heq
  obtain ⟨rfl, rfl⟩ := heq
  rw [List.getElem?_map, Option.map_eq_some_iff] at hk
  obtain ⟨e, he, rfl⟩ := hk
  obtain ⟨hkl, rfl⟩ := List.getElem?_eq_some_iff.mp he
  exact ⟨k, hkl, h.holds.deref_slot hkl, hc, by rw [← h.map_size, hpos]⟩

/-- What the lookup of a position finds: memory that holds the content from the position on, up to
the end of the line. -/
theorem findEntry_some {pos entry c : ℕ}
    (hf : d.buffer.findEntryOffsetForFpos pos = some (entry, c)) {n : ℕ}
    (hn : n ≤ (d.buffer.deref entry).size - c) :
    ((d.buffer.deref entry).buffptr.bind fun p => d.heap.read p c n) =
        some (((content d).drop pos).take n) ∧
      n ≤ ((content d).drop pos).length := by
  obtain ⟨k, hkl, hslot, hc, hpos⟩ := findEntry_located h hf
  have hstored : (stored d.buffer)[k] ∈ stored d.buffer := List.getElem_mem hkl
  have hmem : (stored d.buffer)[k] ∈ d.tempEntry :: stored d.buffer :=
    List.mem_cons_of_mem _ hstored
  rw [hslot] at hn ⊢
  obtain ⟨p, hp⟩ := Option.ne_none_iff_exists'.mp (h.holds.nonnull _ hstored)
  obtain ⟨b, hb⟩ := h.live_block (p := p) (List.mem_append_left _ (mem_ptrs hstored hp))
  have hsz := h.sized _ hmem p b hp hb
  have hbytes : bytesOf d.heap (stored d.buffer)[k] = b.take (stored d.buffer)[k].size := by
    simp [bytesOf, hp, hb]
  have hdrop : (content d).drop pos = (b.take (stored d.buffer)[k].size).drop c ++
      ((view d).entries.drop (k + 1)).flatten := by
    rw [← hpos, ← hbytes]
    refine drop_flatten (by simp [view, hkl]) ?_
    rw [h.length_bytesOf hmem]
    exact hc.le
  have hlen : ((b.take (stored d.buffer)[k].size).drop c).length =
      (stored d.buffer)[k].size - c := by
    rw [List.length_drop, List.length_take, min_eq_left hsz]
  refine ⟨?_, by rw [hdrop, List.length_append, hlen]; omega⟩
  rw [hp, Option.bind_some, read_eq hb (by omega), hdrop,
    List.take_append_of_le_length (by rw [hlen]; exact hn), List.drop_take, List.take_take,
    min_eq_left hn]

theorem findEntry_none {pos : ℕ} (hf : d.buffer.findEntryOffsetForFpos pos = none) :
    (content d).drop pos = [] := by
  rw [findEntryOffsetForFpos_eq h.holds, Option.map_eq_none_iff, locate_eq_none, h.map_size,
    ← List.length_flatten] at hf
  exact List.drop_eq_nil_of_le hf

/-! ### Reading -/

/-- The lines that a read of `count` bytes at `pos` copies from. -/
def linesTouched (d : AesdDev) (pos count : ℕ) : ℕ :=
  touched ((view d).entries.map List.length) pos count

theorem linesTouched_none {pos : ℕ} (hf : d.buffer.findEntryOffsetForFpos pos = none) (count : ℕ) :
    linesTouched d pos count = 0 := by
  rw [findEntryOffsetForFpos_eq h.holds, Option.map_eq_none_iff, locate_eq_none, h.map_size] at hf
  exact touched_of_le hf count

theorem linesTouched_some {pos entry c : ℕ}
    (hf : d.buffer.findEntryOffsetForFpos pos = some (entry, c)) {count n : ℕ} (hcount : count ≠ 0)
    (hn : n = min count ((d.buffer.deref entry).size - c)) :
    linesTouched d pos count = linesTouched d (pos + n) (count - n) + 1 := by
  obtain ⟨k, hkl, hslot, hc, hpos⟩ := findEntry_located h hf
  unfold linesTouched
  rw [← h.map_size] at hpos ⊢
  rw [hn, hslot]
  refine touched_of_getElem (k := k) ?_ hc hpos (Nat.pos_of_ne_zero hcount)
  rw [List.getElem?_map, List.getElem?_eq_getElem hkl, Option.map_some]

/-- **The loop of `aesd_read`** delivers the slice of the content from the position on, if the copies
from the lines it touches succeed. -/
theorem readLoop_ok {env : ReadEnv} {i count retval pos : ℕ} {ubuf : Bytes}
    (hcopy : ∀ j < linesTouched d pos count, env.copy (i + j) = none) :
    ∃ u, readLoop d env i count retval pos ubuf =
        some (((retval + (((content d).drop pos).take count).length : ℕ) : ℤ),
          pos + (((content d).drop pos).take count).length, u) ∧
      (retval + (((content d).drop pos).take count).length ≤ ubuf.length →
        u = overlay ubuf retval (((content d).drop pos).take count)) := by
  induction count using Nat.strong_induction_on generalizing i retval pos ubuf with
  | _ count ih =>
    rw [readLoop]
    split_ifs with hc
    · exact ⟨ubuf, by simp [hc], fun _ => by simp [hc]⟩
    split
    · next hf => exact ⟨ubuf, by simp [findEntry_none h hf], fun _ => by simp [findEntry_none h hf]⟩
    · next entry c hf =>
      have hlt := findEntryOffsetForFpos_lt hf
      obtain ⟨hread, hle⟩ := findEntry_some h hf
        (Nat.min_le_right count ((d.buffer.deref entry).size - c))
      set n := min count ((d.buffer.deref entry).size - c) with hn
      have hround := linesTouched_some h hf hc hn
      set rest := (content d).drop pos
      have hlen : (rest.take n).length = n := by rw [List.length_take, min_eq_left hle]
      have hsplit : rest.take count =
          rest.take n ++ ((content d).drop (pos + n)).take (count - n) :=
        take_drop_eq_append _ _ (Nat.min_le_left _ _)
      have h0 : env.copy i = none := hcopy 0 (by omega)
      have hlater : ∀ j < linesTouched d (pos + n) (count - n), env.copy (i + 1 + j) = none := by
        intro j hj
        rw [Nat.add_assoc, Nat.add_comm 1 j]
        exact hcopy (j + 1) (by omega)
      obtain ⟨u, hu, hroom⟩ := @ih (count - n) (by omega) (i + 1) (retval + n) (pos + n)
        (overlay ubuf retval (rest.take n)) hlater
      refine ⟨u, ?_, fun hfit => ?_⟩
      · simp only [hread, h0]
        rw [hu, hsplit, List.length_append, hlen]
        simp only [Nat.add_assoc]
      · rw [hsplit, List.length_append, hlen] at hfit
        have hover := overlay_overlay ubuf (by omega : retval ≤ _) (rest.take n)
          (((content d).drop (pos + n)).take (count - n))
        rw [hlen] at hover
        rw [hroom (by rw [length_overlay (by omega)]; omega), hover, hsplit]

/-- **A fault ends the loop** with an error; the position has moved unless it was the first round. -/
theorem readLoop_fault {env : ReadEnv} {i count retval pos : ℕ} {ubuf : Bytes}
    (hfault : ∃ j < linesTouched d pos count, env.copy (i + j) ≠ none) :
    ∃ pos' u, readLoop d env i count retval pos ubuf = some (-efault, pos', u) ∧ pos ≤ pos' ∧
      (pos' = pos ↔ env.copy i ≠ none) := by
  induction count using Nat.strong_induction_on generalizing i retval pos ubuf with
  | _ count ih =>
    obtain ⟨j, hj, hne⟩ := hfault
    rw [readLoop]
    split_ifs with hc
    · simp [hc, linesTouched] at hj
    split
    · next hf =>
      rw [linesTouched_none h hf] at hj
      omega
    · next entry c hf =>
      have hlt := findEntryOffsetForFpos_lt hf
      obtain ⟨hread, -⟩ := findEntry_some h hf
        (Nat.min_le_right count ((d.buffer.deref entry).size - c))
      set n := min count ((d.buffer.deref entry).size - c) with hn
      have hround := linesTouched_some h hf hc hn
      simp only [hread]
      rcases h0 : env.copy i with _ | copied
      · -- the first round went well, so the fault is in a later one
        rcases j with _ | j
        · exact absurd h0 hne
        have hlater : ∃ j < linesTouched d (pos + n) (count - n), env.copy (i + 1 + j) ≠ none :=
          ⟨j, by omega, by rwa [Nat.add_assoc, Nat.add_comm 1 j]⟩
        obtain ⟨pos', u, hu, hle, -⟩ := ih (count - n) (by omega) hlater
        refine ⟨pos', u, hu, by omega, ?_⟩
        simp only [ne_eq, not_true_eq_false, iff_false]
        omega
      · exact ⟨pos, _, rfl, le_rfl, by simp⟩

/-- **`aesd_read`**, when the lock is taken and the copies succeed. -/
theorem aesdRead_eq {env : ReadEnv} (hsem : env.semKilled = false)
    (hcopy : ∀ i, env.copy i = none) {count : ℕ} (fpos : ℕ) {ubuf : Bytes}
    (hu : (((content d).drop fpos).take count).length ≤ ubuf.length) :
    aesdRead d env count fpos ubuf =
      some (((((content d).drop fpos).take count).length : ℤ),
        fpos + (((content d).drop fpos).take count).length,
        overlay ubuf 0 (((content d).drop fpos).take count)) := by
  obtain ⟨u, hloop, hroom⟩ :=
    @readLoop_ok d h env 0 count 0 fpos ubuf fun j _ => hcopy (0 + j)
  rw [Nat.zero_add] at hloop hroom
  simp only [aesdRead, hsem, Bool.false_eq_true, if_false]
  rw [hloop, hroom hu]

/-- Whatever the copies do, the bytes the user gets are content from the position on. -/
theorem readLoop_prefix (env : ReadEnv) (count : ℕ) :
    ∀ (i retval pos : ℕ) (ubuf : Bytes), retval + count ≤ ubuf.length →
      ∃ r pos' w, readLoop d env i count retval pos ubuf = some (r, pos', overlay ubuf retval w) ∧
        w <+: ((content d).drop pos).take count := by
  induction count using Nat.strong_induction_on with
  | _ count ih =>
    intro i retval pos ubuf hu
    rw [readLoop]
    split_ifs with hc
    · exact ⟨_, _, [], by rw [overlay_nil], List.nil_prefix⟩
    split
    · exact ⟨_, _, [], by rw [overlay_nil], List.nil_prefix⟩
    · next entry c hf =>
      have hlt := findEntryOffsetForFpos_lt hf
      obtain ⟨hread, hle⟩ := findEntry_some h hf
        (Nat.min_le_right count ((d.buffer.deref entry).size - c))
      set n := min count ((d.buffer.deref entry).size - c) with hn
      set rest := (content d).drop pos
      have hlen : (rest.take n).length = n := by rw [List.length_take, min_eq_left hle]
      have hsplit : rest.take count =
          rest.take n ++ ((content d).drop (pos + n)).take (count - n) :=
        take_drop_eq_append _ _ (Nat.min_le_left _ _)
      simp only [hread]
      rcases hcopy : env.copy i with _ | copied
      · obtain ⟨r, pos', w, hr, hw⟩ := ih (count - n) (by omega) (i + 1) (retval + n) (pos + n)
          (overlay ubuf retval (rest.take n)) (by rw [length_overlay (by omega)]; omega)
        have hover := overlay_overlay ubuf (by omega : retval ≤ _) (rest.take n) w
        rw [hlen] at hover
        refine ⟨r, pos', rest.take n ++ w, by simp only [hr, hover], ?_⟩
        rw [hsplit]
        exact List.prefix_append_right_inj _ |>.mpr hw
      · refine ⟨_, _, (rest.take n).take copied, rfl, ?_⟩
        rw [hsplit]
        exact (List.take_prefix _ _).trans (List.prefix_append _ _)

/-- **No pending byte is visible to `aesd_read`**: in every read the user's buffer is changed only
by a beginning of the slice of the content at the position. -/
theorem aesdRead_prefix (env : ReadEnv) {count : ℕ} (fpos : ℕ) {ubuf : Bytes}
    (hu : count ≤ ubuf.length) :
    ∃ r pos' w, aesdRead d env count fpos ubuf = some (r, pos', overlay ubuf 0 w) ∧
      w <+: ((content d).drop fpos).take count := by
  unfold aesdRead
  split_ifs with hsem
  · exact ⟨_, _, [], by rw [overlay_nil], List.nil_prefix⟩
  · exact readLoop_prefix h env count 0 0 fpos ubuf (by omega)

/-! ### Seeking -/

/-- **`aesd_llseek(SEEK_SET)`** takes the positions up to the end of the content. -/
theorem aesdLlseek_set (fpos : ℤ) (pos : ℕ) :
    aesdLlseek d.buffer false fpos pos seekSet =
      if pos ≤ (content d).length then ((pos : ℤ), (pos : ℤ)) else (-erange, fpos) := by
  simp only [aesdLlseek, Bool.false_eq_true, if_false, if_true, seekTo, findEOFOffset_view h]
  by_cases hle : pos ≤ (content d).length
  · rw [if_neg (by omega), if_pos hle]
  · rw [if_pos (by omega), if_neg hle]

end Owned

end Aesd.Driver.Read
