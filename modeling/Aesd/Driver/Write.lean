import Aesd.Driver.Store

/-!
# `aesd_write` refines the line store

One lemma for each part of the call: the allocation (`growTempEntry_ok`), the copy (`fillTempEntry_*`),
the move into the buffer (`commitTempEntry_ok`); each keeps the ownership invariant and says what
happens to the line store. `aesdWrite_refines` puts them together, `writes_refines` runs them.
-/

namespace Aesd.Driver.Write

open Aesd.Lib.Alloc Aesd.Lib.Alloc.Heap Aesd.Lib.Circular
open Aesd.Driver.Ring Aesd.Driver.Ring.CircularBuffer Aesd.Driver.Fifo Aesd.Driver.Device
open Aesd.Driver.Store

theorem inv_initModule : Owned initModule where
  holds := holds_init
  nodup := by decide
  live p := by
    have hown : owners (stored initModule.buffer) initModule.tempEntry = [] := by decide
    rw [hown]
    simp [initModule, Heap.empty]
  sized e he p b hp hb := by cases hb
  temp_null _ := rfl

theorem view_initModule : view initModule = LineStore.empty := by decide

section Owned
variable {d : AesdDev} (h : Owned d)
include h

/-- **The allocation succeeds**: room for `count` more bytes after the pending ones. -/
theorem growTempEntry_ok {o : Outcome UInt8} (ho : o.isOk = true) (count : ℕ) :
    ∃ q heap b, growTempEntry d count o = some (some q, heap) ∧
      q ∉ (stored d.buffer).filterMap BufferEntry.buffptr ∧ heap.block q = some b ∧
      b.length = d.tempEntry.size + count ∧ b.take d.tempEntry.size = (view d).pending ∧
      ∀ p, p ≠ q → heap.block p =
        if p ∈ (stored d.buffer).filterMap BufferEntry.buffptr then d.heap.block p else none := by
  have hlive : ∀ p ∈ (stored d.buffer).filterMap BufferEntry.buffptr, d.heap.block p ≠ none :=
    fun p hp => (h.live p).mpr (List.mem_append_left _ hp)
  rcases o with _ | ⟨moved, fill⟩
  · cases ho
  unfold growTempEntry
  rcases ht : d.tempEntry.buffptr with _ | i
  · have hsize := h.temp_null ht
    obtain ⟨q, heap, b, hm, hfree, hb, hlen, hframe⟩ := malloc_ok d.heap count moved fill
    refine ⟨q, heap, b, by simp [hm], fun hq => hlive q hq hfree, hb, by omega, ?_,
      fun p hp => by rw [hframe p hp]; exact h.block_eq (by simp [ht])⟩
    simp [hsize, view, bytesOf]
  · obtain ⟨old, hold, hle⟩ := h.temp_block ht
    obtain ⟨q, heap, b, hm, hq, hb, hlen, htake, hframe⟩ :=
      realloc_ok hold (d.tempEntry.size + count) moved fill
    refine ⟨q, heap, b, hm, ?_, hb, hlen, ?_, fun p hp => ?_⟩
    · rcases hq with rfl | hfree
      · exact h.temp_notMem ht
      · exact fun hq => hlive q hq hfree
    · rw [htake _ hle (by omega)]
      simp [view, bytesOf, ht, hold]
    · rw [hframe p hp]
      split_ifs with hpi hm' hm'
      · exact absurd (hpi ▸ hm') (h.temp_notMem ht)
      · rfl
      · rfl
      · rw [h.block_eq (by simpa [ht] using Ne.symm hpi), if_neg hm']

theorem growTempEntry_null (count : ℕ) :
    growTempEntry d count .null = some (none, d.heap) := by
  unfold growTempEntry
  rcases ht : d.tempEntry.buffptr with _ | i
  · rfl
  · obtain ⟨b, hb, -⟩ := h.temp_block ht
    simp [realloc, hb]

theorem free_temp :
    ∃ heap, d.heap.free d.tempEntry.buffptr = some heap ∧
      Owned { d with heap, tempEntry := BufferEntry.null } ∧
      view { d with heap, tempEntry := BufferEntry.null } = { view d with pending := [] } := by
  rcases ht : d.tempEntry.buffptr with _ | i
  · exact ⟨d.heap, rfl, h.of_null fun p => h.block_eq (by simp [ht])⟩
  · obtain ⟨b, hb, -⟩ := h.temp_block ht
    refine ⟨d.heap.drop i, free_eq hb, h.of_null fun p => ?_⟩
    rw [block_drop]
    split_ifs with hpi hm hm
    · exact absurd (hpi ▸ hm) (h.temp_notMem ht)
    · rfl
    · rfl
    · rw [h.block_eq (by simpa [ht] using Ne.symm hpi), if_neg hm]

/-- Freeing what the insertion returns leaves the memory of the entries kept. -/
theorem free_evicted {q : ℕ} (ht : d.tempEntry.buffptr = some q) :
    ∃ heap, d.heap.free (d.buffer.addEntry d.tempEntry).1 = some heap ∧
      ∀ p, heap.block p = if p ∈ ((stored d.buffer ++ [d.tempEntry]).rtake
        maxWriteOperationsSupported).filterMap BufferEntry.buffptr then d.heap.block p else none := by
  have hle := h.holds.length_le
  have hdead : ∀ p, p ∉ (stored d.buffer ++ [d.tempEntry]).filterMap BufferEntry.buffptr →
      d.heap.block p = none := by
    intro p hp
    by_contra hn
    exact hp (by simpa [owners, List.filterMap_append, List.filterMap_cons, ht] using (h.live p).mp hn)
  rw [addEntry_fst h.holds]
  by_cases hl : (stored d.buffer).length = maxWriteOperationsSupported
  · obtain ⟨e, l, he⟩ := List.exists_cons_of_length_pos (l := stored d.buffer) (by rw [hl]; decide)
    rw [he] at hl hdead ⊢
    have hkeep : (e :: l ++ [d.tempEntry]).rtake maxWriteOperationsSupported =
        l ++ [d.tempEntry] := by
      rw [List.rtake, List.length_append, hl]; rfl
    obtain ⟨p, hp⟩ := Option.ne_none_iff_exists'.mp (h.holds.nonnull e (by simp [he]))
    obtain ⟨b, hb⟩ := h.live_block (p := p) (by simp [owners, he, hp])
    have hnot : p ∉ (l ++ [d.tempEntry]).filterMap BufferEntry.buffptr := by
      have hnd := h.nodup
      rw [owners, he, List.filterMap_cons_some hp, List.cons_append, List.nodup_cons] at hnd
      simpa [List.filterMap_append, List.filterMap_cons, ht] using hnd.1
    refine ⟨d.heap.drop p, by simp [hl, hp, free_eq hb], fun j => ?_⟩
    rw [hkeep, block_drop]
    split_ifs with hjp hm hm
    · exact absurd (hjp ▸ hm) hnot
    · rfl
    · rfl
    · refine hdead j fun hj => ?_
      rw [List.cons_append, List.filterMap_cons_some hp, List.mem_cons] at hj
      exact hj.elim hjp hm
  · refine ⟨d.heap, by simp [hl, Heap.free], fun j => ?_⟩
    rw [rtake_of_length_le (by simp; omega)]
    split_ifs with hm
    · rfl
    · exact hdead j hm

/-- **The line moves into the buffer**, and the memory of the line it replaces is freed. -/
theorem commitTempEntry_ok {q : ℕ} (ht : d.tempEntry.buffptr = some q) :
    ∃ d', commitTempEntry d = some d' ∧ Owned d' ∧
      view d' = ⟨((view d).entries ++ [(view d).pending]).rtake maxWriteOperationsSupported, []⟩ := by
  obtain ⟨heap, hfree, hframe⟩ := free_evicted h ht
  have hadd := holds_addEntry h.holds (e := d.tempEntry) (by rw [ht]; simp)
  have hst := stored_eq hadd
  set kept := (stored d.buffer ++ [d.tempEntry]).rtake maxWriteOperationsSupported with hkept
  have hsub : List.Sublist kept (stored d.buffer ++ [d.tempEntry]) := List.drop_sublist _ _
  have hown : (stored d.buffer ++ [d.tempEntry]).filterMap BufferEntry.buffptr =
      owners (stored d.buffer) d.tempEntry := by
    simp [owners, List.filterMap_append, ht]
  have hkeep : ∀ p ∈ kept.filterMap BufferEntry.buffptr, heap.block p = d.heap.block p :=
    fun p hp => by rw [hframe p, if_pos hp]
  have hmem : ∀ e ∈ kept, e ∈ d.tempEntry :: stored d.buffer := by
    intro e he
    rcases List.mem_append.mp (hsub.subset he) with he | he
    · exact List.mem_cons_of_mem _ he
    · rw [List.mem_singleton.mp he]; exact List.mem_cons_self
  refine ⟨⟨heap, (d.buffer.addEntry d.tempEntry).2, BufferEntry.null⟩,
    by simp [commitTempEntry, hfree], ⟨?_, ?_, fun p => ?_, ?_, fun _ => rfl⟩, ?_⟩
  · simpa [hst] using hadd
  · rw [owners_null, hst]
    exact (hown ▸ h.nodup).sublist (hsub.filterMap _)
  · rw [owners_null, hst]
    show heap.block p ≠ none ↔ _
    rw [hframe p]
    split_ifs with hm
    · simpa [hm] using (h.live p).mpr (hown ▸ (hsub.filterMap _).subset hm)
    · simp [hm]
  · intro e he p b hp hb
    rcases List.mem_cons.mp he with rfl | he
    · cases hp
    · rw [hst] at he
      exact h.sized e (hmem e he) p b hp (hkeep p (mem_ptrs he hp) ▸ hb)
  · have hmap : kept.map (bytesOf heap) =
        ((stored d.buffer).map (bytesOf d.heap) ++ [bytesOf d.heap d.tempEntry]).rtake
          maxWriteOperationsSupported := by
      rw [map_bytesOf_congr hkeep, hkept, map_rtake, List.map_append, List.map_singleton]
    simp only [view, hst, hmap]
    rfl

end Owned

/-! ### The copy -/

theorem length_copiedBytes (buf : Bytes) (copied : ℕ) :
    (copiedBytes buf copied).length = buf.length := by
  simp [copiedBytes]; omega

/-- A `temp_entry` with room for `n` more bytes. -/
structure Room (d : AesdDev) (q n : ℕ) : Prop where
  buffptr_eq : d.tempEntry.buffptr = some q
  block : ∃ b, d.heap.block q = some b ∧ b.length = d.tempEntry.size + n

section Room
variable {d : AesdDev} {q : ℕ} {buf : Bytes} (h : Owned d) (hr : Room d q buf.length)
include h hr

/-- **Copying into the room** leaves the pending bytes as they are; counted in, the bytes copied
are pending, too. -/
theorem write_room {src : Bytes} (hs : src.length = buf.length) :
    ∃ heap, d.heap.write q d.tempEntry.size src = some heap ∧
      (Owned { d with heap } ∧ view { d with heap } = view d) ∧
      heap.block q = some ((view d).pending ++ src) ∧
      ∀ d', d' = { d with heap, tempEntry := ⟨some q, d.tempEntry.size + src.length⟩ } →
        Owned d' ∧ view d' = { view d with pending := (view d).pending ++ src } := by
  obtain ⟨ht, b, hb, hlen⟩ := hr
  obtain ⟨heap, b', hw, hb', hlen', htake, hframe⟩ :=
    write_ok hb d.tempEntry.size src (by omega)
  have hpend : (view d).pending = b.take d.tempEntry.size := by simp [view, bytesOf, ht, hb]
  have hall : b' = b.take d.tempEntry.size ++ src := by
    rw [← htake, List.take_of_length_le (by omega)]
  have hq := h.temp_notMem ht
  have hother : ∀ p, p ≠ q → heap.block p =
      if p ∈ (stored d.buffer).filterMap BufferEntry.buffptr then d.heap.block p else none :=
    fun p hp => by rw [hframe p hp]; exact h.block_eq (by simpa [ht] using Ne.symm hp)
  have htemp : d.tempEntry = ⟨some q, d.tempEntry.size⟩ := by rw [← ht]
  have hold := h.of_temp d.tempEntry.size hq hb' (by omega) hother
  have hnew := h.of_temp (d.tempEntry.size + src.length) hq hb' (by omega) hother
  rw [← htemp] at hold
  refine ⟨heap, hw, ⟨hold.1, ?_⟩, by rw [hb', hall, hpend], fun d' hd => ?_⟩
  · rw [hold.2, hall, List.take_left' (by simp; omega), ← hpend]
  · rw [hd]
    refine ⟨hnew.1, ?_⟩
    rw [hnew.2, htake, hpend]

theorem fillTempEntry_fault {env : WriteEnv} {copied : ℕ} (hc : env.copy = some copied) :
    ∃ d', fillTempEntry d q buf env = some (-efault, d') ∧ Owned d' ∧ view d' = view d := by
  obtain ⟨heap, hw, ⟨hi, hv⟩, -⟩ := write_room h hr (length_copiedBytes buf copied)
  exact ⟨{ d with heap }, by simp [fillTempEntry, hc, hw], hi, hv⟩

/-- The copy succeeds: the bytes are pending, and complete a line if they end with a newline. -/
theorem fillTempEntry_ok {env : WriteEnv} (hc : env.copy = none) (hne : buf ≠ []) :
    ∃ d', fillTempEntry d q buf env =
        some (if buf.getLast? = some newline ∧ env.semKilled = true then -eintr else buf.length,
          d') ∧ Owned d' ∧
      view d' = if buf.getLast? = some newline ∧ env.semKilled = true then
        { view d with pending := (view d).pending ++ buf } else (view d).accept buf := by
  obtain ⟨heap, hw, -, hb, hcount⟩ := write_room h hr rfl
  obtain ⟨hi, hv⟩ := hcount _ rfl
  have hpend : (view d).pending.length = d.tempEntry.size := h.length_bytesOf (by simp)
  have hread : heap.read q (d.tempEntry.size + buf.length - 1) 1 = some [buf.getLast hne] := by
    have hpos := List.length_pos_iff.mpr hne
    have hlen : ((view d).pending ++ buf).length = d.tempEntry.size + buf.length := by
      rw [List.length_append, hpend]
    rw [read_eq hb (by omega), ← hlen, List.drop_length_sub_one (by simp [hne]),
      List.getLast_append_of_ne_nil _ hne]
    rfl
  have hlast : buf.getLast? = some newline ↔ buf.getLast hne = newline := by
    rw [List.getLast?_eq_getLast_of_ne_nil hne, Option.some.injEq]
  unfold fillTempEntry LineStore.accept
  simp only [hc, hw, hread, hlast, Option.bind_eq_bind, Option.bind_some]
  by_cases hnl : buf.getLast hne = newline
  · by_cases hsem : env.semKilled = true
    · exact ⟨_, by simp [hnl, hsem], hi, by simp [hnl, hsem, hv]⟩
    · obtain ⟨d', hcommit, hi', hv'⟩ := commitTempEntry_ok hi (q := q) rfl
      refine ⟨d', by simp [hnl, hsem, hcommit], hi', ?_⟩
      rw [hv', hv]
      simp [hnl, hsem]
  · exact ⟨_, by simp [hnl], hi, by simp [hnl, hv]⟩

end Room

/-! ### The call and its runs -/

theorem aesdWrite_refines {d : AesdDev} (h : Owned d) (buf : Bytes) (env : WriteEnv) :
    ∃ d', aesdWrite d buf env = some (((view d).write buf env).1, d') ∧ Owned d' ∧
      view d' = ((view d).write buf env).2 := by
  unfold aesdWrite LineStore.write
  by_cases hlen : buf.length = 0
  · exact ⟨d, by simp [hlen], h, by simp [hlen]⟩
  by_cases hmutex : env.mutexKilled = true
  · exact ⟨d, by simp [hlen, hmutex], h, by simp [hlen, hmutex]⟩
  have hne : buf ≠ [] := fun hb => hlen (by simp [hb])
  simp only [hlen, hmutex, if_false]
  by_cases halloc : env.alloc.isOk = true
  · obtain ⟨q, heap, b, hgrow, hq, hb, hblen, htake, hframe⟩ :=
      growTempEntry_ok h halloc buf.length
    obtain ⟨hi, hv⟩ := h.of_temp d.tempEntry.size hq hb (by omega) hframe
    have hr : Room { d with heap, tempEntry := ⟨some q, d.tempEntry.size⟩ } q buf.length :=
      ⟨rfl, b, hb, hblen⟩
    have hv' : view { d with heap, tempEntry := ⟨some q, d.tempEntry.size⟩ } = view d := by
      rw [hv, htake]
    simp only [hgrow, halloc, Option.bind_eq_bind, Option.bind_some]
    rcases hc : env.copy with _ | copied
    · obtain ⟨d', hf, hi', hview⟩ := fillTempEntry_ok hi hr hc hne
      refine ⟨d', ?_, hi', ?_⟩
      · rw [hf]; split_ifs <;> simp_all
      · rw [hview, hv']; split_ifs <;> simp_all
    · obtain ⟨d', hf, hi', hview⟩ := fillTempEntry_fault hi hr hc
      exact ⟨d', by simp [hf], hi', by simp [hview, hv']⟩
  · have hnull : env.alloc = .null := by
      rcases ha : env.alloc with _ | ⟨moved, fill⟩
      · rfl
      · rw [ha] at halloc; exact absurd rfl halloc
    obtain ⟨heap, hfree, hi, hv⟩ := free_temp h
    refine ⟨_, ?_, hi, ?_⟩
    · simp [hnull, growTempEntry_null h, hfree, Outcome.isOk]
    · rw [hv]; simp [hnull, Outcome.isOk]

/-- The calls of a run on the line store. -/
def LineStore.writes : LineStore → List (Bytes × WriteEnv) → List ℤ × LineStore
  | s, [] => ([], s)
  | s, (buf, env) :: calls =>
    let r := s.write buf env
    let rs := LineStore.writes r.2 calls
    (r.1 :: rs.1, rs.2)

theorem writes_refines : ∀ {d : AesdDev}, Owned d → ∀ calls : List (Bytes × WriteEnv),
    ∃ d', writes d calls = some ((LineStore.writes (view d) calls).1, d') ∧ Owned d' ∧
      view d' = (LineStore.writes (view d) calls).2
  | d, h, [] => ⟨d, rfl, h, rfl⟩
  | d, h, (buf, env) :: calls => by
    obtain ⟨d₁, h₁, hi₁, hv₁⟩ := aesdWrite_refines h buf env
    obtain ⟨d₂, h₂, hi₂, hv₂⟩ := writes_refines hi₁ calls
    refine ⟨d₂, ?_, hi₂, ?_⟩
    · simp [writes, h₁, h₂, LineStore.writes, hv₁]
    · rw [hv₂, hv₁]; rfl

end Aesd.Driver.Write
