import Aesd.Driver.Beside

/-!
# The steps of `aesd_write`

Every step is matched by the atomic device. A write takes effect in the last step it makes under
`temp_entry_mutex` before it is to give it back, or before it gives back the semaphore.
-/

namespace Aesd.Driver.WriteSteps

open Aesd.Lib.Alloc Aesd.Lib.Alloc.Heap Aesd.Lib.Lock Aesd.Lib.Lts Aesd.Lib.Objects
open Aesd.Lib.SharedLock
open Aesd.Driver.Ring
open Aesd.Driver.Ring.CircularBuffer hiding init
open Aesd.Driver.Device Aesd.Driver.Store Aesd.Driver.Traversal
open Aesd.Driver.Write Aesd.Driver.Read Aesd.Driver.Calls Aesd.Driver.Atomic
open Aesd.Driver.SeekRace (ValidIn positionIn)
open Aesd.Driver.Beside

variable {ι : Type*}

/-- A write in which nothing fails. -/
def smoothEnv : WriteEnv := ⟨false, .ok false fun _ => 0, none, false⟩

/-- The pending write takes effect. -/
theorem write_takes_effect [DecidableEq ι] {buf : Bytes} {s' : State ι}
    {m : Atomic ι (Files ι) Call Result} {i : ι} (hst : m.status i = .pending (.write buf))
    (env : WriteEnv)
    (hrel : Rel s' ({ m with state := { m.state with store := (m.state.store.write buf env).2 } }.put
      i (.over ⟨(m.state.store.write buf env).1, []⟩))) : Matched lineStore Rel m none s' :=
  .effect hst (.write buf env) hrel

section Steps
variable [DecidableEq ι] {s s' : State ι} {m : Atomic ι (Files ι) Call Result} {i : ι} (h : Rel s m)
include h

theorem matched_lockTemp {buf : Bytes} (hpc : s.pc i = .lockTemp buf) {killed : Bool}
    (hs : s.lockTemp i buf killed = some s') : Matched lineStore Rel m none s' := by
  have hc := h.caller i
  rw [hpc] at hc
  obtain ⟨hpos, hst, hne⟩ := hc
  unfold State.lockTemp at hs
  split_ifs at hs with hkilled hfree
  · rw [← Option.some.inj hs]
    have hlen : buf.length ≠ 0 := by simpa using hne
    have hw : m.state.store.write buf { smoothEnv with mutexKilled := true } =
        (-eintr, m.state.store) := by simp [LineStore.write, hlen]
    refine write_takes_effect hst { smoothEnv with mutexKilled := true } ?_
    rw [hw]
    exact h.goto_outside (by rw [hpc]; rfl) rfl (by rw [hpc]; rfl) (by rw [hpc]; rfl)
      (fun j hj => m.put_status_of_ne hj _) rfl (fun _ _ => rfl) ⟨hpos, m.put_status i _⟩
  · rw [← Option.some.inj hs]
    have hself : ({ s with tempEntryMutex := some i }.goto i (.grow buf)).pc i = .grow buf :=
      Function.update_self _ _ _
    have hother : ∀ j, j ≠ i → ({ s with tempEntryMutex := some i }.goto i (.grow buf)).pc j =
        s.pc j := fun j hj => Function.update_of_ne hj _ _
    have hnone : Excl none fun j => locked (s.pc j) = true := hfree ▸ h.mutex
    refine .silent (h.of_step (i := i) h.sane hother (fun _ _ => rfl) (fun _ _ => rfl)
      (fun _ _ => rfl) ?_ (h.sem_keep (by rw [hpc]; rfl) (by rw [hpc]; rfl)) ?_ ?_
      (fun _ _ => ⟨rfl, rfl⟩) ?_)
    · exact hnone.take (u := i) (fun j hj => by rw [hother j hj]) (by rw [hself]; rfl)
    · intro hn
      cases hn
    · intro j hj
      rw [← Option.some.inj hj, hself]
      exact h.free hfree
    · rw [hself]
      exact ⟨hpos, hst, hne⟩

theorem matched_grow {buf : Bytes} (hpc : s.pc i = .grow buf) (o : Outcome UInt8) :
    Matched lineStore Rel m none ((s.grow i buf o).getD s.crash) := by
  have hc := h.caller i
  rw [hpc] at hc
  have hl : locked (s.pc i) = true := by rw [hpc]; rfl
  have hheld := h.heldAt hl
  rw [hpc] at hheld
  obtain ⟨howned, hview⟩ := hheld
  unfold State.grow
  rcases o with _ | ⟨moved, fill⟩
  · rw [growTempEntry_null howned]
    refine .silent (h.goto_inside _ hl rfl (by rw [hpc]; rfl) (fun _ _ => rfl) rfl ?_
      (fun _ => ⟨rfl, rfl⟩) hc)
    exact ⟨rfl, howned, hview⟩
  · obtain ⟨q, heap, b, hgrow, hq, hb, hblen, htake, hframe⟩ :=
      growTempEntry_ok howned (o := .ok moved fill) rfl buf.length
    obtain ⟨howned', hview'⟩ := howned.of_temp s.dev.tempEntry.size hq hb (by omega) hframe
    rw [hgrow]
    refine .silent (h.goto_inside _ hl rfl (by rw [hpc]; rfl) (fun _ _ => rfl) rfl ?_
      (fun _ => ⟨rfl, rfl⟩) hc)
    refine ⟨howned', ?_, q, rfl, b, hb, hblen⟩
    rw [hview', htake, ← hview]

theorem matched_giveUp {buf : Bytes} {old : Option ℕ} (hpc : s.pc i = .giveUp buf old) :
    Matched lineStore Rel m none ((s.giveUp i old).getD s.crash) := by
  have hc := h.caller i
  rw [hpc] at hc
  obtain ⟨hpos, hst, hne⟩ := hc
  have hl : locked (s.pc i) = true := by rw [hpc]; rfl
  have hheld := h.heldAt hl
  rw [hpc] at hheld
  obtain ⟨hnull, howned, hview⟩ := hheld
  obtain ⟨heap, hfree, howned', hview'⟩ := free_temp howned
  have hlen : buf.length ≠ 0 := by simpa using hne
  have hw : m.state.store.write buf { smoothEnv with alloc := .null } =
      (-enomem, { m.state.store with pending := [] }) := by
    simp [LineStore.write, smoothEnv, hlen, Outcome.isOk]
  unfold State.giveUp
  dsimp only at hfree
  rw [hfree, hnull]
  refine write_takes_effect hst { smoothEnv with alloc := .null } ?_
  rw [hw]
  refine h.goto_inside _ hl rfl (by rw [hpc]; rfl) (fun j hj => m.put_status_of_ne hj _) rfl
    ⟨howned', ?_⟩ (fun _ => ⟨rfl, rfl⟩) ⟨hpos, m.put_status i _⟩
  rw [← hview]
  exact hview'

theorem matched_copyIn {buf : Bytes} (hpc : s.pc i = .copyIn buf) (fault : Option ℕ) :
    Matched lineStore Rel m none ((s.copyIn i buf fault).getD s.crash) := by
  have hc := h.caller i
  rw [hpc] at hc
  have hl : locked (s.pc i) = true := by rw [hpc]; rfl
  have hheld := h.heldAt hl
  rw [hpc] at hheld
  obtain ⟨howned, hview, q, hroom⟩ := hheld
  have hq := hroom.buffptr_eq
  unfold State.copyIn
  rcases fault with _ | copied
  · obtain ⟨heap, hwrite, ⟨howned', hview'⟩, hblock, hcount⟩ := write_room howned hroom rfl
    rw [hq, Option.bind_some, hwrite]
    rw [hview] at hview' hblock hcount
    refine .silent (h.goto_inside _ hl rfl (by rw [hpc]; rfl) (fun _ _ => rfl) rfl ?_
      (fun _ => ⟨rfl, rfl⟩) hc)
    exact ⟨howned', hview', q, hq, hblock, hcount⟩
  · obtain ⟨hpos, hst, hne⟩ := hc
    obtain ⟨heap, hwrite, ⟨howned', hview'⟩, -⟩ :=
      write_room howned hroom (length_copiedBytes buf copied)
    have hlen : buf.length ≠ 0 := by simpa using hne
    have hw : m.state.store.write buf { smoothEnv with copy := some copied } =
        (-efault, m.state.store) := by
      simp [LineStore.write, smoothEnv, hlen, Outcome.isOk]
    rw [hq, Option.bind_some]
    dsimp only
    rw [hwrite]
    refine write_takes_effect hst { smoothEnv with copy := some copied } ?_
    rw [hw]
    exact h.goto_inside _ hl rfl (by rw [hpc]; rfl) (fun j hj => m.put_status_of_ne hj _) rfl
      ⟨howned', hview'.trans hview⟩ (fun _ => ⟨rfl, rfl⟩) ⟨hpos, m.put_status i _⟩

theorem matched_count {buf : Bytes} (hpc : s.pc i = .count buf) :
    Matched lineStore Rel m none (s.count i buf) := by
  have hc := h.caller i
  rw [hpc] at hc
  have hl : locked (s.pc i) = true := by rw [hpc]; rfl
  have hheld := h.heldAt hl
  rw [hpc] at hheld
  obtain ⟨-, -, q, hq, hblock, hcount⟩ := hheld
  obtain ⟨howned, hview⟩ := hcount _ rfl
  unfold State.count
  rw [hq]
  exact .silent (h.goto_inside _ hl rfl (by rw [hpc]; rfl) (fun _ _ => rfl) rfl
    ⟨howned, hview, q, rfl, hblock⟩ (fun _ => ⟨rfl, rfl⟩) hc)

theorem matched_test {buf : Bytes} (hpc : s.pc i = .test buf) :
    Matched lineStore Rel m none ((s.test i buf).getD s.crash) := by
  have hc := h.caller i
  rw [hpc] at hc
  obtain ⟨hpos, hst, hne⟩ := hc
  have hl : locked (s.pc i) = true := by rw [hpc]; rfl
  have hheld := h.heldAt hl
  rw [hpc] at hheld
  obtain ⟨howned, hview, q, hq, hblock⟩ := hheld
  have hsize : s.dev.tempEntry.size = (m.state.store.pending ++ buf).length := by
    rw [← howned.length_bytesOf List.mem_cons_self]
    exact congrArg (fun s => s.pending.length) hview
  have hread : s.dev.heap.read q (s.dev.tempEntry.size - 1) 1 = some [buf.getLast hne] := by
    have hpos := List.length_pos_iff.mpr hne
    have hlen : (m.state.store.pending ++ buf).length = m.state.store.pending.length + buf.length :=
      List.length_append
    rw [read_eq hblock (by omega), hsize, List.drop_length_sub_one (by simp [hne]),
      List.getLast_append_of_ne_nil _ hne]
    rfl
  have hlast : buf.getLast? = some newline ↔ buf.getLast hne = newline := by
    rw [List.getLast?_eq_getLast_of_ne_nil hne, Option.some.injEq]
  unfold State.test
  rw [hq, Option.bind_some, hread, Option.map_some, Option.getD_some]
  by_cases hnl : buf.getLast hne = newline
  · rw [if_neg (by simp [hnl])]
    exact .silent (h.goto_inside s.dev hl rfl (by rw [hpc]; rfl) (fun _ _ => rfl) rfl
      ⟨hlast.mpr hnl, ⟨q, hq⟩, howned, hview⟩ (fun _ => ⟨rfl, rfl⟩) ⟨hpos, hst, hne⟩)
  · rw [if_pos (by simp [hnl])]
    have hlen : buf.length ≠ 0 := by simpa using hne
    have hno : ¬ buf.getLast? = some newline := fun hyes => hnl (hlast.mp hyes)
    have hw : m.state.store.write buf smoothEnv =
        ((buf.length : ℤ), ⟨m.state.store.entries, m.state.store.pending ++ buf⟩) := by
      simp [LineStore.write, LineStore.accept, smoothEnv, hlen, hno, Outcome.isOk]
    refine write_takes_effect hst smoothEnv ?_
    rw [hw]
    exact h.goto_inside s.dev hl rfl (by rw [hpc]; rfl)
      (fun j hj => m.put_status_of_ne hj _) rfl ⟨howned, hview⟩ (fun _ => ⟨rfl, rfl⟩)
      ⟨hpos, m.put_status i _⟩

theorem matched_downWrite {buf : Bytes} (hpc : s.pc i = .downWrite buf) {killed : Bool}
    (hs : s.downWrite i buf killed = some s') : Matched lineStore Rel m none s' := by
  have hc := h.caller i
  rw [hpc] at hc
  have hl : locked (s.pc i) = true := by rw [hpc]; rfl
  have hheld := h.heldAt hl
  rw [hpc] at hheld
  unfold State.downWrite at hs
  split_ifs at hs with hkilled
  · obtain ⟨hpos, hst, hne⟩ := hc
    have hlen : buf.length ≠ 0 := by simpa using hne
    have hw : m.state.store.write buf { smoothEnv with semKilled := true } =
        (-eintr, { m.state.store with pending := m.state.store.pending ++ buf }) := by
      simp [LineStore.write, smoothEnv, hlen, hheld.newline, Outcome.isOk]
    rw [← Option.some.inj hs]
    refine write_takes_effect hst { smoothEnv with semKilled := true } ?_
    rw [hw]
    exact h.goto_inside s.dev hl rfl (by rw [hpc]; rfl) (fun j hj => m.put_status_of_ne hj _) rfl
      ⟨hheld.owned, hheld.view⟩ (fun _ => ⟨rfl, rfl⟩) ⟨hpos, m.put_status i _⟩
  · obtain ⟨l, hlock, rfl⟩ := Option.map_eq_some_iff.mp hs
    have hself : ({ s with circularBufferSemaphore := l }.goto i (.add buf)).pc i = .add buf :=
      Function.update_self _ _ _
    have hother : ∀ j, j ≠ i →
        ({ s with circularBufferSemaphore := l }.goto i (.add buf)).pc j = s.pc j :=
      fun j hj => Function.update_of_ne hj _ _
    refine .silent (h.inside (i := i) h.sane hother rfl rfl (fun _ _ => rfl) rfl hl
      (by rw [hself]; rfl) ?_ ?_ (fun _ => ⟨rfl, rfl⟩) ?_)
    · refine h.sem.downWrite hlock (fun j hj => by rw [hother j hj]) ?_
        (fun j hj => by rw [hother j hj]) ?_
      · rw [hself, hpc]
        rfl
      · rw [hself]
        rfl
    · rw [hself]
      exact hheld
    · rw [hself]
      exact hc

theorem matched_add {buf : Bytes} (hpc : s.pc i = .add buf) :
    Matched lineStore Rel m none (s.add i buf) := by
  have hc := h.caller i
  rw [hpc] at hc
  have hl : locked (s.pc i) = true := by rw [hpc]; rfl
  have hheld := h.heldAt hl
  rw [hpc] at hheld
  refine .silent (h.goto_inside _ hl rfl (by rw [hpc]; rfl) (fun _ _ => rfl) rfl
    ⟨s.dev, hheld, rfl, rfl, rfl⟩ (fun hw => ?_) hc)
  rw [hpc] at hw
  cases hw

theorem matched_free {buf : Bytes} {returned : Option ℕ} (hpc : s.pc i = .free buf returned) :
    Matched lineStore Rel m none ((s.free i buf returned).getD s.crash) := by
  have hc := h.caller i
  rw [hpc] at hc
  have hl : locked (s.pc i) = true := by rw [hpc]; rfl
  have hheld := h.heldAt hl
  rw [hpc] at hheld
  obtain ⟨d₀, hfull, hheap, htemp, hadd⟩ := hheld
  obtain ⟨q, hq⟩ := hfull.temp
  obtain ⟨heap, hfree, -⟩ := free_evicted hfull.owned hq
  rw [hadd, ← hheap] at hfree
  dsimp only at hfree
  unfold State.free
  rw [hfree]
  refine .silent (h.goto_inside _ hl rfl (by rw [hpc]; rfl) (fun _ _ => rfl) rfl ?_
    (fun hw => ?_) hc)
  · refine ⟨d₀, hfull, ?_⟩
    simp [commitTempEntry, hadd, ← hheap, hfree]
  · rw [hpc] at hw
    cases hw

theorem matched_clear {buf : Bytes} (hpc : s.pc i = .clear buf) :
    Matched lineStore Rel m none (s.clear i buf) := by
  have hc := h.caller i
  rw [hpc] at hc
  obtain ⟨hpos, hst, hne⟩ := hc
  have hl : locked (s.pc i) = true := by rw [hpc]; rfl
  have hheld := h.heldAt hl
  rw [hpc] at hheld
  obtain ⟨d₀, hfull, hcommit⟩ := hheld
  obtain ⟨q, hq⟩ := hfull.temp
  obtain ⟨d', hd', howned, hview⟩ := commitTempEntry_ok hfull.owned hq
  obtain rfl : d' = { s.dev with tempEntry := BufferEntry.null } :=
    Option.some.inj (hd'.symm.trans hcommit)
  rw [hfull.view] at hview
  have hlen : buf.length ≠ 0 := by simpa using hne
  have hw : m.state.store.write buf smoothEnv = ((buf.length : ℤ),
      ⟨(m.state.store.entries ++ [m.state.store.pending ++ buf]).rtake maxWriteOperationsSupported,
        []⟩) := by
    simp [LineStore.write, LineStore.accept, smoothEnv, hlen, hfull.newline, Outcome.isOk]
  refine write_takes_effect hst smoothEnv ?_
  rw [hw]
  refine h.goto_inside _ hl rfl (by rw [hpc]; rfl) (fun j hj => m.put_status_of_ne hj _) rfl
    ⟨howned, hview⟩ (fun hw => ?_) ⟨hpos, m.put_status i _⟩
  rw [hpc] at hw
  cases hw

theorem matched_upWrite {retval : ℤ} (hpc : s.pc i = .upWrite retval) :
    Matched lineStore Rel m none (s.upWrite i retval) := by
  have hc := h.caller i
  rw [hpc] at hc
  have hl : locked (s.pc i) = true := by rw [hpc]; rfl
  have hheld := h.heldAt hl
  rw [hpc] at hheld
  have hself : (s.upWrite i retval).pc i = .unlockTemp retval := Function.update_self _ _ _
  have hother : ∀ j, j ≠ i → (s.upWrite i retval).pc j = s.pc j :=
    fun j hj => Function.update_of_ne hj _ _
  refine .silent (h.inside (i := i) h.sane hother rfl rfl (fun _ _ => rfl) rfl hl
    (by rw [hself]; rfl) ?_ ?_ (fun _ => ⟨rfl, rfl⟩) ?_)
  · refine h.sem.upWrite (fun j hj => by rw [hother j hj]) ?_ (fun j hj => by rw [hother j hj])
      (by rw [hpc]; rfl) ?_
    · rw [hself, hpc]
      rfl
    · rw [hself]
      simp [writing]
  · rw [hself]
    exact hheld
  · rw [hself]
    exact hc

theorem matched_unlockTemp {retval : ℤ} (hpc : s.pc i = .unlockTemp retval) :
    Matched lineStore Rel m none (s.unlockTemp i retval) := by
  have hc := h.caller i
  rw [hpc] at hc
  have hl : locked (s.pc i) = true := by rw [hpc]; rfl
  have hheld := h.heldAt hl
  rw [hpc] at hheld
  have hself : (s.unlockTemp i retval).pc i = .ret ⟨retval, []⟩ := Function.update_self _ _ _
  have hother : ∀ j, j ≠ i → (s.unlockTemp i retval).pc j = s.pc j :=
    fun j hj => Function.update_of_ne hj _ _
  refine .silent (h.of_step (i := i) h.sane hother (fun _ _ => rfl) (fun _ _ => rfl)
    (fun _ _ => rfl) ?_ (h.sem_keep (by rw [hpc]; rfl) (by rw [hpc]; rfl)) (fun _ => hheld) ?_
    (fun _ _ => ⟨rfl, rfl⟩) ?_)
  · refine h.mutex.give (u := i) (fun j hj => by rw [hother j hj]) hl ?_
    rw [hself]
    simp [locked]
  · intro j hj
    cases hj
  · rw [hself]
    exact hc

end Steps

end Aesd.Driver.WriteSteps
