import Aesd.Driver.Beside

/-!
# The steps of the other calls

Every step is matched by the atomic device. A read takes effect at the end of its loop, a seek when it has
found the end of the content, both under the semaphore; `aesd_ioctl` looks its command up under the
semaphore and goes on as a seek.
-/

namespace Aesd.Driver.ReadSteps

open Aesd.Lib.Alloc Aesd.Lib.Alloc.Heap Aesd.Lib.Lock Aesd.Lib.Lts Aesd.Lib.Objects
open Aesd.Lib.SharedLock
open Aesd.Driver.Ring
open Aesd.Driver.Ring.CircularBuffer hiding init
open Aesd.Driver.Device Aesd.Driver.Store Aesd.Driver.Traversal
open Aesd.Driver.Write Aesd.Driver.Read Aesd.Driver.Calls Aesd.Driver.Atomic
open Aesd.Driver.SeekRace (ValidIn positionIn)
open Aesd.Driver.Beside

variable {ι : Type*}

section Steps
variable [DecidableEq ι] {s s' : State ι} {m : Atomic ι (Files ι) Call Result} {i : ι} (h : Rel s m)
include h

theorem matched_downRead {charOffset : ℕ} {ubuf : Bytes} (hpc : s.pc i = .downRead charOffset ubuf)
    {killed : Bool} (hs : s.downRead i killed (.ret ⟨-eintr, ubuf⟩)
      (.find ubuf.length 0 charOffset ubuf) = some s') : Matched lineStore Rel m none s' := by
  have hc := h.caller i
  rw [hpc] at hc
  obtain ⟨hpos, hst, hoff⟩ := hc
  unfold State.downRead at hs
  split_ifs at hs
  · exact Option.some.inj hs ▸ .effect hst (.readKilled ubuf)
      (h.goto_over (by rw [hpc]; rfl) (by rw [hpc]; rfl) (by rw [hpc]; rfl) hpos)
  · obtain ⟨l, hlock, rfl⟩ := Option.map_eq_some_iff.mp hs
    refine .silent (h.goto_downRead hlock (by rw [hpc]; rfl) (by rw [hpc]; rfl) rfl rfl rfl
      ⟨hpos, ubuf, hst, hoff, Nat.zero_add _, Nat.zero_le _, ?_⟩)
    rw [List.take_zero, overlay_nil]

/-- The read has delivered all it can. -/
theorem matched_readEnd {ubuf ubuf' : Bytes} {count retval charOffset : ℕ}
    (hl : locked (s.pc i) = false) (hr : reading (s.pc i) = true) (hw : writing (s.pc i) = false)
    (hst : m.status i = .pending (.read ubuf))
    (hread : Reading m.state.store.entries.flatten (m.state.fpos i) ubuf count retval charOffset ubuf')
    (hend : count = 0 ∨ m.state.store.entries.flatten.drop charOffset = []) :
    Matched lineStore Rel m none (s.goto i (.upRead retval charOffset ubuf')) := by
  obtain ⟨hoff, hcount, hwithin, hdel⟩ := hread
  have hw' : sliceOf m.state.store (m.state.fpos i) ubuf.length =
      (m.state.store.entries.flatten.drop (m.state.fpos i)).take retval := by
    unfold sliceOf
    rcases hend with hzero | hnil
    · rw [← hcount, hzero, Nat.add_zero]
    · rw [hoff, ← List.drop_drop, List.drop_eq_nil_iff] at hnil
      rw [List.take_of_length_le (by omega), List.take_of_length_le hnil]
  have hlen : ((m.state.store.entries.flatten.drop (m.state.fpos i)).take retval).length = retval := by
    rw [List.length_take, min_eq_left hwithin]
  refine .effect hst (.read ubuf hw'.symm) ?_
  rw [hlen, ← hdel]
  refine h.goto_outside hl rfl hr.symm hw.symm (fun j hj => Atomic.put_status_of_ne _ hj _) rfl
    (fun _ hj => Function.update_of_ne hj _ _) ⟨?_, Atomic.put_status _ i _⟩
  rw [hoff]
  exact Function.update_self _ _ _

theorem matched_find {count retval charOffset : ℕ} {ubuf' : Bytes}
    (hpc : s.pc i = .find count retval charOffset ubuf') :
    Matched lineStore Rel m none (s.find i count retval charOffset ubuf') := by
  have hc := h.caller i
  rw [hpc] at hc
  obtain ⟨hpos, ubuf, hst, hread⟩ := hc
  have hreader : reading (s.pc i) = true := by rw [hpc]; rfl
  obtain ⟨tempEntry, howned, hentries⟩ := h.shown (h.sem.no_writer hreader)
  unfold State.find
  split_ifs with hzero
  · exact matched_readEnd h (by rw [hpc]; rfl) hreader (by rw [hpc]; rfl) hst hread (.inl hzero)
  rcases hf : s.dev.buffer.findEntryOffsetForFpos charOffset with _ | ⟨entry, entryOffset⟩
  · have hnil := findEntry_none howned hf
    unfold content at hnil
    rw [hentries] at hnil
    exact matched_readEnd h (by rw [hpc]; rfl) hreader (by rw [hpc]; rfl) hst hread (.inr hnil)
  · exact .silent (h.goto_outside (by rw [hpc]; rfl) rfl (by rw [hpc]; rfl) (by rw [hpc]; rfl)
      (fun _ _ => rfl) rfl (fun _ _ => rfl) ⟨hpos, ubuf, hst, hread, hzero, hf, rfl⟩)

theorem matched_copyOut {entry entryOffset copySize count retval charOffset : ℕ} {ubuf' : Bytes}
    (hpc : s.pc i = .copyOut entry entryOffset copySize count retval charOffset ubuf')
    (fault : Option ℕ) :
    Matched lineStore Rel m none
      ((s.copyOut i entry entryOffset copySize count retval charOffset ubuf' fault).getD s.crash) := by
  have hc := h.caller i
  rw [hpc] at hc
  obtain ⟨hpos, ubuf, hst, hread, hzero, hf, hsize⟩ := hc
  have hreader : reading (s.pc i) = true := by rw [hpc]; rfl
  obtain ⟨tempEntry, howned, hentries⟩ := h.shown (h.sem.no_writer hreader)
  have hlt := findEntryOffsetForFpos_lt hf
  obtain ⟨hsrc, hle⟩ := findEntry_some howned hf (n := copySize) (hsize ▸ min_le_right _ _)
  unfold content at hsrc hle
  rw [hentries] at hsrc hle
  dsimp only at hsrc
  have hcount : copySize ≤ count := hsize ▸ min_le_left _ _
  unfold State.copyOut
  rw [hsrc, Option.map_some, Option.getD_some]
  rcases fault with _ | copied
  · exact .silent (h.goto_outside (by rw [hpc]; rfl) rfl (by rw [hpc]; rfl) (by rw [hpc]; rfl)
      (fun _ _ => rfl) rfl (fun _ _ => rfl) ⟨hpos, ubuf, hst, hread.advance hcount hle⟩)
  · have hroom := hread.count
    have hwithin := hread.within
    rw [hread.offset, ← List.drop_drop, List.length_drop] at hle
    have hprefix : (m.state.store.entries.flatten.drop (m.state.fpos i)).take
        (retval + min copied copySize) <+: sliceOf m.state.store (m.state.fpos i) ubuf.length :=
      List.take_prefix_take_left (by omega)
    refine .effect hst (.readFault ubuf (n := retval) hprefix ?_ ?_) ?_
    · rw [List.length_take]
      omega
    · unfold sliceOf
      rw [List.length_take]
      omega
    rw [← hread.overlay_eq, ← List.take_take]
    refine h.goto_outside (by rw [hpc]; rfl) rfl (by rw [hpc]; rfl) (by rw [hpc]; rfl)
      (fun j hj => Atomic.put_status_of_ne _ hj _) rfl
      (fun _ hj => Function.update_of_ne hj _ _) ⟨?_, Atomic.put_status _ i _⟩
    rw [hread.offset]
    exact Function.update_self _ _ _

theorem matched_upRead {retval : ℤ} {charOffset : ℕ} {ubuf : Bytes}
    (hpc : s.pc i = .upRead retval charOffset ubuf) :
    Matched lineStore Rel m none (s.upRead i (.setPos retval charOffset ubuf)) := by
  have hc := h.caller i
  rw [hpc] at hc
  exact .silent (h.goto_upRead (by rw [hpc]; rfl) (by rw [hpc]; rfl) (by rw [hpc]; rfl) rfl rfl rfl hc)

theorem matched_setPos {retval : ℤ} {charOffset : ℕ} {ubuf : Bytes}
    (hpc : s.pc i = .setPos retval charOffset ubuf) :
    Matched lineStore Rel m none (s.setPos i retval charOffset ubuf) := by
  have hc := h.caller i
  rw [hpc] at hc
  obtain ⟨hpos, hst⟩ := hc
  exact .silent (h.goto_moved (by rw [hpc]; rfl) (by rw [hpc]; rfl) (by rw [hpc]; rfl)
    (by rw [hpos]) hst)

theorem matched_downSeek {offset whence : ℤ} (hpc : s.pc i = .downSeek offset whence)
    {killed : Bool} (hs : s.downRead i killed (.ret ⟨-eintr, []⟩) (.findEOF offset whence) = some s') :
    Matched lineStore Rel m none s' := by
  have hc := h.caller i
  rw [hpc] at hc
  obtain ⟨hpos, hst⟩ := hc
  unfold State.downRead at hs
  split_ifs at hs
  · exact Option.some.inj hs ▸ .effect hst (.llseekKilled offset whence)
      (h.goto_over (by rw [hpc]; rfl) (by rw [hpc]; rfl) (by rw [hpc]; rfl) hpos)
  · obtain ⟨l, hlock, rfl⟩ := Option.map_eq_some_iff.mp hs
    exact .silent (h.goto_downRead hlock (by rw [hpc]; rfl) (by rw [hpc]; rfl) rfl rfl rfl ⟨hpos, hst⟩)

theorem matched_findEOF {offset whence : ℤ} (hpc : s.pc i = .findEOF offset whence) :
    Matched lineStore Rel m none (s.goto i (.upSeek offset whence s.dev.buffer.findEOFOffset)) := by
  have hc := h.caller i
  rw [hpc] at hc
  obtain ⟨hpos, hst⟩ := hc
  have hreader : reading (s.pc i) = true := by rw [hpc]; rfl
  obtain ⟨tempEntry, howned, hentries⟩ := h.shown (h.sem.no_writer hreader)
  have heof := findEOFOffset_view howned
  unfold content at heof
  rw [hentries] at heof
  dsimp only at heof
  have hnn := seekFrom_nonneg (Int.natCast_nonneg (m.state.fpos i)) offset whence
    s.dev.buffer.findEOFOffset
  refine .effect hst (.llseek offset whence (by rw [← heof])) ?_
  refine h.goto_outside (by rw [hpc]; rfl) rfl (by rw [hpc]; rfl) (by rw [hpc]; rfl)
    (fun j hj => Atomic.put_status_of_ne _ hj _) rfl
    (fun _ hj => Function.update_of_ne hj _ _) ⟨?_, ?_⟩
  · have hmove : (m.state.move i (seekFrom (m.state.fpos i) offset whence
        s.dev.buffer.findEOFOffset).2.toNat).fpos i = _ := Function.update_self _ _ _
    rw [hpos, Atomic.put_state, hmove, Int.toNat_of_nonneg hnn]
  · rw [Atomic.put_status, hpos]
    rfl

theorem matched_upSeek {offset whence : ℤ} {eofOffset : ℕ}
    (hpc : s.pc i = .upSeek offset whence eofOffset) :
    Matched lineStore Rel m none (s.upRead i (.seek offset whence eofOffset)) := by
  have hc := h.caller i
  rw [hpc] at hc
  exact .silent (h.goto_upRead (by rw [hpc]; rfl) (by rw [hpc]; rfl) (by rw [hpc]; rfl) rfl rfl rfl hc)

theorem matched_seek {offset whence : ℤ} {eofOffset : ℕ}
    (hpc : s.pc i = .seek offset whence eofOffset) :
    Matched lineStore Rel m none (s.seek i offset whence eofOffset) := by
  have hc := h.caller i
  rw [hpc] at hc
  obtain ⟨hpos, hst⟩ := hc
  exact .silent (h.goto_moved (by rw [hpc]; rfl) (by rw [hpc]; rfl) (by rw [hpc]; rfl) hpos hst)

theorem matched_copyCmd {seekto : Seekto} (hpc : s.pc i = .copyCmd seekto) (fault : Option ℕ) :
    Matched lineStore Rel m none
      (s.goto i (if fault = none then .downIoctl seekto else .ret ⟨-efault, []⟩)) := by
  have hc := h.caller i
  rw [hpc] at hc
  obtain ⟨hpos, hst⟩ := hc
  split_ifs
  · exact .silent (h.goto_outside (by rw [hpc]; rfl) rfl (by rw [hpc]; rfl) (by rw [hpc]; rfl)
      (fun _ _ => rfl) rfl (fun _ _ => rfl) ⟨hpos, hst⟩)
  · exact .effect hst (.ioctlFault seekto)
      (h.goto_over (by rw [hpc]; rfl) (by rw [hpc]; rfl) (by rw [hpc]; rfl) hpos)

theorem matched_downIoctl {seekto : Seekto} (hpc : s.pc i = .downIoctl seekto) {killed : Bool}
    (hs : s.downRead i killed (.ret ⟨-eintr, []⟩) (.findAbsolute seekto) = some s') :
    Matched lineStore Rel m none s' := by
  have hc := h.caller i
  rw [hpc] at hc
  obtain ⟨hpos, hst⟩ := hc
  unfold State.downRead at hs
  split_ifs at hs
  · exact Option.some.inj hs ▸ .effect hst (.ioctlKilled seekto)
      (h.goto_over (by rw [hpc]; rfl) (by rw [hpc]; rfl) (by rw [hpc]; rfl) hpos)
  · obtain ⟨l, hlock, rfl⟩ := Option.map_eq_some_iff.mp hs
    exact .silent (h.goto_downRead hlock (by rw [hpc]; rfl) (by rw [hpc]; rfl) rfl rfl rfl ⟨hpos, hst⟩)

theorem matched_findAbsolute {seekto : Seekto} (hpc : s.pc i = .findAbsolute seekto) :
    Matched lineStore Rel m none (s.goto i (.upIoctl (s.dev.buffer.findAbsoluteOffset
      seekto.writeCmd.toNat seekto.writeCmdOffset.toNat))) := by
  have hc := h.caller i
  rw [hpc] at hc
  obtain ⟨hpos, hst⟩ := hc
  have hreader : reading (s.pc i) = true := by rw [hpc]; rfl
  obtain ⟨tempEntry, howned, hentries⟩ := h.shown (h.sem.no_writer hreader)
  have habs := findAbsoluteOffset_view howned seekto.writeCmd.toNat seekto.writeCmdOffset.toNat
  rw [hentries] at habs
  dsimp only at habs
  by_cases hv : ValidIn m.state.store seekto
  · have hcast : s.dev.buffer.findAbsoluteOffset seekto.writeCmd.toNat seekto.writeCmdOffset.toNat =
        (positionIn m.state.store seekto : ℤ) := by
      unfold ValidIn at hv
      rw [habs, if_pos hv]
      unfold positionIn
      push_cast
      rfl
    rw [hcast]
    refine .effect hst (.ioctl hv) (h.goto_outside (by rw [hpc]; rfl) rfl (by rw [hpc]; rfl)
      (by rw [hpc]; rfl) (fun j hj => Atomic.put_status_of_ne _ hj _) rfl (fun _ _ => rfl)
      ⟨hpos, ?_⟩)
    rw [Atomic.put_status, if_neg (by omega)]
    rfl
  · have hinvalid := hv
    unfold ValidIn at hinvalid
    rw [habs, if_neg hinvalid]
    exact .effect hst (.ioctlInvalid hv) (h.goto_outside (by rw [hpc]; rfl) rfl (by rw [hpc]; rfl)
      (by rw [hpc]; rfl) (fun j hj => Atomic.put_status_of_ne _ hj _) rfl (fun _ _ => rfl)
      ⟨hpos, Atomic.put_status _ i _⟩)

theorem matched_upIoctl {absoluteOffset : ℤ} (hpc : s.pc i = .upIoctl absoluteOffset) :
    Matched lineStore Rel m none (s.upRead i
      (if absoluteOffset < 0 then .ret ⟨-einval, []⟩ else .downSeek absoluteOffset seekSet)) := by
  have hc := h.caller i
  rw [hpc] at hc
  obtain ⟨hpos, hst⟩ := hc
  split_ifs at hst ⊢
  · exact .silent (h.goto_upRead (by rw [hpc]; rfl) (by rw [hpc]; rfl) (by rw [hpc]; rfl) rfl rfl rfl
      ⟨hpos, hst⟩)
  · exact .silent (h.goto_upRead (by rw [hpc]; rfl) (by rw [hpc]; rfl) (by rw [hpc]; rfl) rfl rfl rfl
      ⟨hpos, hst⟩)

end Steps

end Aesd.Driver.ReadSteps
