import Aesd.Driver.Atomic

/-!
# The driver beside the atomic device

`Rel` relates a state of the driver to one of the atomic device. While `temp_entry_mutex` is free the
device shows the line store; while it is held, `Held` says how far the holder is. A reader relies on the
buffer only, which is changed under the semaphore; `Reading` says how far it is. The lemmas say what a
step of one opener has to keep.
-/

namespace Aesd.Driver.Beside

open Aesd.Lib.Alloc Aesd.Lib.Alloc.Heap Aesd.Lib.Lock Aesd.Lib.Lts Aesd.Lib.Objects
open Aesd.Lib.SharedLock
open Aesd.Driver.Ring
open Aesd.Driver.Ring.CircularBuffer hiding init
open Aesd.Driver.Device Aesd.Driver.Store Aesd.Driver.Traversal
open Aesd.Driver.Write Aesd.Driver.Read Aesd.Driver.Calls Aesd.Driver.Atomic
open Aesd.Driver.SeekRace (ValidIn positionIn)

/-! ### Places -/

/-- The opener holds `temp_entry_mutex`. -/
def locked : Pc → Bool
  | .grow _ | .giveUp .. | .copyIn _ | .count _ | .test _ | .downWrite _ | .add _ | .free ..
  | .clear _ | .upWrite _ | .unlockTemp _ => true
  | _ => false

/-- The opener holds the semaphore for writing. -/
def writing : Pc → Bool
  | .add _ | .free .. | .clear _ | .upWrite _ => true
  | _ => false

/-- The opener holds the semaphore for reading. -/
def reading : Pc → Bool
  | .find .. | .copyOut .. | .upRead .. | .findEOF .. | .upSeek .. | .findAbsolute _
  | .upIoctl _ => true
  | _ => false

/-- The opener's next steps look at the buffer. -/
def looking : Pc → Bool
  | .find .. | .copyOut .. => true
  | _ => false

theorem reading_of_looking {pc : Pc} (h : looking pc = true) : reading pc = true := by
  cases pc <;> first | rfl | cases h

/-! ### How far a call is -/

/-- The line is complete, and `temp_entry` is about to move into the buffer. -/
structure Full (d : AesdDev) (s : LineStore) (buf : Bytes) : Prop where
  newline : buf.getLast? = some newline
  temp : ∃ q, d.tempEntry.buffptr = some q
  owned : Owned d
  view : view d = { s with pending := s.pending ++ buf }

/-- The device while a write is under way, `s` being the store without it. -/
def Held (d : AesdDev) (s : LineStore) : Pc → Prop
  | .grow _ | .upWrite _ | .unlockTemp _ => Owned d ∧ view d = s
  | .giveUp _ old => d.tempEntry.buffptr = none ∧
      Owned { d with tempEntry := ⟨old, d.tempEntry.size⟩ } ∧
      view { d with tempEntry := ⟨old, d.tempEntry.size⟩ } = s
  | .copyIn buf => Owned d ∧ view d = s ∧ ∃ q, Room d q buf.length
  | .count buf => Owned d ∧ view d = s ∧ ∃ q, d.tempEntry.buffptr = some q ∧
      d.heap.block q = some (s.pending ++ buf) ∧
      ∀ d', d' = { d with tempEntry := ⟨some q, d.tempEntry.size + buf.length⟩ } →
        Owned d' ∧ view d' = { s with pending := s.pending ++ buf }
  | .test buf => Owned d ∧ view d = { s with pending := s.pending ++ buf } ∧
      ∃ q, d.tempEntry.buffptr = some q ∧ d.heap.block q = some (s.pending ++ buf)
  | .downWrite buf | .add buf => Full d s buf
  | .free buf returned => ∃ d₀, Full d₀ s buf ∧ d.heap = d₀.heap ∧ d.tempEntry = d₀.tempEntry ∧
      d₀.buffer.addEntry d₀.tempEntry = (returned, d.buffer)
  | .clear buf => ∃ d₀, Full d₀ s buf ∧
      commitTempEntry d₀ = some { d with tempEntry := BufferEntry.null }
  | _ => False

/-- The loop of a read that was called at `pos` with the buffer `ubuf`, on the content `C`: it has
delivered `retval` bytes. -/
structure Reading (C : Bytes) (pos : ℕ) (ubuf : Bytes) (count retval charOffset : ℕ)
    (ubuf' : Bytes) : Prop where
  offset : charOffset = pos + retval
  count : retval + count = ubuf.length
  within : retval ≤ (C.drop pos).length
  delivered : ubuf' = overlay ubuf 0 ((C.drop pos).take retval)

theorem Reading.overlay_eq {C : Bytes} {pos count retval charOffset : ℕ} {ubuf ubuf' : Bytes}
    (h : Reading C pos ubuf count retval charOffset ubuf') (n : ℕ) :
    overlay ubuf' retval ((C.drop charOffset).take n) =
      overlay ubuf 0 ((C.drop pos).take (retval + n)) := by
  have hlen : ((C.drop pos).take retval).length = retval := by
    rw [List.length_take, min_eq_left h.within]
  have hover := overlay_overlay ubuf (Nat.zero_le _) ((C.drop pos).take retval)
    ((C.drop charOffset).take n)
  rw [hlen, Nat.zero_add, ← h.delivered] at hover
  rw [hover, h.offset, List.take_add, List.drop_drop]

theorem Reading.advance {C : Bytes} {pos count retval charOffset : ℕ} {ubuf ubuf' : Bytes}
    (h : Reading C pos ubuf count retval charOffset ubuf') {n : ℕ} (hn : n ≤ count)
    (hle : n ≤ (C.drop charOffset).length) :
    Reading C pos ubuf (count - n) (retval + n) (charOffset + n)
      (overlay ubuf' retval ((C.drop charOffset).take n)) where
  offset := by have := h.offset; omega
  count := by have := h.count; omega
  within := by
    have hw := h.within
    rw [h.offset, ← List.drop_drop, List.length_drop] at hle
    omega
  delivered := h.overlay_eq n

/-- Where an opener is, and what the object knows of its call: `fpos` and `pos` are its positions in
the driver and in the object. -/
def Caller (buffer : CircularBuffer) (s : LineStore) (fpos : ℤ) (pos : ℕ) (st : Status Call Result) :
    Pc → Prop
  | .idle => fpos = pos ∧ st = .idle
  | .enter c => fpos = pos ∧ st = .pending c
  | .lockTemp buf | .grow buf | .giveUp buf _ | .copyIn buf | .count buf | .test buf
  | .downWrite buf | .add buf | .free buf _ | .clear buf =>
      fpos = pos ∧ st = .pending (.write buf) ∧ buf ≠ []
  | .upWrite retval | .unlockTemp retval => fpos = pos ∧ st = .over ⟨retval, []⟩
  | .downRead charOffset ubuf => fpos = pos ∧ st = .pending (.read ubuf) ∧ charOffset = pos
  | .find count retval charOffset ubuf' => fpos = pos ∧ ∃ ubuf, st = .pending (.read ubuf) ∧
      Reading s.entries.flatten pos ubuf count retval charOffset ubuf'
  | .copyOut entry entryOffset copySize count retval charOffset ubuf' => fpos = pos ∧
      ∃ ubuf, st = .pending (.read ubuf) ∧
        Reading s.entries.flatten pos ubuf count retval charOffset ubuf' ∧ count ≠ 0 ∧
        buffer.findEntryOffsetForFpos charOffset = some (entry, entryOffset) ∧
        copySize = min count ((buffer.deref entry).size - entryOffset)
  | .upRead retval charOffset ubuf | .setPos retval charOffset ubuf =>
      pos = charOffset ∧ st = .over ⟨retval, ubuf⟩
  | .downSeek offset whence | .findEOF offset whence =>
      fpos = pos ∧ st = .pending (.llseek offset whence)
  | .upSeek offset whence eofOffset | .seek offset whence eofOffset =>
      (seekFrom fpos offset whence eofOffset).2 = pos ∧
        st = .over ⟨(seekFrom fpos offset whence eofOffset).1, []⟩
  | .copyCmd seekto | .downIoctl seekto | .findAbsolute seekto =>
      fpos = pos ∧ st = .pending (.ioctl aesdcharIocseekto seekto)
  | .upIoctl absoluteOffset => fpos = pos ∧
      st = if absoluteOffset < 0 then .over ⟨-einval, []⟩ else .pending (.llseek absoluteOffset seekSet)
  | .ret r => fpos = pos ∧ st = .over r

/-- An opener that does not look at the buffer does not mind its changes. -/
theorem Caller.congr {buffer buffer' : CircularBuffer} {s s' : LineStore} {fpos : ℤ} {pos : ℕ}
    {st : Status Call Result} {pc : Pc} (h : Caller buffer s fpos pos st pc)
    (hlook : looking pc = true → buffer' = buffer ∧ s'.entries = s.entries) :
    Caller buffer' s' fpos pos st pc := by
  cases pc with
  | find count retval charOffset ubuf =>
    obtain ⟨-, he⟩ := hlook rfl
    simpa only [Caller, he] using h
  | copyOut entry entryOffset copySize count retval charOffset ubuf =>
    obtain ⟨hb, he⟩ := hlook rfl
    simpa only [Caller, hb, he] using h
  | _ => exact h

theorem seekFrom_nonneg {fpos : ℤ} (h : 0 ≤ fpos) (offset whence : ℤ) (eofOffset : ℕ) :
    0 ≤ (seekFrom fpos offset whence eofOffset).2 := by
  have hto : ∀ z, 0 ≤ (seekTo z fpos eofOffset).2 := by
    intro z
    unfold seekTo
    split_ifs with hz
    · exact h
    · exact not_lt.mp fun hneg => hz (.inl hneg)
  unfold seekFrom
  split_ifs
  · exact hto _
  · exact hto _
  · exact hto _
  · exact h

variable {ι : Type*}

/-- **The state of the driver and that of the object.** -/
structure Rel (s : State ι) (m : Atomic ι (Files ι) Call Result) : Prop where
  sane : s.fault = false
  mutex : Excl s.tempEntryMutex fun i => locked (s.pc i) = true
  sem : Guards s.circularBufferSemaphore (fun i => reading (s.pc i) = true)
    fun i => writing (s.pc i) = true
  free : s.tempEntryMutex = none → Owned s.dev ∧ view s.dev = m.state.store
  held : ∀ i, s.tempEntryMutex = some i → Held s.dev m.state.store (s.pc i)
  caller : ∀ i, Caller s.dev.buffer m.state.store (s.fpos i) (m.state.fpos i) (m.status i) (s.pc i)

theorem rel_init : Rel (init ι) (.start (Files.init ι)) where
  sane := rfl
  mutex i := by simp [init, locked]
  sem := .of_free (by simp [init, reading]) (by simp [init, writing])
  free _ := ⟨inv_initModule, view_initModule⟩
  held i h := by cases h
  caller i := ⟨rfl, rfl⟩

section Rel
variable {s s' : State ι} {m m' : Atomic ι (Files ι) Call Result} {i : ι} (h : Rel s m)
include h

theorem Rel.holds (hl : locked (s.pc i) = true) : s.tempEntryMutex = some i := (h.mutex i).mp hl

theorem Rel.heldAt (hl : locked (s.pc i) = true) : Held s.dev m.state.store (s.pc i) :=
  h.held i (h.holds hl)

/-- Outside a writer's part, the buffer shows the lines of the store. -/
theorem Rel.shown (hw : s.circularBufferSemaphore.writer = none) :
    ∃ tempEntry, Owned { s.dev with tempEntry } ∧
      (view { s.dev with tempEntry }).entries = m.state.store.entries := by
  rcases hm : s.tempEntryMutex with _ | j
  · obtain ⟨howned, hview⟩ := h.free hm
    exact ⟨s.dev.tempEntry, howned, by rw [← hview]⟩
  · have hnot : ¬ writing (s.pc j) = true := fun hj => by
      have hj' := (h.sem.writer j).mp hj
      rw [hw] at hj'
      cases hj'
    have hheld := h.held j hm
    cases hpc : s.pc j with
    | grow | copyIn | count | unlockTemp =>
      rw [hpc] at hheld
      exact ⟨s.dev.tempEntry, hheld.1, by first | rw [← hheld.2] | rw [← hheld.2.1]⟩
    | test =>
      rw [hpc] at hheld
      exact ⟨s.dev.tempEntry, hheld.1, by rw [hheld.2.1]⟩
    | giveUp buf old =>
      rw [hpc] at hheld
      exact ⟨_, hheld.2.1, by rw [← hheld.2.2]⟩
    | downWrite =>
      rw [hpc] at hheld
      exact ⟨s.dev.tempEntry, hheld.owned, by rw [hheld.view]⟩
    | add | free | clear | upWrite => exact absurd (by rw [hpc]; rfl) hnot
    | _ =>
      rw [hpc] at hheld
      cases hheld

/-- **A step of `i`**: the others stay where they are; those that look at the buffer need it to stay. -/
theorem Rel.of_step (hsane : s'.fault = false) (hpc : ∀ j, j ≠ i → s'.pc j = s.pc j)
    (hfpos : ∀ j, j ≠ i → s'.fpos j = s.fpos j)
    (hpos : ∀ j, j ≠ i → m'.state.fpos j = m.state.fpos j)
    (hst : ∀ j, j ≠ i → m'.status j = m.status j)
    (hmutex : Excl s'.tempEntryMutex fun j => locked (s'.pc j) = true)
    (hsem : Guards s'.circularBufferSemaphore (fun j => reading (s'.pc j) = true)
      fun j => writing (s'.pc j) = true)
    (hfree : s'.tempEntryMutex = none → Owned s'.dev ∧ view s'.dev = m'.state.store)
    (hheld : ∀ j, s'.tempEntryMutex = some j → Held s'.dev m'.state.store (s'.pc j))
    (hlook : ∀ j, looking (s.pc j) = true →
      s'.dev.buffer = s.dev.buffer ∧ m'.state.store.entries = m.state.store.entries)
    (hcaller : Caller s'.dev.buffer m'.state.store (s'.fpos i) (m'.state.fpos i) (m'.status i)
      (s'.pc i)) : Rel s' m' := by
  refine ⟨hsane, hmutex, hsem, hfree, hheld, fun j => ?_⟩
  by_cases hj : j = i
  · rw [hj]
    exact hcaller
  · rw [hpc j hj, hfpos j hj, hpos j hj, hst j hj]
    exact (h.caller j).congr (hlook j)

theorem Rel.outside (hsane : s'.fault = false) (hpc : ∀ j, j ≠ i → s'.pc j = s.pc j)
    (hfpos : ∀ j, j ≠ i → s'.fpos j = s.fpos j)
    (hpos : ∀ j, j ≠ i → m'.state.fpos j = m.state.fpos j)
    (hst : ∀ j, j ≠ i → m'.status j = m.status j) (hdev : s'.dev = s.dev)
    (hmutex : s'.tempEntryMutex = s.tempEntryMutex) (hstore : m'.state.store = m.state.store)
    (hl : locked (s.pc i) = false) (hl' : locked (s'.pc i) = false)
    (hsem : Guards s'.circularBufferSemaphore (fun j => reading (s'.pc j) = true)
      fun j => writing (s'.pc j) = true)
    (hcaller : Caller s'.dev.buffer m'.state.store (s'.fpos i) (m'.state.fpos i) (m'.status i)
      (s'.pc i)) : Rel s' m' := by
  refine h.of_step hsane hpc hfpos hpos hst ?_ hsem ?_ ?_ ?_ hcaller
  · rw [hmutex]
    exact h.mutex.keep (u := i) (fun j hj => by rw [hpc j hj]) (by rw [hl, hl'])
  · rw [hmutex, hdev, hstore]
    exact h.free
  · intro j hj
    rw [hmutex] at hj
    have hji : j ≠ i := by
      rintro rfl
      rw [(h.mutex j).mpr hj] at hl
      cases hl
    rw [hpc j hji, hdev, hstore]
    exact h.held j hj
  · intro j _
    rw [hdev, hstore]
    exact ⟨rfl, rfl⟩

theorem Rel.inside (hsane : s'.fault = false) (hpc : ∀ j, j ≠ i → s'.pc j = s.pc j)
    (hfpos : s'.fpos = s.fpos) (hpos : m'.state.fpos = m.state.fpos)
    (hst : ∀ j, j ≠ i → m'.status j = m.status j)
    (hmutex : s'.tempEntryMutex = s.tempEntryMutex)
    (hl : locked (s.pc i) = true) (hl' : locked (s'.pc i) = true)
    (hsem : Guards s'.circularBufferSemaphore (fun j => reading (s'.pc j) = true)
      fun j => writing (s'.pc j) = true)
    (hheld : Held s'.dev m'.state.store (s'.pc i))
    (hlook : writing (s.pc i) = false →
      s'.dev.buffer = s.dev.buffer ∧ m'.state.store.entries = m.state.store.entries)
    (hcaller : Caller s'.dev.buffer m'.state.store (s'.fpos i) (m'.state.fpos i) (m'.status i)
      (s'.pc i)) : Rel s' m' := by
  have hholds := h.holds hl
  refine h.of_step hsane hpc (by simp [hfpos]) (by simp [hpos]) hst ?_ hsem ?_ ?_ ?_ hcaller
  · rw [hmutex]
    exact h.mutex.keep (u := i) (fun j hj => by rw [hpc j hj]) (by rw [hl, hl'])
  · rw [hmutex, hholds]
    intro hn
    cases hn
  · intro j hj
    rw [hmutex, hholds, Option.some.injEq] at hj
    exact hj ▸ hheld
  · intro j hj
    refine hlook ?_
    rw [← Bool.not_eq_true]
    exact fun hw => h.sem.apart hw j (reading_of_looking hj)

end Rel

section Goto
variable [DecidableEq ι] {s : State ι} {m m' : Atomic ι (Files ι) Call Result} {i : ι} (h : Rel s m)
include h

theorem Rel.sem_keep {pc : Pc} (hr : reading pc = reading (s.pc i))
    (hw : writing pc = writing (s.pc i)) :
    Guards s.circularBufferSemaphore (fun j => reading (Function.update s.pc i pc j) = true)
      fun j => writing (Function.update s.pc i pc j) = true := by
  refine h.sem.keep (u := i) (fun j hj => ?_) ?_ (fun j hj => ?_) ?_
  · rw [Function.update_of_ne hj]
  · rw [Function.update_self, hr]
  · rw [Function.update_of_ne hj]
  · rw [Function.update_self, hw]

theorem Rel.goto_outside {pc : Pc} (hl : locked (s.pc i) = false) (hl' : locked pc = false)
    (hr : reading pc = reading (s.pc i)) (hw : writing pc = writing (s.pc i))
    (hst : ∀ j, j ≠ i → m'.status j = m.status j) (hstore : m'.state.store = m.state.store)
    (hpos : ∀ j, j ≠ i → m'.state.fpos j = m.state.fpos j)
    (hcaller : Caller s.dev.buffer m.state.store (s.fpos i) (m'.state.fpos i) (m'.status i) pc) :
    Rel (s.goto i pc) m' := by
  have hself : (s.goto i pc).pc i = pc := Function.update_self _ _ _
  refine h.outside (i := i) h.sane (fun j hj => Function.update_of_ne hj _ _) (fun _ _ => rfl) hpos
    hst rfl rfl hstore hl (by rw [hself, hl']) (h.sem_keep hr hw) ?_
  rw [hself, hstore]
  exact hcaller

/-- The holder of `temp_entry_mutex` goes on at `pc`, having changed the device. -/
theorem Rel.goto_inside (dev : AesdDev) {pc : Pc} (hl : locked (s.pc i) = true)
    (hl' : locked pc = true) (hw : writing pc = writing (s.pc i))
    (hst : ∀ j, j ≠ i → m'.status j = m.status j) (hpos : m'.state.fpos = m.state.fpos)
    (hheld : Held dev m'.state.store pc)
    (hlook : writing (s.pc i) = false →
      dev.buffer = s.dev.buffer ∧ m'.state.store.entries = m.state.store.entries)
    (hcaller : Caller dev.buffer m'.state.store (s.fpos i) (m.state.fpos i) (m'.status i) pc) :
    Rel ({ s with dev }.goto i pc) m' := by
  have hself : ({ s with dev }.goto i pc).pc i = pc := Function.update_self _ _ _
  have hr : reading pc = reading (s.pc i) := by
    have hnot : ∀ pc, locked pc = true → reading pc = false := by
      intro pc hpc
      cases pc <;> first | rfl | cases hpc
    rw [hnot _ hl, hnot _ hl']
  refine h.inside (i := i) h.sane (fun j hj => Function.update_of_ne hj _ _) rfl hpos hst rfl hl
    (by rw [hself, hl']) (h.sem_keep hr hw) ?_ hlook ?_
  · rw [hself]
    exact hheld
  · rw [hself, hpos]
    exact hcaller

theorem Rel.goto_downRead {l : RwLock ι} (hlock : s.circularBufferSemaphore.downRead i = some l)
    {pc : Pc} (hl : locked (s.pc i) = false) (hw : writing (s.pc i) = false) (hr : reading pc = true)
    (hw' : writing pc = false) (hl' : locked pc = false)
    (hcaller : Caller s.dev.buffer m.state.store (s.fpos i) (m.state.fpos i) (m.status i) pc) :
    Rel ({ s with circularBufferSemaphore := l }.goto i pc) m := by
  have hself : ({ s with circularBufferSemaphore := l }.goto i pc).pc i = pc :=
    Function.update_self _ _ _
  have hother : ∀ j, j ≠ i → ({ s with circularBufferSemaphore := l }.goto i pc).pc j = s.pc j :=
    fun j hj => Function.update_of_ne hj _ _
  refine h.outside (i := i) h.sane hother (fun _ _ => rfl) (fun _ _ => rfl) (fun _ _ => rfl) rfl rfl
    rfl hl (by rw [hself, hl']) ?_ (by rw [hself]; exact hcaller)
  refine h.sem.downRead hlock (fun j hj => by rw [hother j hj]) ?_ (fun j hj => by rw [hother j hj]) ?_
  · rw [hself, hr]
  · rw [hself, hw', hw]

theorem Rel.goto_upRead {pc : Pc} (hl : locked (s.pc i) = false) (hw : writing (s.pc i) = false)
    (hr : reading (s.pc i) = true) (hr' : reading pc = false) (hw' : writing pc = false)
    (hl' : locked pc = false)
    (hcaller : Caller s.dev.buffer m.state.store (s.fpos i) (m.state.fpos i) (m.status i) pc) :
    Rel (s.upRead i pc) m := by
  have hself : (s.upRead i pc).pc i = pc := Function.update_self _ _ _
  have hother : ∀ j, j ≠ i → (s.upRead i pc).pc j = s.pc j :=
    fun j hj => Function.update_of_ne hj _ _
  refine h.outside (i := i) h.sane hother (fun _ _ => rfl) (fun _ _ => rfl) (fun _ _ => rfl) rfl rfl
    rfl hl (by rw [hself, hl']) ?_ (by rw [hself]; exact hcaller)
  refine h.sem.upRead (fun j hj => by rw [hother j hj]) hr ?_ (fun j hj => by rw [hother j hj]) ?_
  · rw [hself, hr']
    simp
  · rw [hself, hw', hw]

theorem Rel.goto_over {r : Result} (hl : locked (s.pc i) = false) (hr : reading (s.pc i) = false)
    (hw : writing (s.pc i) = false) (hpos : s.fpos i = m.state.fpos i) :
    Rel (s.goto i (.ret r)) (m.put i (.over r)) :=
  h.goto_outside hl rfl hr.symm hw.symm (fun _ hj => m.put_status_of_ne hj _) rfl (fun _ _ => rfl)
    ⟨hpos, m.put_status i _⟩

/-- The position of the driver becomes the one the object has. -/
theorem Rel.goto_moved {p : ℤ} {r : Result} (hl : locked (s.pc i) = false)
    (hr : reading (s.pc i) = false) (hw : writing (s.pc i) = false) (hp : p = m.state.fpos i)
    (hst : m.status i = .over r) :
    Rel ({ s with fpos := Function.update s.fpos i p }.goto i (.ret r)) m := by
  have hself : ({ s with fpos := Function.update s.fpos i p }.goto i (.ret r)).pc i = .ret r :=
    Function.update_self _ _ _
  refine h.outside (i := i) h.sane (fun j hj => Function.update_of_ne hj _ _)
    (fun j hj => Function.update_of_ne hj _ _) (fun _ _ => rfl) (fun _ _ => rfl) rfl rfl rfl hl
    (by rw [hself]; rfl) (h.sem_keep hr.symm hw.symm) ?_
  rw [hself]
  refine ⟨?_, hst⟩
  rw [← hp]
  exact Function.update_self _ _ _

end Goto

end Aesd.Driver.Beside
