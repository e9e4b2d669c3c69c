import Aesd.Lib.SharedLock
import Aesd.Lib.Objects
import Aesd.Driver.Device

/-!
# The calls of the driver, interleaved

Any number of openers, each in one call of the driver at a time, on one device. `aesd_write` holds
`temp_entry_mutex`, and takes `circular_buffer_semaphore` for writing to move a line into the buffer; the
other calls take the semaphore for reading. A step is a call of a kernel function or an access to the
device; between two steps the other openers run. Each opener has an `f_pos` of its own: it is what
`aesd_read` leaves in `*f_pos`, also where that returns `-EFAULT` (`read` takes the position over only if
the result is not negative). Undefined behaviour sets `fault`.
-/

namespace Aesd.Driver.Calls

open Aesd.Lib.Alloc Aesd.Lib.SharedLock Aesd.Lib.Objects
open Aesd.Driver.Ring Aesd.Driver.Ring.CircularBuffer Aesd.Driver.Device

/-- What an opener calls; `read` has the `count` bytes of the user's buffer. -/
inductive Call
  | write (buf : Bytes)
  | read (ubuf : Bytes)
  | llseek (offset whence : ℤ)
  | ioctl (cmd : ℕ) (seekto : Seekto)
  deriving DecidableEq

/-- The value returned, and what `aesd_read` leaves in the user's buffer. -/
structure Result where
  retval : ℤ
  ubuf : Bytes
  deriving DecidableEq

/-- Where an opener is. -/
inductive Pc
  | idle
  /-- at the start of the function -/
  | enter (c : Call)
  /-- before `mutex_lock_killable` -/
  | lockTemp (buf : Bytes)
  /-- before `kmalloc` or `krealloc` -/
  | grow (buf : Bytes)
  /-- before `kfree(old_temp_entry_buffptr)` -/
  | giveUp (buf : Bytes) (old : Option ℕ)
  /-- before `copy_from_user` -/
  | copyIn (buf : Bytes)
  /-- before `temp_entry.size += count` -/
  | count (buf : Bytes)
  /-- before the test of the last byte -/
  | test (buf : Bytes)
  /-- before `down_write_killable` -/
  | downWrite (buf : Bytes)
  /-- before `aesd_circular_buffer_add_entry` -/
  | add (buf : Bytes)
  /-- before `kfree(returned_entry_buff_ptr)` -/
  | free (buf : Bytes) (returned : Option ℕ)
  /-- before `temp_entry` is cleared -/
  | clear (buf : Bytes)
  /-- before `up_write` -/
  | upWrite (retval : ℤ)
  /-- before `mutex_unlock` -/
  | unlockTemp (retval : ℤ)
  /-- before the `down_read_killable` of `aesd_read` -/
  | downRead (charOffset : ℕ) (ubuf : Bytes)
  /-- at the head of the loop -/
  | find (count retval charOffset : ℕ) (ubuf : Bytes)
  /-- before `copy_to_user` -/
  | copyOut (entry entryOffset copySize count retval charOffset : ℕ) (ubuf : Bytes)
  /-- before `up_read` -/
  | upRead (retval : ℤ) (charOffset : ℕ) (ubuf : Bytes)
  /-- before `*f_pos = char_offset` -/
  | setPos (retval : ℤ) (charOffset : ℕ) (ubuf : Bytes)
  /-- before the `down_read_killable` of `aesd_llseek` -/
  | downSeek (offset whence : ℤ)
  /-- before `aesd_circular_buffer_find_EOF_offset` -/
  | findEOF (offset whence : ℤ)
  /-- before `up_read` -/
  | upSeek (offset whence : ℤ) (eofOffset : ℕ)
  /-- before the switch over `whence` -/
  | seek (offset whence : ℤ) (eofOffset : ℕ)
  /-- before the `copy_from_user` of `aesd_ioctl` -/
  | copyCmd (seekto : Seekto)
  /-- before its `down_read_killable` -/
  | downIoctl (seekto : Seekto)
  /-- before `aesd_circular_buffer_find_absolute_offset` -/
  | findAbsolute (seekto : Seekto)
  /-- before `up_read` -/
  | upIoctl (absoluteOffset : ℤ)
  /-- before the return -/
  | ret (r : Result)
  deriving DecidableEq

/-- The device with its locks, the positions of the openers, and where they are. -/
structure State (ι : Type*) where
  dev : AesdDev
  tempEntryMutex : Option ι
  circularBufferSemaphore : RwLock ι
  fpos : ι → ℤ
  pc : ι → Pc
  fault : Bool

/-- An opener's next step: it calls or returns, or it goes on, where the kernel decides whether a lock is
taken before a fatal signal comes, what the allocator returns, and whether a user copy faults and after
how many bytes. -/
inductive Act
  | call (c : Call)
  | ret
  | go
  | lock (killed : Bool)
  | alloc (o : Outcome UInt8)
  | copy (fault : Option ℕ)

/-- The device after `aesd_init_module`, with no call under way. -/
def init (ι : Type*) : State ι := ⟨initModule, none, RwLock.free, fun _ => 0, fun _ => .idle, false⟩

variable {ι : Type*} [DecidableEq ι]

namespace State

def goto (s : State ι) (i : ι) (pc : Pc) : State ι := { s with pc := Function.update s.pc i pc }

/-- Undefined behaviour. -/
def crash (s : State ι) : State ι := { s with fault := true }

/-- The part of the call before its first lock. -/
def enter (s : State ι) (i : ι) : Call → State ι
  | .write buf => s.goto i (if buf.length = 0 then .ret ⟨0, []⟩ else .lockTemp buf)
  | .read ubuf => s.goto i (.downRead (s.fpos i).toNat ubuf)
  | .llseek offset whence => s.goto i (.downSeek offset whence)
  | .ioctl cmd seekto =>
    s.goto i (if cmd = aesdcharIocseekto then .copyCmd seekto else .ret ⟨-enotty, []⟩)

/-! ### `aesd_write` -/

def lockTemp (s : State ι) (i : ι) (buf : Bytes) (killed : Bool) : Option (State ι) :=
  if killed then some (s.goto i (.ret ⟨-eintr, []⟩))
  else if s.tempEntryMutex = none then some ({ s with tempEntryMutex := some i }.goto i (.grow buf))
  else none

def grow (s : State ι) (i : ι) (buf : Bytes) (o : Outcome UInt8) : Option (State ι) :=
  (growTempEntry s.dev buf.length o).map fun (p, heap) =>
    let dev : AesdDev := { s.dev with heap, tempEntry := ⟨p, s.dev.tempEntry.size⟩ }
    { s with dev }.goto i (if p = none then .giveUp buf s.dev.tempEntry.buffptr else .copyIn buf)

def giveUp (s : State ι) (i : ι) (old : Option ℕ) : Option (State ι) :=
  (s.dev.heap.free old).map fun heap =>
    let dev : AesdDev := { s.dev with heap, tempEntry := ⟨s.dev.tempEntry.buffptr, 0⟩ }
    { s with dev }.goto i (.unlockTemp (-enomem))

def copyIn (s : State ι) (i : ι) (buf : Bytes) (fault : Option ℕ) : Option (State ι) :=
  s.dev.tempEntry.buffptr.bind fun q =>
    match fault with
    | some copied =>
      (s.dev.heap.write q s.dev.tempEntry.size (copiedBytes buf copied)).map fun heap =>
        { s with dev := { s.dev with heap } }.goto i (.unlockTemp (-efault))
    | none =>
      (s.dev.heap.write q s.dev.tempEntry.size buf).map fun heap =>
        { s with dev := { s.dev with heap } }.goto i (.count buf)

def count (s : State ι) (i : ι) (buf : Bytes) : State ι :=
  let tempEntry := ⟨s.dev.tempEntry.buffptr, s.dev.tempEntry.size + buf.length⟩
  { s with dev := { s.dev with tempEntry } }.goto i (.test buf)

def test (s : State ι) (i : ι) (buf : Bytes) : Option (State ι) :=
  s.dev.tempEntry.buffptr.bind fun q =>
    (s.dev.heap.read q (s.dev.tempEntry.size - 1) 1).map fun last =>
      s.goto i (if last ≠ [newline] then .unlockTemp buf.length else .downWrite buf)

def downWrite (s : State ι) (i : ι) (buf : Bytes) (killed : Bool) : Option (State ι) :=
  if killed then some (s.goto i (.unlockTemp (-eintr)))
  else (s.circularBufferSemaphore.downWrite i).map fun l =>
    { s with circularBufferSemaphore := l }.goto i (.add buf)

def add (s : State ι) (i : ι) (buf : Bytes) : State ι :=
  let r := s.dev.buffer.addEntry s.dev.tempEntry
  { s with dev := { s.dev with buffer := r.2 } }.goto i (.free buf r.1)

def free (s : State ι) (i : ι) (buf : Bytes) (returned : Option ℕ) : Option (State ι) :=
  (s.dev.heap.free returned).map fun heap =>
    { s with dev := { s.dev with heap } }.goto i (.clear buf)

def clear (s : State ι) (i : ι) (buf : Bytes) : State ι :=
  { s with dev := { s.dev with tempEntry := BufferEntry.null } }.goto i (.upWrite buf.length)

def upWrite (s : State ι) (i : ι) (retval : ℤ) : State ι :=
  { s with circularBufferSemaphore := s.circularBufferSemaphore.upWrite }.goto i (.unlockTemp retval)

def unlockTemp (s : State ι) (i : ι) (retval : ℤ) : State ι :=
  { s with tempEntryMutex := none }.goto i (.ret ⟨retval, []⟩)

/-! ### The other calls -/

/-- `down_read_killable(&circular_buffer_semaphore)` -/
def downRead (s : State ι) (i : ι) (killed : Bool) (failed pc : Pc) : Option (State ι) :=
  if killed then some (s.goto i failed)
  else (s.circularBufferSemaphore.downRead i).map fun l =>
    { s with circularBufferSemaphore := l }.goto i pc

/-- `up_read(&circular_buffer_semaphore)` -/
def upRead (s : State ι) (i : ι) (pc : Pc) : State ι :=
  { s with circularBufferSemaphore := s.circularBufferSemaphore.upRead i }.goto i pc

/-- The loop of `aesd_read` up to `copy_to_user`. -/
def find (s : State ι) (i : ι) (count retval charOffset : ℕ) (ubuf : Bytes) : State ι :=
  if count = 0 then s.goto i (.upRead retval charOffset ubuf)
  else
    match s.dev.buffer.findEntryOffsetForFpos charOffset with
    | none => s.goto i (.upRead retval charOffset ubuf)
    | some (entry, entryOffset) =>
      let copySize := min count ((s.dev.buffer.deref entry).size - entryOffset)
      s.goto i (.copyOut entry entryOffset copySize count retval charOffset ubuf)

def copyOut (s : State ι) (i : ι) (entry entryOffset copySize count retval charOffset : ℕ)
    (ubuf : Bytes) (fault : Option ℕ) : Option (State ι) :=
  ((s.dev.buffer.deref entry).buffptr.bind fun p => s.dev.heap.read p entryOffset copySize).map
    fun src => s.goto i (match fault with
      | some copied => .upRead (-efault) charOffset (overlay ubuf retval (src.take copied))
      | none => .find (count - copySize) (retval + copySize) (charOffset + copySize)
          (overlay ubuf retval src))

def setPos (s : State ι) (i : ι) (retval : ℤ) (charOffset : ℕ) (ubuf : Bytes) : State ι :=
  { s with fpos := Function.update s.fpos i charOffset }.goto i (.ret ⟨retval, ubuf⟩)

end State

/-- `aesd_llseek` after its `up_read`: the value returned and the new `f_pos`. -/
def seekFrom (fpos offset whence : ℤ) (eofOffset : ℕ) : ℤ × ℤ :=
  if whence = seekSet then seekTo offset fpos eofOffset
  else if whence = seekCur then seekTo (loff (fpos + offset)) fpos eofOffset
  else if whence = seekEnd then seekTo (loff (eofOffset + offset)) fpos eofOffset
  else (-einval, fpos)

def State.seek (s : State ι) (i : ι) (offset whence : ℤ) (eofOffset : ℕ) : State ι :=
  let r := seekFrom (s.fpos i) offset whence eofOffset
  { s with fpos := Function.update s.fpos i r.2 }.goto i (.ret ⟨r.1, []⟩)

/-- **One step** of an opener; none after undefined behaviour. -/
def step (s : State ι) : ι × Act → Option (State ι)
  | (i, act) =>
    if s.fault then none
    else
      match s.pc i, act with
      | .idle, .call c => some (s.goto i (.enter c))
      | .enter c, .go => some (s.enter i c)
      | .lockTemp buf, .lock killed => s.lockTemp i buf killed
      | .grow buf, .alloc o => some ((s.grow i buf o).getD s.crash)
      | .giveUp _ old, .go => some ((s.giveUp i old).getD s.crash)
      | .copyIn buf, .copy fault => some ((s.copyIn i buf fault).getD s.crash)
      | .count buf, .go => some (s.count i buf)
      | .test buf, .go => some ((s.test i buf).getD s.crash)
      | .downWrite buf, .lock killed => s.downWrite i buf killed
      | .add buf, .go => some (s.add i buf)
      | .free buf returned, .go => some ((s.free i buf returned).getD s.crash)
      | .clear buf, .go => some (s.clear i buf)
      | .upWrite retval, .go => some (s.upWrite i retval)
      | .unlockTemp retval, .go => some (s.unlockTemp i retval)
      | .downRead charOffset ubuf, .lock killed =>
        s.downRead i killed (.ret ⟨-eintr, ubuf⟩) (.find ubuf.length 0 charOffset ubuf)
      | .find count retval charOffset ubuf, .go => some (s.find i count retval charOffset ubuf)
      | .copyOut entry entryOffset copySize count retval charOffset ubuf, .copy fault =>
        some ((s.copyOut i entry entryOffset copySize count retval charOffset ubuf fault).getD s.crash)
      | .upRead retval charOffset ubuf, .go => some (s.upRead i (.setPos retval charOffset ubuf))
      | .setPos retval charOffset ubuf, .go => some (s.setPos i retval charOffset ubuf)
      | .downSeek offset whence, .lock killed =>
        s.downRead i killed (.ret ⟨-eintr, []⟩) (.findEOF offset whence)
      | .findEOF offset whence, .go =>
        some (s.goto i (.upSeek offset whence s.dev.buffer.findEOFOffset))
      | .upSeek offset whence eofOffset, .go => some (s.upRead i (.seek offset whence eofOffset))
      | .seek offset whence eofOffset, .go => some (s.seek i offset whence eofOffset)
      | .copyCmd seekto, .copy fault =>
        some (s.goto i (if fault = none then .downIoctl seekto else .ret ⟨-efault, []⟩))
      | .downIoctl seekto, .lock killed =>
        s.downRead i killed (.ret ⟨-eintr, []⟩) (.findAbsolute seekto)
      | .findAbsolute seekto, .go =>
        some (s.goto i (.upIoctl (s.dev.buffer.findAbsoluteOffset seekto.writeCmd.toNat
          seekto.writeCmdOffset.toNat)))
      | .upIoctl absoluteOffset, .go =>
        some (s.upRead i
          (if absoluteOffset < 0 then .ret ⟨-einval, []⟩ else .downSeek absoluteOffset seekSet))
      | .ret _, .ret => some (s.goto i .idle)
      | _, _ => none

/-- What an opener sees of a step. -/
def event (s : State ι) : ι × Act → Option (Event ι Call Result)
  | (i, .call c) => some (.call i c)
  | (i, .ret) =>
    match s.pc i with
    | .ret r => some (.ret i r)
    | _ => none
  | _ => none

end Aesd.Driver.Calls
