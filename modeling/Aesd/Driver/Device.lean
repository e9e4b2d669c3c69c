import Aesd.Lib.Alloc
import Aesd.Driver.Traversal

/-!
# The character device

`main.c` of the driver. The device is its circular buffer, the entry under construction
(`temp_entry`) and the kernel heap they point into. What the kernel decides during a call (whether a
lock is taken before a fatal signal arrives, what the allocator returns, how far a user copy gets) is
the call's environment; undefined behaviour is `none`. Calls of `aesd_write` hold `temp_entry_mutex`
to their end, and the buffer is read and changed under `circular_buffer_semaphore`, so a call is one
step of the device, except `aesd_ioctl`, which takes the semaphore twice.
-/

namespace Aesd.Driver.Device

open Aesd.Lib.Alloc
open Aesd.Driver.Ring Aesd.Driver.Ring.CircularBuffer Aesd.Driver.Traversal

abbrev Bytes := List UInt8

/-- `'\n'` -/
abbrev newline : UInt8 := 10

/-! ### Error numbers -/

abbrev eintr : ℤ := 4
abbrev enomem : ℤ := 12
abbrev efault : ℤ := 14
abbrev einval : ℤ := 22
abbrev enotty : ℤ := 25
abbrev erange : ℤ := 34

/-- `struct aesd_dev`, with the heap its pointers are ids of. -/
structure AesdDev where
  heap : Heap UInt8
  buffer : CircularBuffer
  tempEntry : BufferEntry

/-- The device `aesd_init_module` leaves: everything zeroed. -/
def initModule : AesdDev := ⟨Heap.empty, CircularBuffer.init, BufferEntry.null⟩

/-! ### Writing -/

/-- What the kernel decides during a write: `copy` is the number of bytes `copy_from_user` copies
before it faults, if it does. -/
structure WriteEnv where
  mutexKilled : Bool
  alloc : Outcome UInt8
  copy : Option ℕ
  semKilled : Bool

/-- The allocation of `aesd_write`: room for `count` more bytes. -/
def growTempEntry (d : AesdDev) (count : ℕ) (o : Outcome UInt8) :
    Option (Option ℕ × Heap UInt8) :=
  match d.tempEntry.buffptr with
  | none => some (d.heap.malloc count o)
  | some p => d.heap.realloc p (d.tempEntry.size + count) o

/-- What a faulting `copy_from_user` leaves in the destination: the bytes copied, then zeroes. -/
def copiedBytes (buf : Bytes) (copied : ℕ) : Bytes :=
  buf.take copied ++ List.replicate (buf.length - copied) 0

/-- The end of a write that completes an entry: `temp_entry` moves into the buffer, and the memory
of the entry it replaces is freed. -/
def commitTempEntry (d : AesdDev) : Option AesdDev := do
  let r := d.buffer.addEntry d.tempEntry
  let heap ← d.heap.free r.1
  some { heap, buffer := r.2, tempEntry := BufferEntry.null }

/-- `aesd_write` from `copy_from_user` on; `q` is `temp_entry.buffptr`. -/
def fillTempEntry (d : AesdDev) (q : ℕ) (buf : Bytes) (env : WriteEnv) : Option (ℤ × AesdDev) :=
  match env.copy with
  | some copied => do
    let heap ← d.heap.write q d.tempEntry.size (copiedBytes buf copied)
    some (-efault, { d with heap })
  | none => do
    let heap ← d.heap.write q d.tempEntry.size buf
    let size := d.tempEntry.size + buf.length
    let d' : AesdDev := { d with heap, tempEntry := ⟨some q, size⟩ }
    let last ← heap.read q (size - 1) 1
    if last ≠ [newline] then some (buf.length, d')
    else if env.semKilled then some (-eintr, d')
    else do
      let d'' ← commitTempEntry d'
      some (buf.length, d'')

/-- `aesd_write` of the user's bytes `buf`: the value returned and the device left. -/
def aesdWrite (d : AesdDev) (buf : Bytes) (env : WriteEnv) : Option (ℤ × AesdDev) :=
  if buf.length = 0 then some (0, d)
  else if env.mutexKilled then some (-eintr, d)
  else do
    let (p, heap) ← growTempEntry d buf.length env.alloc
    match p with
    | none => do
      -- `krealloc` failed: the old buffer is given up
      let heap ← heap.free d.tempEntry.buffptr
      some (-enomem, { d with heap, tempEntry := BufferEntry.null })
    | some q =>
      fillTempEntry { d with heap, tempEntry := ⟨some q, d.tempEntry.size⟩ } q buf env

/-- Calls of `aesd_write` one after the other: the values returned and the device left. -/
def writes : AesdDev → List (Bytes × WriteEnv) → Option (List ℤ × AesdDev)
  | d, [] => some ([], d)
  | d, (buf, env) :: calls => do
    let (r, d') ← aesdWrite d buf env
    let (rs, d'') ← writes d' calls
    some (r :: rs, d'')

/-! ### Reading -/

/-- What the kernel decides during a read: `copy i` is the number of bytes the `i`-th
`copy_to_user` copies before it faults, if it does. -/
structure ReadEnv where
  semKilled : Bool
  copy : ℕ → Option ℕ

/-- `src` is stored at offset `off` of the user's buffer. -/
def overlay (ubuf : Bytes) (off : ℕ) (src : Bytes) : Bytes :=
  ubuf.take off ++ src ++ ubuf.drop (off + src.length)

/-- The loop of `aesd_read`, in its `i`-th round: the value returned, the position and the user's
buffer left. -/
def readLoop (d : AesdDev) (env : ReadEnv) (i count retval charOffset : ℕ) (ubuf : Bytes) :
    Option (ℤ × ℕ × Bytes) :=
  if _hc : count = 0 then some (retval, charOffset, ubuf)
  else
    match _hf : d.buffer.findEntryOffsetForFpos charOffset with
    | none => some (retval, charOffset, ubuf)
    | some (entry, entryOffset) =>
      let copySize := min count ((d.buffer.deref entry).size - entryOffset)
      match (d.buffer.deref entry).buffptr.bind fun p => d.heap.read p entryOffset copySize with
      | none => none
      | some src =>
        match env.copy i with
        | some copied => some (-efault, charOffset, overlay ubuf retval (src.take copied))
        | none =>
          readLoop d env (i + 1) (count - copySize) (retval + copySize) (charOffset + copySize)
            (overlay ubuf retval src)
  termination_by count
  decreasing_by
    have := findEntryOffsetForFpos_lt _hf
    omega

/-- `aesd_read` of `count` bytes at `*f_pos`: the value returned, the new `*f_pos` and the user's
buffer left. -/
def aesdRead (d : AesdDev) (env : ReadEnv) (count fpos : ℕ) (ubuf : Bytes) :
    Option (ℤ × ℕ × Bytes) :=
  if env.semKilled then some (-eintr, fpos, ubuf)
  else readLoop d env 0 count 0 fpos ubuf

/-! ### Seeking -/

/-- A 64-bit sum as the kernel is built, with two's-complement wrap-around. -/
def loff (z : ℤ) : ℤ := z.bmod (2 ^ 64)

abbrev seekSet : ℤ := 0
abbrev seekCur : ℤ := 1
abbrev seekEnd : ℤ := 2

/-- The end of `aesd_llseek`: the position is taken if it is not beyond the end. -/
def seekTo (retval fpos : ℤ) (eofOffset : ℕ) : ℤ × ℤ :=
  if retval < 0 ∨ eofOffset < retval.toNat then (-erange, fpos) else (retval, retval)

/-- `aesd_llseek`: the value returned and the new `f_pos`. -/
def aesdLlseek (buffer : CircularBuffer) (semKilled : Bool) (fpos offset whence : ℤ) : ℤ × ℤ :=
  if semKilled then (-eintr, fpos)
  else
    let eofOffset := buffer.findEOFOffset
    if whence = seekSet then seekTo offset fpos eofOffset
    else if whence = seekCur then seekTo (loff (fpos + offset)) fpos eofOffset
    else if whence = seekEnd then seekTo (loff (eofOffset + offset)) fpos eofOffset
    else (-einval, fpos)

/-- `struct aesd_seekto` -/
structure Seekto where
  writeCmd : UInt32
  writeCmdOffset : UInt32
  deriving DecidableEq, Repr

/-- `AESDCHAR_IOCSEEKTO`, that is `_IOWR(0x16, 1, struct aesd_seekto)` -/
abbrev aesdcharIocseekto : ℕ := 3 * 2 ^ 30 + 8 * 2 ^ 16 + 0x16 * 2 ^ 8 + 1

/-- What the kernel decides during an `aesd_ioctl`: whether the command is copied in, and whether
each of the two read locks is taken. -/
structure IoctlEnv where
  copyFails : Bool
  semKilled : Bool
  seekSemKilled : Bool

/-- The first half of `aesd_ioctl`, up to `up_read`: the position of the command in the buffer, or
the value returned. -/
def ioctlLookup (buffer : CircularBuffer) (env : IoctlEnv) (cmd : ℕ) (seekto : Seekto) :
    ℤ ⊕ ℤ :=
  if cmd = aesdcharIocseekto then
    if env.copyFails then .inl (-efault)
    else if env.semKilled then .inl (-eintr)
    else
      let absoluteOffset :=
        buffer.findAbsoluteOffset seekto.writeCmd.toNat seekto.writeCmdOffset.toNat
      if absoluteOffset < 0 then .inl (-einval) else .inr absoluteOffset
  else .inl (-enotty)

/-- `aesd_ioctl`, the buffer as it is under the first read lock and as it is under the second one,
the one `aesd_llseek` takes: the value returned and the new `f_pos`. -/
def aesdIoctl (buffer buffer' : CircularBuffer) (env : IoctlEnv) (fpos : ℤ) (cmd : ℕ)
    (seekto : Seekto) : ℤ × ℤ :=
  match ioctlLookup buffer env cmd seekto with
  | .inl retval => (retval, fpos)
  | .inr absoluteOffset => aesdLlseek buffer' env.seekSemKilled fpos absoluteOffset seekSet

end Aesd.Driver.Device
