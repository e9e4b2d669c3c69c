import Aesd.Lib.Circular

/-!
# The circular buffer of the driver

`aesd-circular-buffer.c`. A pointer to an entry of the array is the index of its slot, `NULL` is
`none`; a `buffptr` is the id of the allocation it points to. The offsets are the code's `uint8_t`
values (`Holds` shows that they stay below the number of slots), the sizes are those of live
allocations, so sums of them stay far below the machine word.
-/

namespace Aesd.Driver.Ring

/-- `AESDCHAR_MAX_WRITE_OPERATIONS_SUPPORTED` -/
abbrev maxWriteOperationsSupported : ℕ := 10

/-- `struct aesd_buffer_entry` -/
structure BufferEntry where
  buffptr : Option ℕ
  size : ℕ
  deriving DecidableEq, Repr

/-- The entry of a zeroed array. -/
def BufferEntry.null : BufferEntry := ⟨none, 0⟩

/-- `struct aesd_circular_buffer` -/
structure CircularBuffer where
  entry : List BufferEntry
  inOffs : ℕ
  outOffs : ℕ
  full : Bool
  entry_length : entry.length = maxWriteOperationsSupported
  deriving DecidableEq

namespace CircularBuffer

/-- `aesd_circular_buffer_init`: every field is zeroed. -/
def init : CircularBuffer where
  entry := List.replicate maxWriteOperationsSupported BufferEntry.null
  inOffs := 0
  outOffs := 0
  full := false
  entry_length := List.length_replicate

/-- The entry a pointer into the array points to. -/
def deref (buffer : CircularBuffer) (slot : ℕ) : BufferEntry :=
  buffer.entry.getD slot BufferEntry.null

/-- `aesd_circular_buffer_get_entry_by_offset` -/
def getEntryByOffset (buffer : CircularBuffer) (entryOffset : ℕ) : Option ℕ :=
  if entryOffset < maxWriteOperationsSupported then
    some ((buffer.outOffs + entryOffset) % maxWriteOperationsSupported)
  else none

/-- `aesd_circular_buffer_find_entry_offset_for_fpos`, the loop from `index` on with `n` rounds
left: the entry found and the value stored through `entry_offset_byte_rtn`. -/
def findEntryLoop (buffer : CircularBuffer) : ℕ → ℕ → ℕ → Option (ℕ × ℕ)
  | 0, _, _ => none
  | n + 1, index, charOffset =>
    match buffer.getEntryByOffset index with
    | none => none
    | some current =>
      if (buffer.deref current).buffptr = none then none
      else if charOffset < (buffer.deref current).size then some (current, charOffset)
      else buffer.findEntryLoop n (index + 1) (charOffset - (buffer.deref current).size)

/-- `aesd_circular_buffer_find_entry_offset_for_fpos` -/
def findEntryOffsetForFpos (buffer : CircularBuffer) (charOffset : ℕ) : Option (ℕ × ℕ) :=
  buffer.findEntryLoop maxWriteOperationsSupported 0 charOffset

/-- `aesd_circular_buffer_find_EOF_offset`, the loop from `index` on with `n` rounds left. -/
def findEOFLoop (buffer : CircularBuffer) : ℕ → ℕ → ℕ → ℕ
  | 0, _, eofOffset => eofOffset
  | n + 1, index, eofOffset =>
    match buffer.getEntryByOffset index with
    | none => eofOffset
    | some current =>
      if (buffer.deref current).buffptr = none then eofOffset
      else buffer.findEOFLoop n (index + 1) (eofOffset + (buffer.deref current).size)

/-- `aesd_circular_buffer_find_EOF_offset` -/
def findEOFOffset (buffer : CircularBuffer) : ℕ :=
  buffer.findEOFLoop maxWriteOperationsSupported 0 0

/-- The sizes of the entries before `entryOffset`, from `index` on with `n` rounds left. -/
def sizesBefore (buffer : CircularBuffer) : ℕ → ℕ → ℤ → ℤ
  | 0, _, absoluteOffset => absoluteOffset
  | n + 1, index, absoluteOffset =>
    match buffer.getEntryByOffset index with
    | none => absoluteOffset
    | some current =>
      buffer.sizesBefore n (index + 1) (absoluteOffset + (buffer.deref current).size)

/-- `aesd_circular_buffer_find_absolute_offset` -/
def findAbsoluteOffset (buffer : CircularBuffer) (entryOffset charOffset : ℕ) : ℤ :=
  match buffer.getEntryByOffset entryOffset with
  | none => -1
  | some current =>
    if (buffer.deref current).buffptr = none ∨ (buffer.deref current).size ≤ charOffset then -1
    else buffer.sizesBefore entryOffset 0 charOffset

/-- `aesd_circular_buffer_add_entry`: the `buffptr` returned and the buffer left. -/
def addEntry (buffer : CircularBuffer) (entry : BufferEntry) : Option ℕ × CircularBuffer :=
  let returned := if buffer.full then (buffer.deref buffer.outOffs).buffptr else none
  let outOffs :=
    if buffer.full then (buffer.outOffs + 1) % maxWriteOperationsSupported else buffer.outOffs
  let inOffs := (buffer.inOffs + 1) % maxWriteOperationsSupported
  (returned, {
    entry := buffer.entry.set buffer.inOffs entry
    inOffs
    outOffs
    full := if inOffs = outOffs then true else buffer.full
    entry_length := by rw [List.length_set, buffer.entry_length] })

/-- What `addEntry` returns for each of a list of entries, and the buffer left. -/
def addEntries (buffer : CircularBuffer) : List BufferEntry → List (Option ℕ) × CircularBuffer
  | [] => ([], buffer)
  | e :: es =>
    let r := buffer.addEntry e
    let rs := r.2.addEntries es
    (r.1 :: rs.1, rs.2)

end CircularBuffer

end Aesd.Driver.Ring
