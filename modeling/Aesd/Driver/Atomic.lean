import Aesd.Driver.Calls
import Aesd.Driver.SeekRace

/-!
# The device as an atomic object

What the calls of the driver do if each takes effect at one moment: the shared state is the line store
and, for each opener, its position. `aesd_ioctl` is the exception that `SeekRace` is about: it looks its
command up, and goes on as an `aesd_llseek` to the position found.
-/

namespace Aesd.Driver.Atomic

open Aesd.Lib.Objects
open Aesd.Driver.Device Aesd.Driver.Store Aesd.Driver.SeekRace Aesd.Driver.Calls

/-- The line store, and the position of each opener. -/
structure Files (ι : Type*) where
  store : LineStore
  fpos : ι → ℕ

/-- The device just loaded, every opener at the start. -/
def Files.init (ι : Type*) : Files ι := ⟨LineStore.empty, fun _ => 0⟩

/-- What a read of `count` bytes at `fpos` is to deliver. -/
def sliceOf (s : LineStore) (fpos count : ℕ) : Bytes := (s.entries.flatten.drop fpos).take count

variable {ι : Type*} [DecidableEq ι]

/-- The opener moves to `pos`. -/
def Files.move (f : Files ι) (i : ι) (pos : ℕ) : Files ι :=
  { f with fpos := Function.update f.fpos i pos }

/-- **What a call does at its moment.** A read that faults has delivered a beginning of the slice, and
its position is behind what was copied whole. -/
inductive Applies (i : ι) (f : Files ι) : Call → Files ι → Call ⊕ Result → Prop
  | write (buf : Bytes) (env : WriteEnv) :
      Applies i f (.write buf) { f with store := (f.store.write buf env).2 }
        (.inr ⟨(f.store.write buf env).1, []⟩)
  | readKilled (ubuf : Bytes) : Applies i f (.read ubuf) f (.inr ⟨-eintr, ubuf⟩)
  | read (ubuf : Bytes) {w : Bytes} (hw : w = sliceOf f.store (f.fpos i) ubuf.length) :
      Applies i f (.read ubuf) (f.move i (f.fpos i + w.length))
        (.inr ⟨w.length, overlay ubuf 0 w⟩)
  | readFault (ubuf : Bytes) {w : Bytes} {n : ℕ}
      (hw : w <+: sliceOf f.store (f.fpos i) ubuf.length) (hn : n ≤ w.length)
      (hlt : n < (sliceOf f.store (f.fpos i) ubuf.length).length) :
      Applies i f (.read ubuf) (f.move i (f.fpos i + n)) (.inr ⟨-efault, overlay ubuf 0 w⟩)
  | llseekKilled (offset whence : ℤ) : Applies i f (.llseek offset whence) f (.inr ⟨-eintr, []⟩)
  | llseek (offset whence : ℤ) {r : ℤ × ℤ}
      (hr : r = seekFrom (f.fpos i) offset whence f.store.entries.flatten.length) :
      Applies i f (.llseek offset whence) (f.move i r.2.toNat) (.inr ⟨r.1, []⟩)
  | ioctlCmd {cmd : ℕ} (seekto : Seekto) (hcmd : cmd ≠ aesdcharIocseekto) :
      Applies i f (.ioctl cmd seekto) f (.inr ⟨-enotty, []⟩)
  | ioctlFault (seekto : Seekto) :
      Applies i f (.ioctl aesdcharIocseekto seekto) f (.inr ⟨-efault, []⟩)
  | ioctlKilled (seekto : Seekto) :
      Applies i f (.ioctl aesdcharIocseekto seekto) f (.inr ⟨-eintr, []⟩)
  | ioctlInvalid {seekto : Seekto} (h : ¬ ValidIn f.store seekto) :
      Applies i f (.ioctl aesdcharIocseekto seekto) f (.inr ⟨-einval, []⟩)
  | ioctl {seekto : Seekto} (h : ValidIn f.store seekto) :
      Applies i f (.ioctl aesdcharIocseekto seekto) f
        (.inl (.llseek (positionIn f.store seekto) seekSet))

/-- The device as an atomic object. -/
def lineStore : Object ι (Files ι) Call Result := ⟨fun i f c f' out => Applies i f c f' out⟩

end Aesd.Driver.Atomic
