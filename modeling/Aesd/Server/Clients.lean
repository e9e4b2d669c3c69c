import Aesd.Lib.Lts
import Aesd.Server.Packet

/-!
# The client threads

`handle_client_communication`, `process_packet` and what it calls, for any number of client threads
over one device (`USE_AESD_CHAR_DEVICE = 1`). A step is one call of a thread (of a lock, of the C
library, of the kernel) or the handling of one byte; which calls a thread makes is its program point
`Pc`, and how they come out is the action. The verdict of `is_seekto_packet` is part of the action of
the byte that completes the packet.

The C library's stream keeps the driver's file position and what it read ahead; writing hands the
packet's bytes to the driver in pieces, reading asks the driver for pieces. A call on `log_file` while
it is `NULL`, and undefined behaviour of the driver or of a store, sets `fault`, and nothing runs after
it.
-/

namespace Aesd.Server.Clients

open Aesd.Lib.Alloc
open Aesd.Driver.Device Aesd.Server.Packet

/-- The stream `log_file`: the driver's `f_pos`, the bytes read ahead, and whether the last read
returned nothing. -/
structure LogFile where
  fpos : ℤ
  ahead : Bytes
  stopped : Bool

/-- The stream of `fopen(LOG_FILE_NAME, "w+")`. -/
def LogFile.init : LogFile := ⟨0, [], false⟩

/-- Where a client thread is; `ret` is whether `ret_val` is `EXIT_SUCCESS`. -/
inductive Pc
  /-- in `recv` -/
  | recv
  /-- in the loop of `process_received_data` -/
  | bytes
  /-- in `process_packet`, before `pthread_mutex_lock`; `is_seekto_packet` returned the verdict -/
  | lock (verdict : Option Seekto)
  /-- before `open_log_file` -/
  | fopen (verdict : Option Seekto)
  /-- in `fwrite` and `fflush`, with these bytes left; whether the last write failed -/
  | write (left : Bytes) (failed : Bool)
  /-- before `ioctl` -/
  | ioctl (seekto : Seekto)
  /-- in the `ioctl`, between its two locks -/
  | llseek (absoluteOffset : ℤ)
  /-- before the first `fseek` of `send_file` -/
  | seekSet (pos : ℤ)
  /-- in `fread` -/
  | read (ret : Bool)
  /-- in the loop over `send`, with `bytes_read` and `total_bytes_sent` -/
  | send (ret : Bool) (bytesRead total : ℕ)
  /-- before the second `fseek` of `send_file` -/
  | seekEnd (ret : Bool)
  /-- before `close_log_file` -/
  | fclose (ret : Bool)
  /-- before `pthread_mutex_unlock` -/
  | unlock (ret : Bool)
  /-- at the return of `process_packet` -/
  | returned (ret : Bool)
  /-- after the loop of `handle_client_communication` -/
  | ended

/-- A client thread: its packet buffer, the received bytes it still has to handle, its place, the
bytes its socket took, and all bytes it received. -/
structure Client where
  buf : PacketBuf
  todo : Bytes
  pc : Pc
  outbox : Bytes
  received : Bytes

/-- A thread about to receive. -/
def Client.init (fill : ℕ → UInt8) : Client := ⟨PacketBuf.init fill, [], .recv, [], []⟩

/-- A stay under `log_file_mutex`: the thread, its packet, the verdict on it, and the bytes sent. -/
structure Session (ι : Type*) where
  client : ι
  packet : Bytes
  verdict : Option Seekto
  sent : Bytes

/-- The server: the device, the holder of `log_file_mutex` with its session, `log_file`, the threads,
and the sessions that are over, in the order of the lock, with what `process_packet` returned. -/
structure State (ι : Type*) where
  dev : AesdDev
  holder : Option (Session ι)
  log : Option LogFile
  client : ι → Client
  done : List (Session ι × Bool)
  fault : Bool

/-- The outcome of a thread's next call. -/
inductive Act
  | recv (received : Option Bytes)
  | byte (alloc : Outcome UInt8) (verdict : Option Seekto)
  | chunkEnd (running : Bool)
  | lock
  | fopen (ok : Bool)
  | write (count : ℕ) (env : WriteEnv)
  | fflush
  | ioctl (copyFails semKilled : Bool)
  | fseek (semKilled : Bool)
  | fill (count : ℕ) (env : ReadEnv)
  | fread (n : ℕ)
  | send (sent : Option ℕ)
  | fclose
  | unlock
  | back

/-- An `int` made of the driver's `long`. -/
def cint (r : ℤ) : ℤ := r.bmod (2 ^ 32)

variable {ι : Type*} [DecidableEq ι]

namespace State

/-- The thread `i` becomes `c`. -/
def put (s : State ι) (i : ι) (c : Client) : State ι :=
  { s with client := Function.update s.client i c }

/-- The thread `i` goes on at `pc`. -/
def goto (s : State ι) (i : ι) (pc : Pc) : State ι := s.put i { s.client i with pc }

@[simp] theorem client_put (s : State ι) (i : ι) (c : Client) : (s.put i c).client i = c :=
  Function.update_self _ _ _

@[simp] theorem client_goto (s : State ι) (i : ι) (pc : Pc) :
    (s.goto i pc).client i = { s.client i with pc } := client_put _ _ _

theorem pc_goto (s : State ι) (i : ι) (pc : Pc) : ((s.goto i pc).client i).pc = pc := by simp

/-- Undefined behaviour. -/
def crash (s : State ι) : State ι := { s with fault := true }

/-- A call on `log_file`. -/
def onLog (s : State ι) (k : LogFile → Option (State ι)) : Option (State ι) :=
  match s.log with
  | none => some s.crash
  | some f => k f

/-- `recv` returns: `none` is `-1`. -/
def recv (s : State ι) (i : ι) : Option Bytes → Option (State ι)
  | none => some (s.goto i .ended)
  | some [] => some (s.goto i .ended)
  | some (a :: buffer) =>
    let c := s.client i
    if (a :: buffer).length ≤ socketBufferSize then
      some (s.put i { c with todo := (a :: buffer).take (u16 (a :: buffer).length), pc := .bytes
                             received := c.received ++ a :: buffer })
    else none

/-- One round of the loop of `process_received_data`, up to the call of `process_packet`. -/
def byte (s : State ι) (i : ι) (alloc : Outcome UInt8) (verdict : Option Seekto) :
    Option (State ι) :=
  let c := s.client i
  match c.todo with
  | [] => none
  | a :: todo =>
    match ensurePacketCapacity c.buf alloc with
    | (false, buf) => some (s.put i { c with buf, pc := .ended })
    | (true, buf) =>
      match storeByte buf a with
      | none => some s.crash
      | some buf =>
        some (s.put i { c with buf, todo, pc := if a = newline then .lock verdict else .bytes })

/-- `pthread_mutex_lock(&log_file_mutex)` -/
def lock (s : State ι) (i : ι) (verdict : Option Seekto) : Option (State ι) :=
  match s.holder with
  | some _ => none
  | none => some { s.goto i (.fopen verdict) with
      holder := some ⟨i, (s.client i).buf.handed.1, verdict, []⟩ }

/-- `open_log_file`, and the choice between the two uses of the stream. -/
def fopen (s : State ι) (i : ι) (verdict : Option Seekto) (ok : Bool) : State ι :=
  let pc := match verdict with
    | none => Pc.write (s.client i).buf.handed.1 false
    | some seekto => Pc.ioctl seekto
  { s.goto i pc with log := if ok then some LogFile.init else none }

/-- The stream hands the first `count` bytes left to the driver. -/
def write (s : State ι) (i : ι) (left : Bytes) (count : ℕ) (env : WriteEnv) : Option (State ι) :=
  s.onLog fun _ =>
    if 1 ≤ count ∧ count ≤ left.length then
      match aesdWrite s.dev (left.take count) env with
      | none => some s.crash
      | some (r, dev) =>
        some { s.goto i (.write (left.drop r.toNat) (decide (r < 0))) with dev }
    else none

/-- `ioctl` returns `r`. -/
def ioctlReturned (s : State ι) (i : ι) (r : ℤ) : State ι :=
  s.goto i (if cint r < 0 then .fclose false else .seekSet (cint r))

/-- The first half of the `ioctl`. -/
def ioctl (s : State ι) (i : ι) (seekto : Seekto) (copyFails semKilled : Bool) :
    Option (State ι) :=
  s.onLog fun _ =>
    match ioctlLookup s.dev.buffer ⟨copyFails, semKilled, false⟩ aesdcharIocseekto seekto with
    | .inl r => some (s.ioctlReturned i r)
    | .inr absoluteOffset => some (s.goto i (.llseek absoluteOffset))

/-- The second half of the `ioctl`. -/
def llseek (s : State ι) (i : ι) (absoluteOffset : ℤ) (semKilled : Bool) : Option (State ι) :=
  s.onLog fun f =>
    let r := aesdLlseek s.dev.buffer semKilled f.fpos absoluteOffset Aesd.Driver.Device.seekSet
    some { s.ioctlReturned i r.1 with log := some { f with fpos := r.2 } }

/-- `fseek(log_file, seek_pos, SEEK_SET)` -/
def seekSet (s : State ι) (i : ι) (pos : ℤ) (semKilled : Bool) : Option (State ι) :=
  s.onLog fun f =>
    let r := aesdLlseek s.dev.buffer semKilled f.fpos pos Aesd.Driver.Device.seekSet
    if r.1 < 0 then some (s.goto i (.fclose false))
    else some { s.goto i (.read true) with log := some ⟨r.2, [], false⟩ }

/-- The stream asks the driver for `count` bytes. It is assumed of the C library that after the end of the
file or an error the stream reads no more until the next seek. -/
def fill (s : State ι) (count : ℕ) (env : ReadEnv) : Option (State ι) :=
  s.onLog fun f =>
    if 1 ≤ count ∧ f.stopped = false then
      match aesdRead s.dev env count f.fpos.toNat (List.replicate count 0) with
      | none => some s.crash
      | some (r, fpos, ubuf) =>
        some { s with log := some ⟨fpos, f.ahead ++ ubuf.take r.toNat, decide (r ≤ 0)⟩ }
    else none

/-- `fread` returns `n`: of the bytes read ahead, at most `buffer_size`, and none only if the driver
has no more. -/
def fread (s : State ι) (i : ι) (ret : Bool) (n : ℕ) : Option (State ι) :=
  s.onLog fun f =>
    let c := s.client i
    if n = 0 then
      if f.stopped = true ∧ f.ahead = [] then some (s.goto i (.seekEnd ret)) else none
    else if n ≤ f.ahead.length ∧ n ≤ c.buf.packetSize then
      let buf := { c.buf with packet := overlay c.buf.packet 0 (f.ahead.take n) }
      some { s.put i { c with buf, pc := .send ret n 0 } with
        log := some { f with ahead := f.ahead.drop n } }
    else none

/-- `send` returns: `none` is `-1`. -/
def send (s : State ι) (i : ι) (ret : Bool) (bytesRead total : ℕ) :
    Option ℕ → Option (State ι)
  | none => some (s.goto i (.read false))
  | some k =>
    let c := s.client i
    if 1 ≤ k ∧ total + k ≤ bytesRead then
      let sent := (c.buf.packet.drop total).take k
      let pc := if total + k < bytesRead then Pc.send ret bytesRead (total + k) else Pc.read ret
      some { s.put i { c with pc, outbox := c.outbox ++ sent } with
        holder := s.holder.map fun cur => { cur with sent := cur.sent ++ sent } }
    else none

/-- `fseek(log_file, 0, SEEK_END)` -/
def seekEnd (s : State ι) (i : ι) (ret semKilled : Bool) : Option (State ι) :=
  s.onLog fun f =>
    let r := aesdLlseek s.dev.buffer semKilled f.fpos 0 Aesd.Driver.Device.seekEnd
    some { s.goto i (.fclose (ret && decide (0 ≤ r.1))) with log := some ⟨r.2, [], false⟩ }

/-- `pthread_mutex_unlock(&log_file_mutex)` -/
def unlock (s : State ι) (i : ι) (ret : Bool) : State ι :=
  { s.goto i (.returned ret) with
    holder := none
    done := s.done ++ s.holder.toList.map fun cur => (cur, ret) }

/-- `process_packet` returned: `packet_index` is reset, and a failure ends the connection. -/
def back (s : State ι) (i : ι) (ret : Bool) : State ι :=
  let c := s.client i
  s.put i { c with buf := { c.buf with packetIndex := 0 }, pc := if ret then .bytes else .ended }

end State

/-- **One step of a client thread.** -/
def step (s : State ι) (a : ι × Act) : Option (State ι) :=
  if s.fault then none
  else match (s.client a.1).pc, a.2 with
    | .recv, .recv received => s.recv a.1 received
    | .bytes, .byte alloc verdict => s.byte a.1 alloc verdict
    | .bytes, .chunkEnd running =>
      if (s.client a.1).todo = [] then some (s.goto a.1 (if running then .recv else .ended))
      else none
    | .lock verdict, .lock => s.lock a.1 verdict
    | .fopen verdict, .fopen ok => some (s.fopen a.1 verdict ok)
    | .write left _, .write count env => s.write a.1 left count env
    | .write left failed, .fflush =>
      s.onLog fun _ =>
        if left = [] ∨ failed = true then some (s.goto a.1 (.seekSet 0)) else none
    | .ioctl seekto, .ioctl copyFails semKilled => s.ioctl a.1 seekto copyFails semKilled
    | .llseek absoluteOffset, .fseek semKilled => s.llseek a.1 absoluteOffset semKilled
    | .seekSet pos, .fseek semKilled => s.seekSet a.1 pos semKilled
    | .read _, .fill count env => s.fill count env
    | .read ret, .fread n => s.fread a.1 ret n
    | .send ret bytesRead total, .send sent => s.send a.1 ret bytesRead total sent
    | .seekEnd ret, .fseek semKilled => s.seekEnd a.1 ret semKilled
    | .fclose ret, .fclose => some { s.goto a.1 (.unlock ret) with log := none }
    | .unlock ret, .unlock => some (s.unlock a.1 ret)
    | .returned ret, .back => some (s.back a.1 ret)
    | _, _ => none

/-- The server with the module just loaded and every thread about to receive. -/
structure Init (s : State ι) : Prop where
  dev : s.dev = initModule
  holder : s.holder = none
  log : s.log = none
  client : ∀ i, ∃ fill, s.client i = Client.init fill
  done : s.done = []
  fault : s.fault = false

end Aesd.Server.Clients
