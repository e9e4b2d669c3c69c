import Aesd.Lib.Lts
import Aesd.Server.Framing
import Aesd.Server.ProcessPacket

/-!
# The memory of a connection

`handle_client_communication` on the heap, step by step: `packet` and `buffer` are pointers to
allocations, `packet_index` and `packet_size` are `uint16_t` variables beside them. `recv` puts up to
`SOCKET_BUFFER_SIZE` bytes into `buffer`; `process_received_data` moves them one by one into `packet`,
which `ensure_packet_capacity` grows; `process_packet` reads the packet, copies the arguments of a seek
command into memory of its own, and `send_file` then uses `packet` as its buffer. The allocator, `recv`,
`fread` and the outcome of `process_packet` are free. An access outside an allocation sets `fault`.

While a connection is served, the memory `packet` points to, with the two variables, is a buffer as
`process_received_data` is modelled on it by values (`Holds`), and each step on the memory does what the
function does there (`ensurePacketCapacity_refines`, `store_refines`).
-/

namespace Aesd.Server.PacketMemory

open Aesd.Lib.Alloc Aesd.Lib.Alloc.Heap Aesd.Lib.Lts
open Aesd.Driver.Device Aesd.Server.Command Aesd.Server.Packet Aesd.Server.Framing
open Aesd.Server.ProcessPacket

/-- Where the thread is; `ret` is whether `ret_val` is `EXIT_SUCCESS`. -/
inductive Pc
  | mallocPacket
  | mallocBuffer
  /-- at the head of the loop of `handle_client_communication` -/
  | recv
  /-- at the head of the loop of `process_received_data` -/
  | forHead
  /-- before `ensure_packet_capacity` -/
  | reserve
  /-- before `(*packet)[(*packet_index)++] = buffer[i]` -/
  | store
  /-- before `process_packet` -/
  | process
  /-- before the `fwrite` of `flush_packet_to_client` -/
  | fwrite
  /-- in `send_file` -/
  | sendFile
  /-- at the return of `process_received_data` -/
  | received (ret : Bool)
  | freePacket
  | freeBuffer
  | done
  deriving DecidableEq

/-- The variables of `handle_client_communication` and of `process_received_data`. -/
structure State where
  heap : Heap UInt8
  sockFd : ℤ
  packet : Option ℕ
  buffer : Option ℕ
  packetIndex : ℕ
  packetSize : ℕ
  bytesReceived : ℕ
  i : ℕ
  pc : Pc
  fault : Bool

/-- How the thread's next call comes out. -/
inductive Act
  | malloc (o : Outcome UInt8)
  /-- `none` is -1. -/
  | recv (received : Option Bytes)
  | forHead
  | reserve (o : Outcome UInt8)
  | store
  /-- The `malloc` of `parse_xy_str`, and what is in `seekto_cmd` before. -/
  | process (o : Outcome UInt8) (seekto : Seekto)
  | fwrite
  | fread (block : Bytes)
  | processed (ret : Bool)
  | loopTest (running : Bool)
  | free

namespace State

def goto (s : State) (pc : Pc) : State := { s with pc }

/-- Undefined behaviour. -/
def crash (s : State) : State := { s with fault := true }

/-- `i++` -/
def next (s : State) : State := { s with i := u16 (s.i + 1), pc := .forHead }

def mallocPacket (s : State) (o : Outcome UInt8) : State :=
  let r := s.heap.malloc socketBufferSize o
  { s with packet := r.1, heap := r.2, pc := .mallocBuffer }

def mallocBuffer (s : State) (o : Outcome UInt8) : State :=
  let r := s.heap.malloc socketBufferSize o
  let s := { s with buffer := r.1, heap := r.2 }
  if s.packet = none ∨ s.buffer = none then s.goto .freePacket else s.goto .recv

/-- `recv` puts the bytes into `buffer`. -/
def recv (s : State) (bytes : Bytes) : Option State := do
  let q ← s.buffer
  let heap ← s.heap.write q 0 bytes
  some { s with heap, bytesReceived := bytes.length, i := 0, pc := .forHead }

def forHead (s : State) : State :=
  if s.i < u16 s.bytesReceived then s.goto .reserve else s.goto (.received true)

/-- `ensure_packet_capacity`; the returned value is whether it is `EXIT_SUCCESS`. -/
def ensurePacketCapacity (s : State) (o : Outcome UInt8) : Option (Bool × State) :=
  if s.packetIndex ≥ s.packetSize ∧ s.packetIndex < maxPacketSize then do
    let (newPacket, heap) ←
      match s.packet with
      | none => some (s.heap.malloc (s.packetSize * 2) o)
      | some p => s.heap.realloc p (s.packetSize * 2) o
    match newPacket with
    | none => some (false, { s with heap })
    | some p => some (true, { s with heap, packet := some p, packetSize := u16 (s.packetSize * 2) })
  else if s.packetIndex ≥ maxPacketSize then some (false, s)
  else some (true, s)

/-- The call of `ensure_packet_capacity` and the test of its result. -/
def reserve (s : State) (o : Outcome UInt8) : Option State := do
  let (ret, s) ← s.ensurePacketCapacity o
  some (if ret then s.goto .store else s.goto (.received false))

/-- `(*packet)[(*packet_index)++] = buffer[i]`, and the test for a newline. -/
def store (s : State) : Option State := do
  let p ← s.packet
  let q ← s.buffer
  let c ← s.heap.read q s.i 1
  let heap ← s.heap.write p s.packetIndex c
  let s := { s with heap, packetIndex := u16 (s.packetIndex + 1) }
  some (if c = [newline] then s.goto .process else s.next)

/-- `process_packet` up to the call of `process_seekto_packet` or `flush_packet_to_client`. -/
def process (s : State) (o : Outcome UInt8) (seekto : Seekto) : Option State := do
  let p ← s.packet
  let (call, heap) ← processPacket s.heap s.sockFd p s.packetIndex s.packetSize o seekto
  let s := { s with heap }
  some (match call with
    | .processSeektoPacket _ _ _ _ => s.goto .sendFile
    | .flushPacketToClient _ _ _ _ => s.goto .fwrite)

/-- The `fwrite` of `flush_packet_to_client` reads the packet. -/
def fwrite (s : State) : Option State := do
  let p ← s.packet
  let _ ← s.heap.read p 0 s.packetIndex
  some (s.goto .sendFile)

/-- An `fread` of `send_file`. -/
def fread (s : State) (block : Bytes) : Option State := do
  let p ← s.packet
  let heap ← s.heap.write p 0 block
  some { s with heap }

/-- `process_packet` has returned. -/
def processed (s : State) (ret : Bool) : State :=
  let s := { s with packetIndex := 0 }
  if ret then s.next else s.goto (.received false)

def freePacket (s : State) : Option State := do
  let heap ← s.heap.free s.packet
  some { s with heap, pc := .freeBuffer }

def freeBuffer (s : State) : Option State := do
  let heap ← s.heap.free s.buffer
  some { s with heap, pc := .done }

end State

/-- **One step**; none after undefined behaviour. `recv` returns at most `SOCKET_BUFFER_SIZE` bytes and
`fread` at most `packet_size`, as they are asked to. -/
def step (s : State) (act : Act) : Option State :=
  if s.fault then none
  else
    match s.pc, act with
    | .mallocPacket, .malloc o => some (s.mallocPacket o)
    | .mallocBuffer, .malloc o => some (s.mallocBuffer o)
    | .recv, .recv none => some (s.goto .freePacket)
    | .recv, .recv (some bytes) =>
      if bytes = [] then some (s.goto .freePacket)
      else if bytes.length ≤ socketBufferSize then some ((s.recv bytes).getD s.crash) else none
    | .forHead, .forHead => some s.forHead
    | .reserve, .reserve o => some ((s.reserve o).getD s.crash)
    | .store, .store => some (s.store.getD s.crash)
    | .process, .process o seekto => some ((s.process o seekto).getD s.crash)
    | .fwrite, .fwrite => some (s.fwrite.getD s.crash)
    | .sendFile, .fread block =>
      if block.length ≤ s.packetSize then some ((s.fread block).getD s.crash) else none
    | .sendFile, .processed ret => some (s.processed ret)
    | .received ret, .loopTest running =>
      some (if ret && running then s.goto .recv else s.goto .freePacket)
    | .freePacket, .free => some (s.freePacket.getD s.crash)
    | .freeBuffer, .free => some (s.freeBuffer.getD s.crash)
    | _, _ => none

/-- The start of `handle_client_communication`, whatever else is on the heap. -/
structure Init (s : State) : Prop where
  packet : s.packet = none
  buffer : s.buffer = none
  index : s.packetIndex = 0
  size : s.packetSize = socketBufferSize
  pc : s.pc = .mallocPacket
  fault : s.fault = false

/-! ### The memory holds a packet buffer -/

/-- `packet` points to the memory of the buffer `b`, with its two variables, and `buffer` to the bytes
`chunk`. -/
structure Holds (s : State) (p q : ℕ) (b : PacketBuf) (chunk : Bytes) : Prop where
  packet : s.packet = some p
  buffer : s.buffer = some q
  distinct : q ≠ p
  packetBlock : s.heap.block p = some b.packet
  bufferBlock : s.heap.block q = some chunk
  length : chunk.length = socketBufferSize
  index : s.packetIndex = b.packetIndex
  size : s.packetSize = b.packetSize

section Holds
variable {s s' : State} {p q : ℕ} {b : PacketBuf} {chunk : Bytes} (h : Holds s p q b chunk)
include h

theorem Holds.goto (pc : Pc) : Holds (s.goto pc) p q b chunk := { h with }

theorem Holds.next : Holds s.next p q b chunk := { h with }

/-- **`ensure_packet_capacity` on the memory** does what it does on the buffer. -/
theorem ensurePacketCapacity_refines (o : Outcome UInt8) :
    ∃ p' heap size, s.ensurePacketCapacity o = some ((ensurePacketCapacity b o).1,
        { s with heap, packet := some p', packetSize := size }) ∧
      Holds { s with heap, packet := some p', packetSize := size } p' q (ensurePacketCapacity b o).2
        chunk := by
  obtain ⟨heap, sockFd, packet, buffer, packetIndex, packetSize, bytesReceived, i, pc, fault⟩ := s
  obtain ⟨rfl, rfl, hne, hblock, hbuffer, hlen, rfl, rfl⟩ := h
  unfold State.ensurePacketCapacity ensurePacketCapacity
  dsimp only at hblock hbuffer ⊢
  by_cases hgrow : b.packetIndex ≥ b.packetSize ∧ b.packetIndex < maxPacketSize
  · rw [if_pos hgrow, if_pos hgrow]
    rcases o with _ | ⟨moved, fill⟩
    · refine ⟨p, heap, b.packetSize, ?_, rfl, rfl, hne, hblock, hbuffer, hlen, rfl, rfl⟩
      simp [realloc, hblock]
    · obtain ⟨p', heap', hrealloc, hp', hblock', hframe⟩ :=
        realloc_resized hblock (b.packetSize * 2) moved fill
      have hqp : q ≠ p' := by
        rcases hp' with rfl | hnone
        · exact hne
        · rintro rfl
          rw [hbuffer] at hnone
          cases hnone
      have hbuffer' : heap'.block q = some chunk := by rw [hframe q hqp, if_neg hne, hbuffer]
      exact ⟨p', heap', u16 (b.packetSize * 2), by simp [hrealloc], rfl, rfl, hqp, hblock', hbuffer',
        hlen, rfl, rfl⟩
  · rw [if_neg hgrow, if_neg hgrow]
    refine ⟨p, heap, b.packetSize, ?_, ?_⟩
    · split_ifs <;> rfl
    · split_ifs <;> exact ⟨rfl, rfl, hne, hblock, hbuffer, hlen, rfl, rfl⟩

theorem store_refines {b' : PacketBuf} {a : UInt8} (ha : chunk[s.i]? = some a)
    (hb' : storeByte b a = some b') :
    ∃ heap, s.store = some (if a = newline
        then { s with heap, packetIndex := b'.packetIndex }.goto .process
        else { s with heap, packetIndex := b'.packetIndex }.next) ∧
      Holds { s with heap, packetIndex := b'.packetIndex } p q b' chunk := by
  unfold storeByte at hb'
  split_ifs at hb' with hlt
  obtain rfl := Option.some.inj hb'
  obtain ⟨hi, hget⟩ := List.getElem?_eq_some_iff.mp ha
  have hread : s.heap.read q s.i 1 = some [a] := by
    rw [read_eq h.bufferBlock (by omega), List.drop_eq_getElem_cons hi, hget]
    rfl
  obtain ⟨heap, hwrite, hblock, hframe⟩ := write_one h.packetBlock hlt a
  refine ⟨heap, ?_, { h with
    packetBlock := hblock
    bufferBlock := (hframe q h.distinct).trans h.bufferBlock
    index := rfl }⟩
  unfold State.store
  simp only [h.packet, h.buffer, hread, h.index, hwrite, Option.bind_eq_bind, Option.bind_some,
    List.cons.injEq, and_true]

theorem Holds.of_block {heap : Heap UInt8} (hframe : ∀ j, heap.block j = s.heap.block j) :
    Holds { s with heap } p q b chunk :=
  { h with
    packetBlock := (hframe p).trans h.packetBlock
    bufferBlock := (hframe q).trans h.bufferBlock }

end Holds

/-- `process_packet` makes its call, and leaves the memory as it was. -/
theorem processPacket_returns {heap : Heap UInt8} {p n : ℕ} {b : Bytes} (hb : heap.block p = some b)
    (hn : n ≤ b.length) (hmax : n ≤ maxPacketSize) (sockFd : ℤ) (packetSize : ℕ) (o : Outcome UInt8)
    (seekto : Seekto) :
    ∃ call heap', processPacket heap sockFd p n packetSize o seekto = some (call, heap') ∧
      ∀ j, heap'.block j = heap.block j := by
  obtain ⟨⟨ret, seekto'⟩, hr⟩ := isSeektoPacket_returns o.isOk (b.take n) seekto
  obtain ⟨heap', hAt, hframe⟩ := isSeektoPacketAt_eq hb hn hmax o hr
  unfold processPacket
  rw [hAt, Option.bind_eq_bind, Option.bind_some]
  cases ret with
  | true => exact ⟨_, heap', rfl, hframe⟩
  | false => exact ⟨_, heap', rfl, hframe⟩

end Aesd.Server.PacketMemory
