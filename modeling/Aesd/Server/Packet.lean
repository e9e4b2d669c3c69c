import Aesd.Lib.Alloc
import Aesd.Lib.Blocks
import Aesd.Driver.Device

/-!
# Packet assembly

The receiving half of `aesdsocket_client.c`: the bytes of a connection are collected in a buffer that
is doubled on demand, and every newline hands the buffer to `process_packet`. The buffer is what
`packet` points to, with its allocated size, the `uint16_t` size and the `uint16_t` index. What the
rest of the system decides (the allocator, the outcome of `process_packet` and what `send_file` leaves
in the buffer, `process_running`) is an argument; a store outside the allocation is `none`.
-/

namespace Aesd.Server.Packet

open Aesd.Lib.Alloc Aesd.Lib.Alloc.Heap Aesd.Lib.Blocks
open Aesd.Driver.Device

/-- `SOCKET_BUFFER_SIZE` -/
abbrev socketBufferSize : ℕ := 1024

/-- `MAX_PACKET_SIZE` -/
abbrev maxPacketSize : ℕ := 32762

/-- A `uint16_t`. -/
def u16 (n : ℕ) : ℕ := n % 2 ^ 16

/-- Within the limit nothing wraps. -/
theorem u16_eq {n : ℕ} (h : n ≤ maxPacketSize) : u16 n = n :=
  Nat.mod_eq_of_lt (by unfold maxPacketSize at h; omega)

theorem u16_received {n : ℕ} (h : n ≤ socketBufferSize) : u16 n = n :=
  u16_eq (h.trans (by decide))

/-- The memory `packet` points to, `packet_index` and `packet_size`. -/
structure PacketBuf where
  packet : Bytes
  packetIndex : ℕ
  packetSize : ℕ
  deriving DecidableEq

/-- The buffer after `malloc(SOCKET_BUFFER_SIZE)`, with what was in the memory. -/
def PacketBuf.init (fill : ℕ → UInt8) : PacketBuf :=
  ⟨(List.range socketBufferSize).map fill, 0, socketBufferSize⟩

/-- `ensure_packet_capacity`; the returned value is whether it is `EXIT_SUCCESS`. -/
def ensurePacketCapacity (b : PacketBuf) (o : Outcome UInt8) : Bool × PacketBuf :=
  if b.packetIndex ≥ b.packetSize ∧ b.packetIndex < maxPacketSize then
    match o with
    | .null => (false, b)
    | .ok _ fill =>
      (true, { b with packet := resized b.packet (b.packetSize * 2) fill
                      packetSize := u16 (b.packetSize * 2) })
  else if b.packetIndex ≥ maxPacketSize then (false, b)
  else (true, b)

/-- `(*packet)[(*packet_index)++] = c` -/
def storeByte (b : PacketBuf) (c : UInt8) : Option PacketBuf :=
  if b.packetIndex < b.packet.length then
    some { b with packet := b.packet.set b.packetIndex c, packetIndex := u16 (b.packetIndex + 1) }
  else none

/-- The bytes and the length given to `process_packet`. -/
def PacketBuf.handed (b : PacketBuf) : Bytes × ℕ := (b.packet.take b.packetIndex, b.packetIndex)

/-- What is decided while one received byte is handled: the allocator's answer, the outcome of
`process_packet` and what it leaves in the buffer. -/
structure ByteEnv where
  alloc : Outcome UInt8
  retVal : Bool
  left : Bytes → Bytes
  length_left : ∀ m, (left m).length = m.length

/-- The buffer after `process_packet`. -/
def PacketBuf.reset (b : PacketBuf) (left : Bytes → Bytes) : PacketBuf :=
  { b with packet := left b.packet, packetIndex := 0 }

/-- What came of some received bytes: the value returned (or, for a connection, whether it is still
open), the packets handed to `process_packet`, and the buffer left. -/
structure Received where
  retVal : Bool
  handed : List (Bytes × ℕ)
  buf : PacketBuf

/-- The loop of `process_received_data`, from its round `i` on. -/
def receiveLoop (env : ℕ → ByteEnv) : ℕ → Bytes → PacketBuf → Option Received
  | _, [], b => some ⟨true, [], b⟩
  | i, c :: buffer, b =>
    match ensurePacketCapacity b (env i).alloc with
    | (false, b) => some ⟨false, [], b⟩
    | (true, b) => do
      let b ← storeByte b c
      if c = newline then
        if (env i).retVal then do
          let r ← receiveLoop env (i + 1) buffer (b.reset (env i).left)
          some { r with handed := b.handed :: r.handed }
        else some ⟨false, [b.handed], b.reset (env i).left⟩
      else receiveLoop env (i + 1) buffer b

/-- `process_received_data` -/
def processReceivedData (env : ℕ → ByteEnv) (buffer : Bytes) (b : PacketBuf) : Option Received :=
  receiveLoop env 0 (buffer.take (u16 buffer.length)) b

/-- One round of the loop of `handle_client_communication`: what `recv` returns (`none` for `-1`),
what is decided for each byte, and `process_running` as read afterwards. -/
structure Round where
  received : Option Bytes
  env : ℕ → ByteEnv
  running : Bool

/-- The loop of `handle_client_communication`; `retVal` says that the connection is still open. -/
def clientLoop : PacketBuf → List Round → Option Received
  | b, [] => some ⟨true, [], b⟩
  | b, r :: rounds =>
    match r.received with
    | none => some ⟨false, [], b⟩
    | some [] => some ⟨false, [], b⟩
    | some (c :: buffer) => do
      let s ← processReceivedData r.env (c :: buffer) b
      if s.retVal ∧ r.running then do
        let t ← clientLoop s.buf rounds
        some { t with handed := s.handed ++ t.handed }
      else some { s with retVal := false }

/-- `handle_client_communication` up to the end of its loop: the outcomes of the two `malloc`s, and
the rounds. `none` in the second place is a failed `malloc`. -/
def handleClientCommunication (packet buffer : Outcome UInt8) (rounds : List Round) :
    Option (Option Received) :=
  match packet, buffer with
  | .ok _ fill, .ok _ _ => (clientLoop (PacketBuf.init fill) rounds).map some
  | _, _ => some none

end Aesd.Server.Packet
