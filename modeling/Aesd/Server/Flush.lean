import Aesd.Server.SendFile

/-!
# Storing and echoing a packet

`flush_packet_to_client` from `fwrite` on: the packet goes through the stream to the log device, then the
log is sent. The stream hands the packet over in pieces, and what the log shows after them is a
parameter. The results of `fwrite` and `fflush` are not looked at, and `0` from `fread` is taken for the
end of the log: a success means that the packet is stored and the log was echoed exactly if nothing was
lost at these places (`flush_sound_iff`).
-/

namespace Aesd.Server.Flush

open Aesd.Lib.Concat
open Aesd.Driver.Device Aesd.Server.SendFile

/-- What the C library and the kernel decide: the lengths of the pieces that reach the log device during
`fwrite` and during `fflush` (or the seek after it, which flushes again), together less than the packet
if something is lost on the way, and what is decided in `send_file`. -/
structure FlushEnv where
  fwrite : List ℕ
  fflush : List ℕ
  sendEnv : SendEnv

/-- What came of `flush_packet_to_client`: whether it returned `EXIT_SUCCESS`, the pieces handed to the
log device, and what the socket took. -/
structure Flushed where
  retVal : Bool
  handed : List Bytes
  sent : Bytes
  deriving DecidableEq

/-- `flush_packet_to_client` on an open stream; `log` is the content of the log after the pieces it was
handed. -/
def flushPacketToClient (log : List Bytes → Bytes) (bufferSize : ℕ) (env : FlushEnv)
    (packet : Bytes) : Flushed :=
  let handed := pieces (env.fwrite ++ env.fflush) packet
  let r := sendFile bufferSize env.sendEnv (log handed)
  ⟨r.1, handed, r.2⟩

/-- **A success is what it says**: the packet was handed to the log device, and the client was sent the
whole log as it is then. -/
def Sound (log : List Bytes → Bytes) (packet : Bytes) (f : Flushed) : Prop :=
  f.retVal = true → f.handed.flatten = packet ∧ f.sent = log f.handed

/-- A failure that `send_file` reports, for a log of `n` bytes: a seek, or a `send`. -/
def SendFails (bufferSize : ℕ) (env : SendEnv) (n : ℕ) : Prop :=
  env.seekStart = false ∨ env.seekEnd = false ∨
    ∃ (b len : ℕ), (blockLengths bufferSize env.fread 0 n)[b]? = some len ∧ Interrupted (env.send b) len

/-- The packet reaches the device whole, and `fread` does not stop before the end of the log. -/
def NothingLost (log : List Bytes → Bytes) (bufferSize : ℕ) (env : FlushEnv) (packet : Bytes) :
    Prop :=
  packet.length ≤ (env.fwrite ++ env.fflush).sum ∧
    (blockLengths bufferSize env.sendEnv.fread 0
      (log (pieces (env.fwrite ++ env.fflush) packet)).length).sum =
        (log (pieces (env.fwrite ++ env.fflush) packet)).length

theorem sendFile_fst (bufferSize : ℕ) (env : SendEnv) (file : Bytes) :
    (sendFile bufferSize env file).1 = true ↔ ¬ SendFails bufferSize env file.length := by
  by_cases hstart : env.seekStart = true
  · rw [sendFile_eq hstart, Bool.and_eq_true, sendBlocks_fst]
    unfold SendFails
    rw [← map_length_blocks]
    constructor
    · rintro ⟨hall, hend⟩ (h | h | ⟨b, len, hlen, hint⟩)
      · simp [hstart] at h
      · simp [hend] at h
      · rw [List.getElem?_map, Option.map_eq_some_iff] at hlen
        obtain ⟨block, hblock, rfl⟩ := hlen
        refine hall b block hblock ?_
        rwa [Nat.zero_add]
    · intro h
      refine ⟨fun i block hi hint => h (Or.inr (Or.inr ⟨i, block.length, ?_, ?_⟩)), ?_⟩
      · rw [List.getElem?_map, hi]
        rfl
      · rwa [Nat.zero_add] at hint
      · by_contra hend
        exact h (Or.inr (Or.inl (by simpa using hend)))
  · have hfail : SendFails bufferSize env file.length := Or.inl (by simpa using hstart)
    unfold sendFile
    rw [if_neg hstart]
    simp [hfail]

theorem sendFile_snd {bufferSize : ℕ} {env : SendEnv} {file : Bytes}
    (h : (sendFile bufferSize env file).1 = true) :
    (sendFile bufferSize env file).2 =
      file.take (blockLengths bufferSize env.fread 0 file.length).sum := by
  have hstart : env.seekStart = true := by
    by_contra hstart
    exact (sendFile_fst bufferSize env file).mp h (Or.inl (by simpa using hstart))
  rw [sendFile_eq hstart, Bool.and_eq_true] at h
  rw [sendFile_eq hstart]
  dsimp only
  rw [sendBlocks_all h.1, blocks, flatten_pieces]

/-- **When a successful flush means what it says.** For every packet, every log and every outcome of the
calls: exactly if the packet reached the device whole and the log was read to its end, or a seek or a
`send` failed. -/
theorem flush_sound_iff (log : List Bytes → Bytes) (bufferSize : ℕ) (env : FlushEnv)
    (packet : Bytes) :
    Sound log packet (flushPacketToClient log bufferSize env packet) ↔
      NothingLost log bufferSize env packet ∨ SendFails bufferSize env.sendEnv
        (log (pieces (env.fwrite ++ env.fflush) packet)).length := by
  set handed := pieces (env.fwrite ++ env.fflush) packet with hhanded
  have hle := sum_blockLengths_le bufferSize env.sendEnv.fread 0 (log handed).length
  have hfst := sendFile_fst bufferSize env.sendEnv (log handed)
  have hstored : handed.flatten = packet ↔ packet.length ≤ (env.fwrite ++ env.fflush).sum := by
    rw [hhanded, flatten_pieces, List.take_eq_self_iff]
  unfold Sound flushPacketToClient NothingLost
  dsimp only
  rw [← hhanded]
  by_cases hfail : SendFails bufferSize env.sendEnv (log handed).length
  · refine iff_of_true (fun hok => absurd hfail (hfst.mp hok)) (Or.inr hfail)
  · have hok := hfst.mpr hfail
    rw [hstored, sendFile_snd hok, List.take_eq_self_iff]
    constructor
    · intro h
      obtain ⟨hw, hr⟩ := h hok
      exact Or.inl ⟨hw, by omega⟩
    · rintro (⟨hw, hr⟩ | h)
      · exact fun _ => ⟨hw, hr.ge⟩
      · exact absurd h hfail

/-- Every call succeeds, but nothing of the packet reaches the device. -/
def fwriteFails : FlushEnv := ⟨[], [], ⟨true, true, fun _ => some 0, fun _ _ => some 0⟩⟩

/-- **A lost packet is reported as stored**: `fwrite` fails, and the empty log is echoed with success. -/
theorem flush_loses_packet :
    flushPacketToClient List.flatten 1024 fwriteFails [97, newline] = ⟨true, [], []⟩ ∧
      ¬ Sound List.flatten [97, newline]
        (flushPacketToClient List.flatten 1024 fwriteFails [97, newline]) := by
  have hrun : flushPacketToClient List.flatten 1024 fwriteFails [97, newline] = ⟨true, [], []⟩ := by
    unfold flushPacketToClient sendFile
    simp [fwriteFails, pieces, sendLoop, blockLength]
  refine ⟨hrun, ?_⟩
  rw [hrun]
  unfold Sound
  decide

end Aesd.Server.Flush
