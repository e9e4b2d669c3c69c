import Aesd.Server.Packet

/-!
# Framing does not depend on the chunks

After the bytes `l` of a connection, the buffer holds the segment still open (`Assembles b l`), and the
packets handed over are the closed segments of `l`. One byte keeps this (`ensurePacketCapacity_ok`,
`storeByte_ok`), so a chunk does (`receiveLoop_assembles`) and a list of chunks does
(`clientLoop_assembles`); the connection ends at the byte that finds a full buffer.
-/

namespace Aesd.Server.Framing

open Aesd.Lib.Alloc Aesd.Lib.Alloc.Heap Aesd.Lib.Blocks
open Aesd.Driver.Device Aesd.Server.Packet

/-- The byte ends a segment. -/
abbrev isNewline (c : UInt8) : Bool := c == newline

/-- **The bookkeeping of the buffer is right**: its size is that of the memory, and was doubled at
most five times; the index is within the memory and within the limit. -/
structure Fits (b : PacketBuf) : Prop where
  doubled : ∃ k ≤ 5, b.packetSize = socketBufferSize * 2 ^ k
  allocated : b.packet.length = b.packetSize
  index_le : b.packetIndex ≤ b.packetSize
  index_max : b.packetIndex ≤ maxPacketSize

/-- **The buffer after the bytes `l`**: it holds the open segment, and no segment was too long. -/
structure Assembles (b : PacketBuf) (l : Bytes) : Prop where
  fits : Fits b
  pending : b.packet.take b.packetIndex = rest isNewline l
  short : ∀ s ∈ blocks isNewline l, s.length ≤ maxPacketSize

theorem fits_init (fill : ℕ → UInt8) : Fits (PacketBuf.init fill) where
  doubled := ⟨0, by omega, rfl⟩
  allocated := by simp [PacketBuf.init]
  index_le := Nat.zero_le _
  index_max := Nat.zero_le _

theorem assembles_init (fill : ℕ → UInt8) : Assembles (PacketBuf.init fill) [] where
  fits := fits_init fill
  pending := rfl
  short := by simp

theorem Assembles.length_rest {b : PacketBuf} {l : Bytes} (h : Assembles b l) :
    (rest isNewline l).length = b.packetIndex := by
  rw [← h.pending, List.length_take, h.fits.allocated, min_eq_left h.fits.index_le]

/-! ### One byte -/

section Fits
variable {b : PacketBuf} (h : Fits b)
include h

theorem Fits.u16_double (hlt : b.packetSize < maxPacketSize) :
    u16 (b.packetSize * 2) = b.packetSize * 2 ∧
      ∃ k ≤ 5, b.packetSize * 2 = socketBufferSize * 2 ^ k := by
  obtain ⟨k, hk, hsize⟩ := h.doubled
  unfold socketBufferSize maxPacketSize at *
  have hk5 : k ≠ 5 := by
    rintro rfl
    omega
  have hpow : 2 ^ k ≤ 2 ^ 4 := Nat.pow_le_pow_right (by omega) (by omega)
  refine ⟨Nat.mod_eq_of_lt (by omega), k + 1, by omega, ?_⟩
  rw [hsize, pow_succ]
  ring

theorem ensurePacketCapacity_ok {o : Outcome UInt8} (ho : o.isOk = true)
    (hmax : b.packetIndex < maxPacketSize) :
    ∃ b', ensurePacketCapacity b o = (true, b') ∧ Fits b' ∧ b'.packetIndex = b.packetIndex ∧
      b.packetIndex < b'.packetSize ∧
      b'.packet.take b.packetIndex = b.packet.take b.packetIndex := by
  have hle := h.index_le
  have hlen := h.allocated
  unfold ensurePacketCapacity
  by_cases hfull : b.packetIndex ≥ b.packetSize
  · rcases o with _ | ⟨moved, fill⟩
    · cases ho
    obtain ⟨hu, hk⟩ := h.u16_double (by omega)
    have hpos : 0 < b.packetSize := by
      obtain ⟨k, -, hsize⟩ := h.doubled
      rw [hsize]
      positivity
    rw [if_pos ⟨hfull, hmax⟩, hu]
    refine ⟨_, rfl, ⟨hk, length_resized _ _ _, ?_, hmax.le⟩, rfl, ?_, ?_⟩
    · show b.packetIndex ≤ b.packetSize * 2
      omega
    · show b.packetIndex < b.packetSize * 2
      omega
    · exact take_resized (by omega) (by omega) fill
  · rw [if_neg (fun hn => hfull hn.1), if_neg (not_le.mpr hmax)]
    exact ⟨b, rfl, h, rfl, by omega, rfl⟩

theorem storeByte_ok (hlt : b.packetIndex < b.packetSize) (hmax : b.packetIndex < maxPacketSize)
    (c : UInt8) :
    ∃ b', storeByte b c = some b' ∧ Fits b' ∧ b'.packetIndex = b.packetIndex + 1 ∧
      b'.packet.take b'.packetIndex = b.packet.take b.packetIndex ++ [c] := by
  have hlen := h.allocated
  have hu : u16 (b.packetIndex + 1) = b.packetIndex + 1 := u16_eq hmax
  unfold storeByte
  rw [if_pos (by omega), hu]
  refine ⟨_, rfl, ⟨h.doubled, by simp [hlen], ?_, ?_⟩, rfl, ?_⟩
  · show b.packetIndex + 1 ≤ b.packetSize
    omega
  · show b.packetIndex + 1 ≤ maxPacketSize
    omega
  · show (b.packet.set b.packetIndex c).take (b.packetIndex + 1) = _
    rw [List.take_add_one, List.take_set_of_le le_rfl]
    simp [show b.packetIndex < b.packet.length by omega]

theorem fits_reset {left : Bytes → Bytes} (hleft : ∀ m, (left m).length = m.length) :
    Fits (b.reset left) where
  doubled := h.doubled
  allocated := (hleft _).trans h.allocated
  index_le := Nat.zero_le _
  index_max := Nat.zero_le _

end Fits

theorem ensurePacketCapacity_full {b : PacketBuf} (hmax : maxPacketSize ≤ b.packetIndex)
    (o : Outcome UInt8) : ensurePacketCapacity b o = (false, b) := by
  unfold ensurePacketCapacity
  rw [if_neg (fun h => absurd h.2 (not_lt.mpr hmax)), if_pos hmax]

/-- The buffer that took the byte `c` after the bytes `l`. -/
structure Took (b : PacketBuf) (l : Bytes) (c : UInt8) : Prop where
  fits : Fits b
  pending : b.packet.take b.packetIndex = rest isNewline l ++ [c]
  index : b.packetIndex = (rest isNewline l ++ [c]).length

theorem Assembles.takes_byte {b : PacketBuf} {l : Bytes} (h : Assembles b l) {o : Outcome UInt8}
    (ho : o.isOk = true) (hmax : b.packetIndex < maxPacketSize) (c : UInt8) :
    ∃ b₁ b₂, ensurePacketCapacity b o = (true, b₁) ∧ storeByte b₁ c = some b₂ ∧ Took b₂ l c := by
  obtain ⟨b₁, hcap, hfits₁, hidx₁, hlt₁, htake₁⟩ := ensurePacketCapacity_ok h.fits ho hmax
  obtain ⟨b₂, hstore, hfits₂, hidx₂, htake₂⟩ := storeByte_ok hfits₁ (by omega) (by omega) c
  refine ⟨b₁, b₂, hcap, hstore, hfits₂, ?_, ?_⟩
  · rw [htake₂, hidx₁, htake₁, h.pending]
  · rw [List.length_append, h.length_rest, hidx₂, hidx₁]
    rfl

section Took
variable {b : PacketBuf} {l : Bytes} {c : UInt8} (h : Took b l c)
include h

/-- A newline closes the segment: the segments closed are within the limit. -/
theorem Took.short (hp : isNewline c = true)
    (hl : ∀ s ∈ blocks isNewline l, s.length ≤ maxPacketSize) :
    ∀ s ∈ blocks isNewline (l ++ [c]), s.length ≤ maxPacketSize := by
  intro s hs
  rw [blocks_concat_pos hp, List.mem_append, List.mem_singleton] at hs
  rcases hs with hs | rfl
  · exact hl s hs
  · rw [← h.index]
    exact h.fits.index_max

/-- After a newline the buffer starts anew, whatever is left in it. -/
theorem Took.closes (hp : isNewline c = true)
    (hl : ∀ s ∈ blocks isNewline l, s.length ≤ maxPacketSize) {left : Bytes → Bytes}
    (hleft : ∀ m, (left m).length = m.length) : Assembles (b.reset left) (l ++ [c]) where
  fits := fits_reset h.fits hleft
  pending := by
    rw [rest_concat_pos hp]
    rfl
  short := h.short hp hl

theorem Took.continues (hp : isNewline c = false)
    (hl : ∀ s ∈ blocks isNewline l, s.length ≤ maxPacketSize) : Assembles b (l ++ [c]) where
  fits := h.fits
  pending := by rw [rest_concat_neg hp, h.pending]
  short := by
    rw [blocks_concat_neg hp]
    exact hl

end Took

/-! ### A chunk -/

/-- A byte for which the allocator and `process_packet` succeed. -/
def Succeeds (e : ByteEnv) : Prop := e.alloc.isOk = true ∧ e.retVal = true

/-- The pairs given to `process_packet` for the segments `ss`. -/
def pairs (ss : List Bytes) : List (Bytes × ℕ) := ss.map fun s => (s, s.length)

/-- What the bytes `m` do after the bytes `l`: all are taken, or one of them finds the open segment
at the limit. -/
inductive Outcomes (l m : Bytes) (r : Received) : Prop
  | taken (hret : r.retVal = true) (hbuf : Assembles r.buf (l ++ m))
      (hnew : pairs (blocks isNewline (l ++ m)) = pairs (blocks isNewline l) ++ r.handed)
  | full (hret : r.retVal = false) (m₁ : Bytes) (a : UInt8) (m₂ : Bytes) (hm : m = m₁ ++ a :: m₂)
      (hshort : ∀ s ∈ blocks isNewline (l ++ m₁), s.length ≤ maxPacketSize)
      (hlimit : maxPacketSize ≤ (rest isNewline (l ++ m₁)).length)
      (hnew : pairs (blocks isNewline (l ++ m₁)) = pairs (blocks isNewline l) ++ r.handed)

/-- One more byte in front: what the bytes after it do. -/
theorem Outcomes.cons {l m : Bytes} {c : UInt8} {r : Received} {new : List (Bytes × ℕ)}
    (h : Outcomes (l ++ [c]) m r)
    (hnew : pairs (blocks isNewline (l ++ [c])) = pairs (blocks isNewline l) ++ new) :
    Outcomes l (c :: m) { r with handed := new ++ r.handed } := by
  have happ : ∀ x : Bytes, l ++ [c] ++ x = l ++ c :: x := fun x => by simp
  cases h with
  | taken hret hbuf hall =>
    rw [happ] at hbuf hall
    exact .taken hret hbuf (by rw [hall, hnew, List.append_assoc])
  | full hret m₁ a m₂ hm hshort hlimit hall =>
    rw [happ] at hshort hlimit hall
    exact .full hret (c :: m₁) a m₂ (by rw [hm]; rfl) hshort hlimit
      (by rw [hall, hnew, List.append_assoc])

/-- **The loop of `process_received_data`.** The induction is on the bytes; the bytes before them are
general, as each byte joins them. -/
theorem receiveLoop_assembles {env : ℕ → ByteEnv} (henv : ∀ i, Succeeds (env i)) :
    ∀ (m : Bytes) (i : ℕ) {b : PacketBuf} {l : Bytes}, Assembles b l →
      ∃ r, receiveLoop env i m b = some r ∧ Outcomes l m r
  | [], i, b, l, h => ⟨⟨true, [], b⟩, rfl, .taken rfl (by simpa using h) (by simp)⟩
  | c :: m, i, b, l, h => by
    unfold receiveLoop
    by_cases hmax : maxPacketSize ≤ b.packetIndex
    · rw [ensurePacketCapacity_full hmax]
      refine ⟨_, rfl, .full rfl [] c m rfl ?_ ?_ ?_⟩
      · simpa using h.short
      · simpa [h.length_rest] using hmax
      · simp
    obtain ⟨b₁, b₂, hcap, hstore, hbyte⟩ := h.takes_byte (henv i).1 (not_le.mp hmax) c
    simp only [hcap, hstore, Option.bind_eq_bind, Option.bind_some]
    by_cases hc : c = newline
    · have hp : isNewline c = true := by simp [hc]
      have hhanded : pairs (blocks isNewline (l ++ [c])) =
          pairs (blocks isNewline l) ++ [b₂.handed] := by
        have hb : b₂.handed = (rest isNewline l ++ [c], (rest isNewline l ++ [c]).length) :=
          Prod.ext hbyte.pending hbyte.index
        rw [blocks_concat_pos hp, hb]
        simp [pairs]
      obtain ⟨r, hr, ho⟩ :=
        receiveLoop_assembles henv m (i + 1) (hbyte.closes hp h.short (env i).length_left)
      refine ⟨{ r with handed := [b₂.handed] ++ r.handed }, ?_, ho.cons hhanded⟩
      simp [hc, (henv i).2, hr]
    · have hp : isNewline c = false := by simp [hc]
      have hnone : pairs (blocks isNewline (l ++ [c])) = pairs (blocks isNewline l) ++ [] := by
        rw [blocks_concat_neg hp, List.append_nil]
      obtain ⟨r, hr, ho⟩ := receiveLoop_assembles henv m (i + 1) (hbyte.continues hp h.short)
      refine ⟨r, by simp [hc, hr], ?_⟩
      simpa using ho.cons hnone

/-! ### The connection -/

/-- A round in which `recv` returns between 1 and 1024 bytes, each is handled successfully, and
`process_running` stays `TRUE`. -/
structure Delivers (r : Round) (chunk : Bytes) : Prop where
  received : r.received = some chunk
  pos : 1 ≤ chunk.length
  le : chunk.length ≤ socketBufferSize
  succeeds : ∀ i, Succeeds (r.env i)
  running : r.running = true

/-- The rounds deliver the chunks. -/
abbrev Chunks (rounds : List Round) (chunks : List Bytes) : Prop :=
  List.Forall₂ Delivers rounds chunks

theorem clientLoop_assembles {rounds : List Round} {chunks : List Bytes}
    (hr : Chunks rounds chunks) :
    ∀ {b : PacketBuf} {l : Bytes}, Assembles b l →
      ∃ r, clientLoop b rounds = some r ∧ Outcomes l chunks.flatten r := by
  induction hr with
  | nil => exact fun {b l} h => ⟨⟨true, [], b⟩, rfl, .taken rfl (by simpa using h) (by simp)⟩
  | @cons round chunk rounds chunks hround _ ih =>
    intro b l h
    have hu : chunk.take (u16 chunk.length) = chunk := by
      rw [u16_received hround.le, List.take_length]
    obtain ⟨c, buffer, rfl⟩ := List.exists_cons_of_length_pos hround.pos
    obtain ⟨s, hs, hos⟩ := receiveLoop_assembles hround.succeeds (c :: buffer) 0 h
    have hproc : processReceivedData round.env (c :: buffer) b = some s := by
      unfold processReceivedData
      rw [hu, hs]
    unfold clientLoop
    simp only [hround.received, hproc, Option.bind_eq_bind, Option.bind_some, hround.running,
      List.flatten_cons]
    cases hos with
    | taken hret hbuf hnew =>
      obtain ⟨t, ht, hot⟩ := ih hbuf
      refine ⟨{ t with handed := s.handed ++ t.handed }, by simp [hret, ht], ?_⟩
      cases hot with
      | taken hret' hbuf' hnew' =>
        rw [List.append_assoc] at hbuf' hnew'
        exact .taken hret' hbuf' (by rw [hnew', hnew, List.append_assoc])
      | full hret' m₁ a m₂ hm hshort hlimit hnew' =>
        rw [List.append_assoc] at hshort hlimit hnew'
        exact .full hret' ((c :: buffer) ++ m₁) a m₂ (by rw [hm, List.append_assoc]) hshort hlimit
          (by rw [hnew', hnew, List.append_assoc])
    | full hret m₁ a m₂ hm hshort hlimit hnew =>
      refine ⟨{ s with retVal := false }, by simp [hret], ?_⟩
      exact .full rfl m₁ a (m₂ ++ chunks.flatten) (by rw [hm]; simp) hshort hlimit hnew

/-- The segments within the limit before the first one beyond it. -/
def withinLimit (s : Bytes) : List Bytes :=
  (blocks isNewline s).takeWhile fun p => p.length ≤ maxPacketSize

/-- **Framing.** However a stream is divided into chunks of 1 to 1024 bytes, the packets handed to
`process_packet` are its newline-terminated segments, in order and unchanged, up to the first one
longer than the limit; and the connection ends by itself exactly if a segment, or the unterminated
tail, is longer than the limit. -/
theorem handleClientCommunication_frames (s : Bytes) {chunks : List Bytes}
    (hs : chunks.flatten = s) {rounds : List Round} (hr : Chunks rounds chunks)
    {packet buffer : Outcome UInt8} (hp : packet.isOk = true) (hb : buffer.isOk = true) :
    ∃ r, handleClientCommunication packet buffer rounds = some (some r) ∧
      r.handed = pairs (withinLimit s) ∧
      (r.retVal = false ↔
        ∃ p ∈ blocks isNewline s ++ [rest isNewline s], maxPacketSize < p.length) := by
  rcases packet with _ | ⟨moved, fill⟩
  · cases hp
  rcases buffer with _ | ⟨moved', fill'⟩
  · cases hb
  obtain ⟨r, hloop, ho⟩ := clientLoop_assembles hr (assembles_init fill)
  rw [hs] at ho
  refine ⟨r, by simp [handleClientCommunication, hloop], ?_⟩
  unfold withinLimit
  cases ho with
  | taken hret hbuf hnew =>
    have hshort := hbuf.short
    have hrest := hbuf.length_rest
    have hmax := hbuf.fits.index_max
    simp only [List.nil_append] at hnew hshort hrest
    have hall : ∀ p ∈ blocks isNewline s, decide (p.length ≤ maxPacketSize) = true :=
      fun p hp => by simpa using hshort p hp
    refine ⟨?_, fun h => absurd h (by simp [hret]), ?_⟩
    · rw [List.takeWhile_eq_self_iff.mpr hall, hnew]
      rfl
    · rintro ⟨p, hp, hlong⟩
      rw [List.mem_append, List.mem_singleton] at hp
      rcases hp with hp | rfl
      · exact absurd hlong (not_lt.mpr (hshort p hp))
      · omega
  | full hret m₁ a m₂ hm hshort hlimit hnew =>
    simp only [List.nil_append] at hshort hlimit hnew
    rw [hm]
    refine ⟨?_, fun _ => exists_long_of_full isNewline m₁ a m₂ hlimit, fun _ => hret⟩
    rw [takeWhile_blocks_of_full isNewline m₁ a m₂ hshort hlimit, hnew]
    rfl

/-- A byte after which `send_file` leaves zeroes in the buffer. -/
def zeroing : ByteEnv where
  alloc := .ok false fun _ => 0
  retVal := true
  left m := List.replicate m.length 0
  length_left m := by simp

/-- A chunk received without trouble. -/
def delivery (chunk : Bytes) : Round := ⟨some chunk, fun _ => zeroing, true⟩

/-- `"a\n\0\nb"`, cut in the first line. -/
theorem handleClientCommunication_frames_two :
    ∃ r, handleClientCommunication (.ok false fun _ => 0) (.ok false fun _ => 0)
        [delivery [97], delivery [10, 0, 10, 98]] = some (some r) ∧
      r.handed = pairs (withinLimit [97, 10, 0, 10, 98]) ∧
      (r.retVal = false ↔ ∃ p ∈ blocks isNewline [97, 10, 0, 10, 98] ++
        [rest isNewline [97, 10, 0, 10, 98]], maxPacketSize < p.length) := by
  have hd : ∀ chunk : Bytes, 1 ≤ chunk.length → chunk.length ≤ socketBufferSize →
      Delivers (delivery chunk) chunk :=
    fun chunk h₁ h₂ => ⟨rfl, h₁, h₂, fun _ => ⟨rfl, rfl⟩, rfl⟩
  have hr : Chunks [delivery [97], delivery [10, 0, 10, 98]] [[97], [10, 0, 10, 98]] :=
    .cons (hd _ (by decide) (by decide)) (.cons (hd _ (by decide) (by decide)) .nil)
  exact handleClientCommunication_frames [97, 10, 0, 10, 98] rfl hr rfl rfl

end Aesd.Server.Framing
