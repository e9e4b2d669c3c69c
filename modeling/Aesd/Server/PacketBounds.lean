import Aesd.Server.PacketMemory

/-!
# The packet buffer is never left

The invariant of `handle_client_communication` (`Inv`): before and after the loop the pointers that are
not `NULL` point to allocations of the right size; in it the memory holds a buffer that fits (`Holds`,
`Fits`), with a margin that depends on the place (`Place`). Each step keeps it, whatever is received,
whichever allocations fail and however `process_packet` comes out; so no run accesses memory outside an
allocation, and `packet_index` and `packet_size` stay within their bounds (`packet_in_bounds`).
-/

namespace Aesd.Server.PacketBounds

open Aesd.Lib.Alloc Aesd.Lib.Alloc.Heap Aesd.Lib.Lts
open Aesd.Driver.Device Aesd.Server.Command Aesd.Server.Packet Aesd.Server.Framing
open Aesd.Server.PacketMemory

/-- The length of the string `parse_xy_str` copies. -/
def xyStrLength (packetLength : ℕ) : ℕ := u16 (packetLength - seektoPacketPrefixLength)

/-- **The buffer is within its bounds.** -/
structure Bounded (s : State) : Prop where
  sane : s.fault = false
  allocated : s.pc ≠ .freeBuffer → s.pc ≠ .done → ∀ p, s.packet = some p →
    ∃ b, s.heap.block p = some b ∧ b.length = s.packetSize
  doubled : ∃ k ≤ 5, s.packetSize = socketBufferSize * 2 ^ k
  /-- The next doubling does not wrap. -/
  doubling : s.packetSize ≤ s.packetIndex → s.packetIndex < maxPacketSize →
    u16 (s.packetSize * 2) = s.packetSize * 2
  index : s.packetIndex ≤ min s.packetSize maxPacketSize
  store : s.pc = .store → s.packetIndex < s.packetSize
  length : s.pc = .process →
    1 ≤ s.packetIndex ∧ s.packetIndex ≤ maxPacketSize ∧ s.packetIndex ≤ s.packetSize
  /-- The last byte of the copy that `parse_xy_str` makes, if it is called. -/
  terminator : s.pc = .process → seektoPacketPrefixLength < s.packetIndex →
    ∀ o q h, s.heap.malloc (xyStrLength s.packetIndex) o = (some q, h) →
      1 ≤ xyStrLength s.packetIndex ∧
        ∃ xyStr, h.block q = some xyStr ∧ xyStrLength s.packetIndex - 1 < xyStr.length
  /-- A failed `realloc` changes nothing. -/
  failed : ∀ s', step s (.reserve .null) = some s' → s'.packet = s.packet ∧ s'.heap = s.heap ∧
    s'.packetSize = s.packetSize ∧ s'.packetIndex = s.packetIndex

/-- The buffer within its bounds, whatever the allocator does: if it reports room, there is room. -/
theorem ensurePacketCapacity_fits {b : PacketBuf} (h : Fits b) (o : Outcome UInt8) :
    Fits (ensurePacketCapacity b o).2 ∧
      ((ensurePacketCapacity b o).1 = true →
        (ensurePacketCapacity b o).2.packetIndex < (ensurePacketCapacity b o).2.packetSize ∧
          (ensurePacketCapacity b o).2.packetIndex < maxPacketSize) := by
  by_cases hmax : b.packetIndex < maxPacketSize
  · rcases o with _ | ⟨moved, fill⟩
    · unfold ensurePacketCapacity
      by_cases hfull : b.packetIndex ≥ b.packetSize
      · rw [if_pos ⟨hfull, hmax⟩]
        exact ⟨h, fun hret => by cases hret⟩
      · rw [if_neg fun hn => hfull hn.1, if_neg (not_le.mpr hmax)]
        exact ⟨h, fun _ => ⟨not_le.mp hfull, hmax⟩⟩
    · obtain ⟨b', heq, hfits, hindex, hlt, -⟩ := ensurePacketCapacity_ok h (o := .ok moved fill) rfl hmax
      rw [heq]
      exact ⟨hfits, fun _ => ⟨hindex.trans_lt hlt, hindex.trans_lt hmax⟩⟩
  · rw [ensurePacketCapacity_full (not_lt.mp hmax)]
    exact ⟨h, fun hret => by cases hret⟩

/-! ### The invariant -/

/-- The connection is served: both allocations are there. -/
def serving : Pc → Bool
  | .mallocPacket | .mallocBuffer | .freePacket | .freeBuffer | .done => false
  | _ => true

/-- What holds at a place while the connection is served. -/
def Place (s : State) : Prop :=
  match s.pc with
  | .recv | .received _ => True
  | .forHead => s.bytesReceived ≤ socketBufferSize
  | .reserve | .fwrite | .sendFile => s.bytesReceived ≤ socketBufferSize ∧ s.i < s.bytesReceived
  | .store => s.bytesReceived ≤ socketBufferSize ∧ s.i < s.bytesReceived ∧
      s.packetIndex < s.packetSize ∧ s.packetIndex < maxPacketSize
  | .process => s.bytesReceived ≤ socketBufferSize ∧ s.i < s.bytesReceived ∧ 1 ≤ s.packetIndex
  | _ => False

/-- If there is a packet, it has the size in `packet_size`. -/
def Live (s : State) : Prop :=
  ∀ p, s.packet = some p → ∃ b, s.heap.block p = some b ∧ b.length = s.packetSize

/-- Which of the two allocations are there. -/
def Stage (s : State) : Prop :=
  match s.pc with
  | .mallocPacket => s.packet = none ∧ s.buffer = none ∧ s.packetSize = socketBufferSize
  | .mallocBuffer => Live s ∧ s.buffer = none ∧ s.packetSize = socketBufferSize
  | .freePacket => Live s ∧
      ∀ q, s.buffer = some q → s.packet ≠ some q ∧ s.heap.block q ≠ none
  | .freeBuffer => ∀ q, s.buffer = some q → s.heap.block q ≠ none
  | .done => True
  | _ => ∃ p q b chunk, Holds s p q b chunk ∧ Fits b ∧ Place s

structure Inv (s : State) : Prop where
  sane : s.fault = false
  doubled : ∃ k ≤ 5, s.packetSize = socketBufferSize * 2 ^ k
  index : s.packetIndex ≤ min s.packetSize maxPacketSize
  stage : Stage s

section Inv
variable {s s' : State}

theorem inv_init (h : Init s) : Inv s where
  sane := h.fault
  doubled := ⟨0, by omega, h.size⟩
  index := by
    rw [h.index]
    exact Nat.zero_le _
  stage := by
    simp only [Stage, h.pc]
    exact ⟨h.packet, h.buffer, h.size⟩

theorem live_of_holds {p q : ℕ} {b : PacketBuf} {chunk : Bytes} (h : Holds s p q b chunk)
    (hfits : Fits b) : Live s := by
  intro p' hp'
  rw [h.packet, Option.some.injEq] at hp'
  exact ⟨b.packet, hp' ▸ h.packetBlock, hfits.allocated.trans h.size.symm⟩

theorem inv_of_holds {p q : ℕ} {b : PacketBuf} {chunk : Bytes} (h : Holds s p q b chunk)
    (hfits : Fits b) (hplace : Place s) (hsane : s.fault = false) : Inv s where
  sane := hsane
  doubled := h.size ▸ hfits.doubled
  index := by
    rw [h.index, h.size]
    exact le_min hfits.index_le hfits.index_max
  stage := by
    have hserving := hplace
    unfold Stage
    cases hpc : s.pc <;> simp only [Place, hpc] at hserving
    all_goals exact ⟨p, q, b, chunk, h, hfits, hplace⟩

theorem inv_leave {p q : ℕ} {b : PacketBuf} {chunk : Bytes} (h : Holds s p q b chunk)
    (hfits : Fits b) (hsane : s.fault = false) : Inv (s.goto .freePacket) where
  sane := hsane
  doubled := h.size ▸ hfits.doubled
  index := by
    show s.packetIndex ≤ min s.packetSize maxPacketSize
    rw [h.index, h.size]
    exact le_min hfits.index_le hfits.index_max
  stage := by
    refine ⟨live_of_holds (h.goto .freePacket) hfits, fun q' hq' => ?_⟩
    have hqq' : q = q' := Option.some.inj (h.buffer.symm.trans hq')
    subst hqq'
    refine ⟨fun hp => ?_, ?_⟩
    · exact h.distinct (Option.some.inj (hp.symm.trans h.packet))
    · show s.heap.block q ≠ none
      rw [h.bufferBlock]
      simp

theorem Inv.holds (h : Inv s) (hs : serving s.pc = true) :
    ∃ p q b chunk, Holds s p q b chunk ∧ Fits b ∧ Place s := by
  have hstage := h.stage
  unfold Stage at hstage
  cases hpc : s.pc <;> simp only [hpc, serving, Bool.false_eq_true] at hs hstage
  all_goals exact hstage

/-- Until it is freed, the packet has the size in `packet_size`. -/
theorem Inv.live (h : Inv s) (hbuf : s.pc ≠ .freeBuffer) (hdone : s.pc ≠ .done) : Live s := by
  by_cases hs : serving s.pc = true
  · obtain ⟨p, q, b, chunk, hold, hfits, -⟩ := h.holds hs
    exact live_of_holds hold hfits
  · have hstage := h.stage
    unfold Stage at hstage
    cases hpc : s.pc <;> simp only [hpc, serving, not_true_eq_false] at hs hstage
    case mallocPacket =>
      intro p hp
      rw [hstage.1] at hp
      cases hp
    case mallocBuffer => exact hstage.1
    case freePacket => exact hstage.1
    case freeBuffer => exact absurd hpc hbuf
    case done => exact absurd hpc hdone

/-! ### The steps -/

theorem Inv.mallocPacket (h : Inv s) (hpc : s.pc = .mallocPacket) (o : Outcome UInt8) :
    Inv (s.mallocPacket o) := by
  have hstage := h.stage
  simp only [Stage, hpc] at hstage
  obtain ⟨-, hbuffer, hsize⟩ := hstage
  refine ⟨h.sane, h.doubled, h.index, fun p hp => ?_, hbuffer, hsize⟩
  rcases o with _ | ⟨moved, fill⟩
  · cases hp
  · obtain ⟨q, heap, b, hmalloc, -, hblock, hlen, -⟩ := malloc_ok s.heap socketBufferSize moved fill
    simp only [State.mallocPacket, hmalloc, Option.some.injEq] at hp ⊢
    exact ⟨b, hp ▸ hblock, hlen.trans hsize.symm⟩

theorem Inv.mallocBuffer (h : Inv s) (hpc : s.pc = .mallocBuffer) (o : Outcome UInt8) :
    Inv (s.mallocBuffer o) := by
  have hstage := h.stage
  simp only [Stage, hpc] at hstage
  obtain ⟨hlive, -, -⟩ := hstage
  unfold State.mallocBuffer
  rcases o with _ | ⟨moved, fill⟩
  · -- no `buffer`: nothing is received
    simp only [malloc, or_true, if_true]
    exact ⟨h.sane, h.doubled, h.index, hlive, fun q hq => by cases hq⟩
  · obtain ⟨q, heap, chunk, hmalloc, hfresh, hblock, hlen, hframe⟩ :=
      malloc_ok s.heap socketBufferSize moved fill
    rw [hmalloc]
    by_cases hp : s.packet = none
    · rw [if_pos (.inl hp)]
      refine ⟨h.sane, h.doubled, h.index, fun p hp' => ?_, fun q' hq' => ?_⟩
      · exact absurd (hp.symm.trans hp') (by simp)
      · obtain rfl := Option.some.inj hq'
        exact ⟨by simp [State.goto, hp], by simp [State.goto, hblock]⟩
    · rw [if_neg (by simp [hp])]
      obtain ⟨p, hp⟩ := Option.ne_none_iff_exists'.mp hp
      obtain ⟨b, hb, hblen⟩ := hlive p hp
      have hqp : q ≠ p := by
        rintro rfl
        rw [hb] at hfresh
        cases hfresh
      have hfits : Fits ⟨b, s.packetIndex, s.packetSize⟩ :=
        ⟨h.doubled, hblen, h.index.trans (min_le_left _ _), h.index.trans (min_le_right _ _)⟩
      have hold : Holds ({ s with buffer := some q, heap }.goto .recv) p q
          ⟨b, s.packetIndex, s.packetSize⟩ chunk :=
        ⟨hp, rfl, hqp, (hframe p hqp.symm).trans hb, hblock, hlen, rfl, rfl⟩
      exact inv_of_holds hold hfits trivial h.sane

theorem Inv.recv (h : Inv s) (hpc : s.pc = .recv) {bytes : Bytes}
    (hlen : bytes.length ≤ socketBufferSize) : Inv ((s.recv bytes).getD s.crash) := by
  obtain ⟨p, q, b, chunk, hold, hfits, -⟩ := h.holds (by rw [hpc]; rfl)
  obtain ⟨heap, chunk', hwrite, hblock, hclen, -, hframe⟩ :=
    write_ok hold.bufferBlock 0 bytes (by rw [hold.length]; omega)
  have hrecv : s.recv bytes = some
      { s with heap, bytesReceived := bytes.length, i := 0, pc := .forHead } := by
    simp only [State.recv, hold.buffer, hwrite, Option.bind_eq_bind, Option.bind_some]
  rw [hrecv, Option.getD_some]
  have hold' : Holds { s with heap, bytesReceived := bytes.length, i := 0, pc := .forHead } p q b
      chunk' :=
    { hold with
      packetBlock := (hframe p hold.distinct.symm).trans hold.packetBlock
      bufferBlock := hblock
      length := hclen.trans hold.length }
  exact inv_of_holds hold' hfits hlen h.sane

theorem Inv.forHead (h : Inv s) (hpc : s.pc = .forHead) : Inv s.forHead := by
  obtain ⟨p, q, b, chunk, hold, hfits, hplace⟩ := h.holds (by rw [hpc]; rfl)
  simp only [Place, hpc] at hplace
  unfold State.forHead
  rw [u16_received hplace]
  split_ifs with hi
  · exact inv_of_holds (hold.goto _) hfits ⟨hplace, hi⟩ h.sane
  · exact inv_of_holds (hold.goto _) hfits trivial h.sane

theorem Inv.reserve (h : Inv s) (hpc : s.pc = .reserve) (o : Outcome UInt8) :
    Inv ((s.reserve o).getD s.crash) := by
  obtain ⟨p, q, b, chunk, hold, hfits, hplace⟩ := h.holds (by rw [hpc]; rfl)
  simp only [Place, hpc] at hplace
  obtain ⟨hfits', hroom⟩ := ensurePacketCapacity_fits hfits o
  obtain ⟨p', heap, size, hcap, hold'⟩ := ensurePacketCapacity_refines hold o
  unfold State.reserve
  rw [hcap]
  rcases hret : (ensurePacketCapacity b o).1 with _ | _
  · exact inv_of_holds (hold'.goto (.received false)) hfits' trivial h.sane
  · have hindex := hold'.index
    have hsize := hold'.size
    obtain ⟨hlt, hmax⟩ := hroom hret
    rw [← hindex] at hlt hmax
    rw [← hsize] at hlt
    exact inv_of_holds (hold'.goto .store) hfits' ⟨hplace.1, hplace.2, hlt, hmax⟩ h.sane

theorem inv_next {p q : ℕ} {b : PacketBuf} {chunk : Bytes} (hold : Holds s p q b chunk)
    (hfits : Fits b) (hlen : s.bytesReceived ≤ socketBufferSize) (hsane : s.fault = false) :
    Inv s.next :=
  inv_of_holds hold.next hfits hlen hsane

theorem Inv.store (h : Inv s) (hpc : s.pc = .store) : Inv (s.store.getD s.crash) := by
  obtain ⟨p, q, b, chunk, hold, hfits, hplace⟩ := h.holds (by rw [hpc]; rfl)
  simp only [Place, hpc] at hplace
  obtain ⟨hlen, hi, hlt, hmax⟩ := hplace
  rw [hold.index, hold.size] at hlt
  rw [hold.index] at hmax
  have hic : s.i < chunk.length := by rw [hold.length]; omega
  obtain ⟨b', hb', hfits', hindex, -⟩ := storeByte_ok hfits hlt hmax chunk[s.i]
  obtain ⟨heap, hstore, hold'⟩ := store_refines hold (List.getElem?_eq_getElem hic) hb'
  rw [hstore, Option.getD_some]
  split_ifs with hnewline
  · refine inv_of_holds (hold'.goto .process) hfits' ⟨hlen, hi, ?_⟩ h.sane
    show 1 ≤ b'.packetIndex
    omega
  · exact inv_next hold' hfits' hlen h.sane

theorem Inv.process (h : Inv s) (hpc : s.pc = .process) (o : Outcome UInt8) (seekto : Seekto) :
    Inv ((s.process o seekto).getD s.crash) := by
  obtain ⟨p, q, b, chunk, hold, hfits, hplace⟩ := h.holds (by rw [hpc]; rfl)
  simp only [Place, hpc] at hplace
  obtain ⟨call, heap, hcall, hframe⟩ :=
    processPacket_returns hold.packetBlock (hfits.index_le.trans_eq hfits.allocated.symm)
      hfits.index_max s.sockFd s.packetSize o seekto
  have hprocess : ∃ pc, (pc = .sendFile ∨ pc = .fwrite) ∧
      s.process o seekto = some ({ s with heap }.goto pc) := by
    unfold State.process
    rw [hold.packet, Option.bind_eq_bind, Option.bind_some, hold.index, hcall,
      Option.bind_eq_bind, Option.bind_some, ← hold.index, ← hold.packet]
    cases call with
    | processSeektoPacket => exact ⟨.sendFile, .inl rfl, rfl⟩
    | flushPacketToClient => exact ⟨.fwrite, .inr rfl, rfl⟩
  obtain ⟨pc, hnext, hprocess⟩ := hprocess
  rw [hprocess, Option.getD_some]
  have hold' := (hold.of_block hframe).goto pc
  rcases hnext with rfl | rfl
  · exact inv_of_holds hold' hfits ⟨hplace.1, hplace.2.1⟩ h.sane
  · exact inv_of_holds hold' hfits ⟨hplace.1, hplace.2.1⟩ h.sane

theorem Inv.fwrite (h : Inv s) (hpc : s.pc = .fwrite) : Inv (s.fwrite.getD s.crash) := by
  obtain ⟨p, q, b, chunk, hold, hfits, hplace⟩ := h.holds (by rw [hpc]; rfl)
  simp only [Place, hpc] at hplace
  have hin : 0 + b.packetIndex ≤ b.packet.length := by
    rw [Nat.zero_add, hfits.allocated]
    exact hfits.index_le
  have hread := read_eq hold.packetBlock hin
  have hfwrite : s.fwrite = some (s.goto .sendFile) := by
    simp only [State.fwrite, hold.packet, hold.index, hread, Option.bind_eq_bind, Option.bind_some]
  rw [hfwrite, Option.getD_some]
  exact inv_of_holds (hold.goto .sendFile) hfits hplace h.sane

theorem Inv.fread (h : Inv s) (hpc : s.pc = .sendFile) {block : Bytes}
    (hlen : block.length ≤ s.packetSize) : Inv ((s.fread block).getD s.crash) := by
  obtain ⟨p, q, b, chunk, hold, hfits, hplace⟩ := h.holds (by rw [hpc]; rfl)
  rw [hold.size, ← hfits.allocated] at hlen
  obtain ⟨heap, m, hwrite, hblock, hmlen, -, hframe⟩ :=
    write_ok hold.packetBlock 0 block (by rw [Nat.zero_add]; exact hlen)
  have hfread : s.fread block = some { s with heap } := by
    simp only [State.fread, hold.packet, hwrite, Option.bind_eq_bind, Option.bind_some]
  rw [hfread, Option.getD_some]
  have hfits' : Fits { b with packet := m } :=
    { hfits with allocated := hmlen.trans hfits.allocated }
  have hold' : Holds { s with heap } p q { b with packet := m } chunk :=
    { hold with
      packetBlock := hblock
      bufferBlock := (hframe q hold.distinct).trans hold.bufferBlock }
  refine inv_of_holds hold' hfits' ?_ h.sane
  simpa only [Place, hpc] using hplace

theorem Inv.processed (h : Inv s) (hpc : s.pc = .sendFile) (ret : Bool) : Inv (s.processed ret) := by
  obtain ⟨p, q, b, chunk, hold, hfits, hplace⟩ := h.holds (by rw [hpc]; rfl)
  simp only [Place, hpc] at hplace
  have hfits' : Fits { b with packetIndex := 0 } :=
    { hfits with index_le := Nat.zero_le _, index_max := Nat.zero_le _ }
  have hold' : Holds { s with packetIndex := 0 } p q { b with packetIndex := 0 } chunk :=
    { hold with index := rfl }
  cases ret with
  | true => exact inv_next hold' hfits' hplace.1 h.sane
  | false => exact inv_of_holds (hold'.goto (.received false)) hfits' trivial h.sane

theorem Inv.loopTest {ret : Bool} (h : Inv s) (hpc : s.pc = .received ret) (running : Bool) :
    Inv (if ret && running then s.goto .recv else s.goto .freePacket) := by
  obtain ⟨p, q, b, chunk, hold, hfits, -⟩ := h.holds (by rw [hpc]; rfl)
  split_ifs
  · exact inv_of_holds (hold.goto .recv) hfits trivial h.sane
  · exact inv_leave hold hfits h.sane

theorem Inv.freePacket (h : Inv s) (hpc : s.pc = .freePacket) :
    Inv (s.freePacket.getD s.crash) := by
  have hstage := h.stage
  simp only [Stage, hpc] at hstage
  obtain ⟨hlive, hbuffer⟩ := hstage
  unfold State.freePacket
  rcases hp : s.packet with _ | p
  · exact ⟨h.sane, h.doubled, h.index, fun q hq => (hbuffer q hq).2⟩
  · obtain ⟨b, hb, -⟩ := hlive p hp
    rw [free_eq hb]
    refine ⟨h.sane, h.doubled, h.index, fun q hq => ?_⟩
    have hqp : q ≠ p := by
      rintro rfl
      exact (hbuffer q hq).1 hp
    show (s.heap.drop p).block q ≠ none
    rw [block_drop, if_neg hqp]
    exact (hbuffer q hq).2

theorem Inv.freeBuffer (h : Inv s) (hpc : s.pc = .freeBuffer) :
    Inv (s.freeBuffer.getD s.crash) := by
  have hbuffer := h.stage
  simp only [Stage, hpc] at hbuffer
  unfold State.freeBuffer
  rcases hq : s.buffer with _ | q
  · exact ⟨h.sane, h.doubled, h.index, trivial⟩
  · obtain ⟨chunk, hc⟩ := Option.ne_none_iff_exists'.mp (hbuffer q hq)
    rw [free_eq hc]
    exact ⟨h.sane, h.doubled, h.index, trivial⟩

end Inv

theorem inv_step (s : State) (act : Act) (s' : State) (h : Inv s) (hs : step s act = some s') :
    Inv s' := by
  simp only [step, h.sane, Bool.false_eq_true, if_false] at hs
  cases hpc : s.pc <;> cases act <;> simp only [hpc, reduceCtorEq] at hs
  case mallocPacket.malloc o => exact Option.some.inj hs ▸ h.mallocPacket hpc o
  case mallocBuffer.malloc o => exact Option.some.inj hs ▸ h.mallocBuffer hpc o
  case recv.recv received =>
    obtain ⟨p, q, b, chunk, hold, hfits, -⟩ := h.holds (by rw [hpc]; rfl)
    rcases received with _ | bytes
    · exact Option.some.inj hs ▸ inv_leave hold hfits h.sane
    · dsimp only at hs
      split_ifs at hs with hnil hlen
      · exact Option.some.inj hs ▸ inv_leave hold hfits h.sane
      · exact Option.some.inj hs ▸ h.recv hpc hlen
  case forHead.forHead => exact Option.some.inj hs ▸ h.forHead hpc
  case reserve.reserve o => exact Option.some.inj hs ▸ h.reserve hpc o
  case store.store => exact Option.some.inj hs ▸ h.store hpc
  case process.process o seekto => exact Option.some.inj hs ▸ h.process hpc o seekto
  case fwrite.fwrite => exact Option.some.inj hs ▸ h.fwrite hpc
  case sendFile.fread block =>
    split_ifs at hs with hlen
    exact Option.some.inj hs ▸ h.fread hpc hlen
  case sendFile.processed ret => exact Option.some.inj hs ▸ h.processed hpc ret
  case received.loopTest ret running => exact Option.some.inj hs ▸ h.loopTest hpc running
  case freePacket.free => exact Option.some.inj hs ▸ h.freePacket hpc
  case freeBuffer.free => exact Option.some.inj hs ▸ h.freeBuffer hpc

/-! ### The bounds -/

/-- A failed `realloc` changes nothing, in whatever state. -/
theorem reserve_failed {s s' : State} (hs : step s (.reserve .null) = some s') :
    s'.packet = s.packet ∧ s'.heap = s.heap ∧ s'.packetSize = s.packetSize ∧
      s'.packetIndex = s.packetIndex := by
  have hcap : s.ensurePacketCapacity .null = none ∨
      ∃ ret, s.ensurePacketCapacity .null = some (ret, s) := by
    obtain ⟨heap, sockFd, packet, buffer, packetIndex, packetSize, bytesReceived, i, pc, fault⟩ := s
    unfold State.ensurePacketCapacity
    dsimp only
    split_ifs
    · rcases packet with _ | p
      · exact .inr ⟨false, rfl⟩
      · rcases hb : heap.block p with _ | b
        · exact .inl (by simp [realloc, hb])
        · exact .inr ⟨false, by simp [realloc, hb]⟩
    · exact .inr ⟨false, rfl⟩
    · exact .inr ⟨true, rfl⟩
  have hres : s.reserve .null = none ∨ ∃ pc, s.reserve .null = some (s.goto pc) := by
    unfold State.reserve
    rcases hcap with hcap | ⟨ret, hcap⟩
    · exact .inl (by rw [hcap]; rfl)
    · rw [hcap]
      cases ret with
      | true => exact .inr ⟨.store, rfl⟩
      | false => exact .inr ⟨.received false, rfl⟩
  simp only [step] at hs
  split_ifs at hs
  cases hpc : s.pc <;> simp only [hpc, reduceCtorEq] at hs
  obtain rfl := Option.some.inj hs
  rcases hres with hres | ⟨pc, hres⟩
  · rw [hres]
    exact ⟨rfl, rfl, rfl, rfl⟩
  · rw [hres]
    exact ⟨rfl, rfl, rfl, rfl⟩

theorem Inv.bounded {s : State} (h : Inv s) : Bounded s := by
  have hmax : s.packetIndex ≤ maxPacketSize := h.index.trans (min_le_right _ _)
  have hle : s.packetIndex ≤ s.packetSize := h.index.trans (min_le_left _ _)
  have hlength : s.pc = .process → 1 ≤ s.packetIndex := by
    intro hpc
    obtain ⟨p, q, b, chunk, -, -, hplace⟩ := h.holds (by rw [hpc]; rfl)
    simp only [Place, hpc] at hplace
    exact hplace.2.2
  refine ⟨h.sane, fun hbuf hdone p hp => ?_, h.doubled, fun hfull hlt => ?_, h.index, fun hpc => ?_,
    fun hpc => ⟨hlength hpc, hmax, hle⟩, fun hpc hprefix o q heap hmalloc => ?_,
    fun s' hs => reserve_failed hs⟩
  · exact h.live hbuf hdone p hp
  · have hfits : Fits ⟨List.replicate s.packetSize 0, s.packetIndex, s.packetSize⟩ :=
      ⟨h.doubled, by simp, hle, hmax⟩
    exact (hfits.u16_double (hfull.trans_lt hlt)).1
  · obtain ⟨p, q, b, chunk, -, -, hplace⟩ := h.holds (by rw [hpc]; rfl)
    simp only [Place, hpc] at hplace
    exact hplace.2.2.1
  · have hu : xyStrLength s.packetIndex = s.packetIndex - seektoPacketPrefixLength :=
      u16_eq ((Nat.sub_le _ _).trans hmax)
    have hpos : 1 ≤ xyStrLength s.packetIndex := by omega
    rcases o with _ | ⟨moved, fill⟩
    · cases hmalloc
    · obtain ⟨q', heap', xyStr, hmalloc', -, hblock, hlen, -⟩ :=
        malloc_ok s.heap (xyStrLength s.packetIndex) moved fill
      rw [hmalloc', Prod.mk.injEq, Option.some.injEq] at hmalloc
      obtain ⟨rfl, rfl⟩ := hmalloc
      exact ⟨hpos, xyStr, hblock, by omega⟩

/-- **The packet buffer is never left**, whatever is received, whichever allocations fail and however
`process_packet` comes out. -/
theorem packet_in_bounds {s : State} (h : Reachable step Init s) : Bounded s :=
  (h.invariant (fun _ h₀ => inv_init h₀) inv_step).bounded

/-- A connection about to start. -/
def start : State := ⟨Heap.empty, 4, none, none, 0, socketBufferSize, 0, 0, .mallocPacket, false⟩

theorem init_start : Init start := ⟨rfl, rfl, rfl, rfl, rfl, rfl⟩

/-- The line `"a\n"` is about to be processed. -/
theorem packet_in_bounds_line :
    ∃ s, Reachable step Init s ∧ s.pc = .process ∧ s.packetIndex = 2 ∧ Bounded s := by
  have hrun : (run step start
      [.malloc (.ok false fun _ => 0), .malloc (.ok false fun _ => 0), .recv (some [97, newline]),
        .forHead, .reserve .null, .store, .forHead, .reserve .null, .store]).map
          (fun s => (s.pc, s.packetIndex)) = some (.process, 2) := by
    decide +kernel
  obtain ⟨s, hs, hat⟩ := Option.map_eq_some_iff.mp hrun
  obtain ⟨hpc, hindex⟩ := Prod.mk.inj hat
  have hreach : Reachable step Init s := ⟨start, _, init_start, hs⟩
  exact ⟨s, hreach, hpc, hindex, packet_in_bounds hreach⟩

end Aesd.Server.PacketBounds
