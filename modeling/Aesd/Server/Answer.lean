import Aesd.Driver.Read
import Aesd.Server.Framing

/-!
# What the server answers

The purpose of the server with the device, without threads, streams or memory: its state is the list
`L` of the last ten packets. A data packet is added to the list and answered with the list, laid end to
end; a seek to a byte of a packet is answered with what follows that byte; any other seek is refused.
The second half says what the driver's calls do on such a list.
-/

namespace Aesd.Server.Answer

open Aesd.Lib.Alloc Aesd.Lib.Blocks Aesd.Lib.Circular Aesd.Lib.Concat
open Aesd.Driver.Ring Aesd.Driver.Ring.CircularBuffer
open Aesd.Driver.Device Aesd.Driver.Store Aesd.Driver.Write Aesd.Driver.Read
open Aesd.Server.Packet Aesd.Server.Framing

/-- A packet, and the position it asks for if it is a seek. -/
structure Request where
  packet : Bytes
  verdict : Option Seekto
  deriving DecidableEq

/-- Where byte `write_cmd_offset` of packet `write_cmd` is in the concatenation. -/
def seekPosition (L : List Bytes) (seekto : Seekto) : Option ℕ :=
  match L[seekto.writeCmd.toNat]? with
  | some p =>
    if seekto.writeCmdOffset.toNat < p.length then
      some (((L.map List.length).take seekto.writeCmd.toNat).sum + seekto.writeCmdOffset.toNat)
    else none
  | none => none

/-- **The answer to a request**: the list after it, and the bytes sent; a refused seek sends none and
ends the connection. -/
def answer (L : List Bytes) (r : Request) : List Bytes × Option Bytes :=
  match r.verdict with
  | none =>
    let L' := (L ++ [r.packet]).rtake maxWriteOperationsSupported
    (L', some L'.flatten)
  | some seekto => (L, (seekPosition L seekto).map fun pos => L.flatten.drop pos)

/-- The answers to requests one after the other. -/
def serve : List Bytes → List Request → List Bytes × List (Option Bytes)
  | L, [] => (L, [])
  | L, r :: rs =>
    let a := answer L r
    let b := serve a.1 rs
    (b.1, a.2 :: b.2)

theorem serve_concat (L : List Bytes) (rs : List Request) (r : Request) :
    serve L (rs ++ [r]) =
      ((answer (serve L rs).1 r).1, (serve L rs).2 ++ [(answer (serve L rs).1 r).2]) := by
  induction rs generalizing L with
  | nil => rfl
  | cons r' rs ih =>
    simp only [List.cons_append, serve, ih]

theorem seekPosition_lt {L : List Bytes} {seekto : Seekto} {pos : ℕ}
    (h : seekPosition L seekto = some pos) : pos < L.flatten.length := by
  unfold seekPosition at h
  rcases hp : L[seekto.writeCmd.toNat]? with _ | p
  · simp [hp] at h
  · simp only [hp] at h
    split_ifs at h with hlt
    rw [Option.some.injEq] at h
    rw [← h, List.length_flatten]
    exact take_sum_add_lt (by rw [List.getElem?_map, hp]; rfl) hlt

/-- At most ten packets, each within the limit. -/
structure Bounded (L : List Bytes) : Prop where
  count : L.length ≤ maxWriteOperationsSupported
  short : ∀ p ∈ L, p.length ≤ maxPacketSize

theorem bounded_answer {L : List Bytes} (h : Bounded L) {r : Request}
    (hr : r.packet.length ≤ maxPacketSize) : Bounded (answer L r).1 := by
  unfold answer
  rcases r.verdict with _ | seekto
  · refine ⟨by rw [length_rtake]; exact min_le_left _ _, fun p hp => ?_⟩
    rcases List.mem_append.mp (mem_of_mem_rtake hp) with hp | hp
    · exact h.short p hp
    · rw [List.mem_singleton.mp hp]
      exact hr
  · exact h

/-- The concatenation is far below the range of an `int`. -/
theorem Bounded.length_flatten {L : List Bytes} (h : Bounded L) :
    L.flatten.length ≤ 327620 := by
  have hcount := h.count
  have hsum : (L.map List.length).sum ≤ (L.map List.length).length • maxPacketSize := by
    refine List.sum_le_card_nsmul _ _ fun n hn => ?_
    obtain ⟨p, hp, rfl⟩ := List.mem_map.mp hn
    exact h.short p hp
  rw [List.length_flatten]
  simp only [List.length_map, smul_eq_mul, maxPacketSize, maxWriteOperationsSupported] at *
  omega

/-! ### The driver's calls -/

/-- A packet: its only newline is its last byte. -/
def IsLine (p : Bytes) : Prop := ∃ c, p = c ++ [newline] ∧ newline ∉ c

theorem IsLine.getLast? {p w piece left : Bytes} (h : IsLine p) (hp : w ++ (piece ++ left) = p)
    (hne : piece ≠ []) : piece.getLast? = some newline ↔ left = [] := by
  obtain ⟨c, rfl, hc⟩ := h
  rcases List.eq_nil_or_concat' left with rfl | ⟨left, a, rfl⟩
  · have hlast : (w ++ piece).getLast? = some newline := by
      rw [List.append_nil] at hp
      rw [hp]
      simp
    rw [List.getLast?_append_of_ne_nil _ hne] at hlast
    simp [hlast]
  · rw [← List.append_assoc, ← List.append_assoc] at hp
    have hinit := (List.append_inj' hp rfl).1
    refine ⟨fun hlast => ?_, fun hnil => absurd hnil (by simp)⟩
    have hmem : newline ∈ piece := List.mem_of_getLast? hlast
    exact absurd (by rw [← hinit]; simp [hmem]) hc

/-- A write in which nothing fails. -/
structure Granted (env : WriteEnv) : Prop where
  mutex : env.mutexKilled = false
  alloc : env.alloc.isOk = true
  copy : env.copy = none
  sem : env.semKilled = false

/-- **A packet written in pieces** is pending until its last piece. -/
theorem aesdWrite_piece {d : AesdDev} (h : Owned d) {L : List Bytes} {w piece left p : Bytes}
    (hv : view d = ⟨L, w⟩) (hp : w ++ (piece ++ left) = p) (hline : IsLine p) (hne : piece ≠ [])
    {env : WriteEnv} (he : Granted env) :
    ∃ d', aesdWrite d piece env = some ((piece.length : ℤ), d') ∧ Owned d' ∧
      view d' = if left = [] then ⟨(L ++ [p]).rtake maxWriteOperationsSupported, []⟩
        else ⟨L, w ++ piece⟩ := by
  obtain ⟨d', hw, hi, hv'⟩ := aesdWrite_refines h piece env
  have hlen : piece.length ≠ 0 := by simpa using hne
  have hwrite : (view d).write piece env = ((piece.length : ℤ), (view d).accept piece) := by
    unfold LineStore.write
    simp [hlen, he.mutex, he.alloc, he.copy, he.sem]
  rw [hwrite] at hw hv'
  refine ⟨d', hw, hi, ?_⟩
  rw [hv', hv]
  unfold LineStore.accept
  rw [if_congr (hline.getLast? hp hne) rfl rfl]
  by_cases hl : left = []
  · rw [hl, List.append_nil] at hp
    simp [hl, hp]
  · simp [hl]

theorem content_eq {d : AesdDev} {L : List Bytes} (hv : view d = ⟨L, []⟩) :
    content d = L.flatten := by
  unfold content
  rw [hv]

section Owned
variable {d : AesdDev} (h : Owned d) {L : List Bytes} (hv : view d = ⟨L, []⟩)
include h hv

theorem ioctlLookup_eq (seekto : Seekto) :
    ioctlLookup d.buffer ⟨false, false, false⟩ aesdcharIocseekto seekto =
      match seekPosition L seekto with
      | some pos => .inr (pos : ℤ)
      | none => .inl (-einval) := by
  have habs := findAbsoluteOffset_view h seekto.writeCmd.toNat seekto.writeCmdOffset.toNat
  rw [hv] at habs
  unfold ioctlLookup seekPosition
  rcases hp : L[seekto.writeCmd.toNat]? with _ | p
  · simp [habs, hp]
  · by_cases hlt : seekto.writeCmdOffset.toNat < p.length
    · simp only [hp, Option.some.injEq, exists_eq_left', hlt, if_true] at habs
      simp only [habs, hlt, if_true, Bool.false_eq_true, if_false]
      rw [if_neg (by omega)]
      push_cast
      rfl
    · simp [habs, hp, hlt]

theorem aesdLlseek_within (fpos : ℤ) {pos : ℕ} (hpos : pos ≤ L.flatten.length) :
    aesdLlseek d.buffer false fpos pos seekSet = ((pos : ℤ), (pos : ℤ)) := by
  rw [aesdLlseek_set h, content_eq hv, if_pos hpos]

theorem aesdLlseek_end (hL : Bounded L) (fpos : ℤ) :
    aesdLlseek d.buffer false fpos 0 seekEnd =
      ((L.flatten.length : ℤ), (L.flatten.length : ℤ)) := by
  have heof := findEOFOffset_view h
  have hlen := hL.length_flatten
  have hloff : loff (L.flatten.length : ℤ) = L.flatten.length := by
    unfold loff
    rw [Int.bmod_eq_of_le] <;> omega
  rw [content_eq hv] at heof
  have hcur : (seekEnd : ℤ) ≠ seekCur := by decide
  have hset : (seekEnd : ℤ) ≠ seekSet := by decide
  simp only [aesdLlseek, heof, Bool.false_eq_true, if_false, if_neg hcur, if_neg hset, if_true,
    add_zero, hloff, seekTo, Int.toNat_natCast, lt_irrefl, or_false]
  rw [if_neg (by omega)]

end Owned

end Aesd.Server.Answer
