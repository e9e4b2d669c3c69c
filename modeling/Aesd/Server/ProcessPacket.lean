import Aesd.Server.Packet
import Aesd.Server.SeekGrammar

/-!
# A packet is a command or a line

`process_packet` down to the choice between `process_seekto_packet` and `flush_packet_to_client`, on the
memory it works on: the packet stays where `process_received_data` collected it, `parse_xy_str` copies
what follows the prefix into memory of its own, and `strtok` writes only there. So the verdict is that of
`isSeektoPacket` on the packet's bytes and every allocation is left as it was (`isSeektoPacketAt_eq`).
-/

namespace Aesd.Server.ProcessPacket

open Aesd.Lib.Alloc Aesd.Lib.Alloc.Heap Aesd.Lib.CString Aesd.Lib.Lexical
open Aesd.Driver.Device Aesd.Server.Command Aesd.Server.Packet Aesd.Server.SeekGrammar

/-- `strtok` with a comma in the allocation `q`, from the position `pos` on. -/
def strtokAt (h : Heap UInt8) (q pos : ℕ) : Option (Heap UInt8 × Option ℕ × ℕ) := do
  let mem ← h.block q
  let (mem, tok, save) ← strtok comma mem pos
  some (h.put q mem, tok, save)

/-- `parse_x_str_and_y_str`, with `xy_str` the allocation `q`. -/
def parseXStrAndYStrAt (h : Heap UInt8) (q : ℕ) (seekto : Seekto) :
    Option (Bool × Seekto × Heap UInt8) := do
  let (h, xStr, save) ← strtokAt h q 0
  let (h, yStr, _) ← strtokAt h q save
  let mem ← h.block q
  let (ret, seekto) ←
    convertStrs (xStr.map fun p => mem.drop p) (yStr.map fun p => some (mem.drop p)) seekto
  some (ret, seekto, h)

/-- `parse_xy_str`, with `packet` the position `off` in the allocation `p`. -/
def parseXyStr (h : Heap UInt8) (p off packetLength : ℕ) (o : Outcome UInt8) (seekto : Seekto) :
    Option (Bool × Seekto × Heap UInt8) :=
  match h.malloc packetLength o with
  | (none, h) => do
    let h ← h.free none
    some (false, seekto, h)
  | (some q, h) => do
    let src ← h.read p off packetLength
    let h ← h.write q 0 (strncpy packetLength src)
    let h ← h.write q (packetLength - 1) [0]
    let (ret, seekto, h) ← parseXStrAndYStrAt h q seekto
    let h ← h.free (some q)
    some (ret, seekto, h)

/-- `is_seekto_packet`, with `packet` the start of the allocation `p`. -/
def isSeektoPacketAt (h : Heap UInt8) (p packetLength : ℕ) (o : Outcome UInt8) (seekto : Seekto) :
    Option (Bool × Seekto × Heap UInt8) :=
  if seektoPacketPrefixLength < packetLength then do
    let bytes ← h.read p 0 seektoPacketPrefixLength
    if strncmpEq seektoPacketPrefixLength bytes (seektoPacketPrefix ++ [0]) = true then
      parseXyStr h p seektoPacketPrefixLength (u16 (packetLength - seektoPacketPrefixLength)) o
        seekto
    else some (false, seekto, h)
  else some (false, seekto, h)

/-- The call that `process_packet` makes: of `process_seekto_packet` or of `flush_packet_to_client`,
with its arguments; the packet is an allocation. -/
inductive Dispatch
  | processSeektoPacket (sockFd : ℤ) (seekto : Seekto) (packet sendBufferSize : ℕ)
  | flushPacketToClient (sockFd : ℤ) (packet packetLen sendBufferSize : ℕ)
  deriving DecidableEq

/-- `process_packet` up to that call; `seekto` is what is in `seekto_cmd` before. -/
def processPacket (h : Heap UInt8) (sockFd : ℤ) (p packetIndex packetSize : ℕ) (o : Outcome UInt8)
    (seekto : Seekto) : Option (Dispatch × Heap UInt8) := do
  let (ret, seekto, h) ← isSeektoPacketAt h p packetIndex o seekto
  if ret = true then some (.processSeektoPacket sockFd seekto p packetSize, h)
  else some (.flushPacketToClient sockFd p packetIndex packetSize, h)

variable {h : Heap UInt8} {p q n : ℕ} {b mem : Bytes} {seekto : Seekto}

/-! ### The copy alone is written -/

theorem strtokAt_eq (hq : h.block q = some mem) {pos : ℕ} {mem' : Bytes} {tok : Option ℕ} {save : ℕ}
    (htok : strtok comma mem pos = some (mem', tok, save)) :
    ∃ h', strtokAt h q pos = some (h', tok, save) ∧ h'.block q = some mem' ∧
      ∀ j, j ≠ q → h'.block j = h.block j := by
  refine ⟨h.put q mem', ?_, ?_, fun j hj => ?_⟩
  · unfold strtokAt
    simp only [hq, htok, Option.bind_eq_bind, Option.bind_some]
  · rw [block_put, if_pos rfl, hq, Option.map_some]
  · rw [block_put, if_neg hj]

theorem parseXStrAndYStrAt_eq (hq : h.block q = some mem) {r : Bool × Seekto}
    (hr : parseXStrAndYStr mem seekto = some r) :
    ∃ h', parseXStrAndYStrAt h q seekto = some (r.1, r.2, h') ∧ h'.block q ≠ none ∧
      ∀ j, j ≠ q → h'.block j = h.block j := by
  unfold parseXStrAndYStr at hr
  simp only [Option.bind_eq_bind, Option.bind_eq_some_iff] at hr
  obtain ⟨⟨mem', xStr, save⟩, hx, ⟨mem'', yStr, save'⟩, hy, hconv⟩ := hr
  obtain ⟨h', hfirst, hq', hframe⟩ := strtokAt_eq hq hx
  obtain ⟨h'', hsecond, hq'', hframe'⟩ := strtokAt_eq hq' hy
  refine ⟨h'', ?_, by simp [hq''], fun j hj => (hframe' j hj).trans (hframe j hj)⟩
  unfold parseXStrAndYStrAt
  simp only [hfirst, hsecond, hq'', Option.bind_eq_bind, Option.bind_some]
  simp only [hconv, Option.bind_some]

theorem parseXyStr_eq {off : ℕ} (hb : h.block p = some b) (hn : 0 < n) (hoff : off + n ≤ b.length)
    (o : Outcome UInt8) {r : Bool × Seekto}
    (hr : (if o.isOk = true then
        parseXStrAndYStr ((strncpy n ((b.drop off).take n)).set (n - 1) 0) seekto
      else some (false, seekto)) = some r) :
    ∃ h', parseXyStr h p off n o seekto = some (r.1, r.2, h') ∧ ∀ j, h'.block j = h.block j := by
  unfold parseXyStr
  cases o with
  | null =>
    simp only [Outcome.isOk, Bool.false_eq_true, if_false, Option.some.injEq] at hr
    subst hr
    exact ⟨h, rfl, fun j => rfl⟩
  | ok moved fill =>
    simp only [Outcome.isOk, if_true] at hr
    obtain ⟨q, h₁, m, hmalloc, hnew, hq, hlen, hframe⟩ := malloc_ok h n moved fill
    have hpq : p ≠ q := by
      rintro rfl
      rw [hb] at hnew
      simp at hnew
    have hread : h₁.read p off n = some ((b.drop off).take n) :=
      read_eq (by rw [hframe p hpq, hb]) hoff
    have hcopy := length_strncpy n ((b.drop off).take n)
    obtain ⟨h₂, hwrite, hq₂, hframe₂⟩ := write_whole hq (hcopy.trans hlen.symm)
    obtain ⟨h₃, hzero, hq₃, hframe₃⟩ := write_one hq₂ (k := n - 1) (by omega) 0
    obtain ⟨h₄, hparse, hq₄, hframe₄⟩ := parseXStrAndYStrAt_eq hq₃ hr
    obtain ⟨m', hm'⟩ := Option.ne_none_iff_exists'.mp hq₄
    refine ⟨h₄.drop q, ?_, fun j => ?_⟩
    · simp only [hmalloc, hread, hwrite, hzero, hparse, free_eq hm', Option.bind_eq_bind,
        Option.bind_some]
    · rw [block_drop]
      by_cases hj : j = q
      · rw [if_pos hj, hj, hnew]
      · rw [if_neg hj, hframe₄ j hj, hframe₃ j hj, hframe₂ j hj, hframe j hj]

/-- **`is_seekto_packet` on the memory** gives the verdict on the packet's bytes, and leaves every
allocation as it was. -/
theorem isSeektoPacketAt_eq (hb : h.block p = some b) (hn : n ≤ b.length) (hmax : n ≤ maxPacketSize)
    (o : Outcome UInt8) {r : Bool × Seekto}
    (hr : isSeektoPacket o.isOk (b.take n) seekto = some r) :
    ∃ h', isSeektoPacketAt h p n o seekto = some (r.1, r.2, h') ∧ ∀ j, h'.block j = h.block j := by
  have hlen : (b.take n).length = n := List.length_take_of_le hn
  have hu16 : u16 (n - seektoPacketPrefixLength) = n - seektoPacketPrefixLength :=
    u16_eq ((Nat.sub_le _ _).trans hmax)
  unfold isSeektoPacket hasPrefix at hr
  rw [hlen] at hr
  unfold isSeektoPacketAt
  by_cases hlt : seektoPacketPrefixLength < n
  swap
  · simp only [hlt, decide_false, Bool.false_and, Bool.false_eq_true, if_false,
      Option.some.injEq] at hr
    subst hr
    exact ⟨h, if_neg hlt, fun j => rfl⟩
  have hread : h.read p 0 seektoPacketPrefixLength = some (b.take seektoPacketPrefixLength) :=
    read_eq hb (by omega)
  have hcmp : strncmpEq seektoPacketPrefixLength (b.take seektoPacketPrefixLength)
      (seektoPacketPrefix ++ [0]) =
        strncmpEq seektoPacketPrefixLength (b.take n) (seektoPacketPrefix ++ [0]) := by
    rw [← strncmpEq_take _ (b.take n), List.take_take, min_eq_left hlt.le]
  rw [if_pos hlt, hread, Option.bind_eq_bind, Option.bind_some, hcmp]
  rw [decide_eq_true hlt, Bool.true_and] at hr
  by_cases hp : strncmpEq seektoPacketPrefixLength (b.take n) (seektoPacketPrefix ++ [0]) = true
  · rw [if_pos hp] at hr ⊢
    rw [hu16]
    refine parseXyStr_eq hb (by omega) (by omega) o ?_
    rwa [xyStr, hlen, List.drop_take] at hr
  · rw [if_neg hp] at hr ⊢
    obtain rfl := Option.some.inj hr
    exact ⟨h, rfl, fun j => rfl⟩

/-! ### Commands and lines -/

theorem length_le_of_take {l : Bytes} (h : b.take l.length = l) : l.length ≤ b.length := by
  have hlen := congrArg List.length h
  rw [List.length_take] at hlen
  omega

/-- **Only seek commands are consumed.** `is_seekto_packet` returns `TRUE` only on a seek command, with
its two numbers; every other packet goes to `flush_packet_to_client` as it is. -/
theorem processPacket_commands {line : Bytes} (hb : h.block p = some b)
    (hpacket : b.take (line.length + 1) = line ++ [newline])
    (hmax : line.length + 1 ≤ maxPacketSize) (moved : Bool) (fill : ℕ → UInt8) (sockFd : ℤ)
    (packetSize : ℕ) (seekto : Seekto) :
    ∃ ret s h', isSeektoPacketAt h p (line.length + 1) (.ok moved fill) seekto = some (ret, s, h') ∧
      (∀ j, h'.block j = h.block j) ∧
      (ret = true → ∃ x y, SeekCommand (line ++ [newline]) x y ∧ s = ⟨.ofInt x, .ofInt y⟩) ∧
      ((∀ x y, ¬ SeekCommand (line ++ [newline]) x y) →
        processPacket h sockFd p (line.length + 1) packetSize (.ok moved fill) seekto =
          some (.flushPacketToClient sockFd p (line.length + 1) packetSize, h')) := by
  have hn : line.length + 1 ≤ b.length := by
    simpa using length_le_of_take (l := line ++ [newline]) (by simpa using hpacket)
  obtain ⟨⟨ret, s⟩, hr⟩ := isSeektoPacket_returns true (line ++ [newline]) seekto
  rw [← hpacket] at hr
  obtain ⟨h', hAt, hframe⟩ := isSeektoPacketAt_eq hb hn hmax (.ok moved fill) hr
  have hcommand : ret = true →
      ∃ x y, SeekCommand (line ++ [newline]) x y ∧ s = ⟨.ofInt x, .ofInt y⟩ := by
    intro hret
    rw [hret, hpacket] at hr
    exact isSeektoPacket_iff.mp hr
  refine ⟨ret, s, h', hAt, hframe, hcommand, fun hno => ?_⟩
  have hret : ret ≠ true := by
    intro hret
    obtain ⟨x, y, hxy, -⟩ := hcommand hret
    exact hno x y hxy
  unfold processPacket
  rw [hAt, Option.bind_eq_bind, Option.bind_some]
  exact if_neg hret

/-- `"AESDCHAR_IOCSEEKTO:1;2"` -/
def unpairedLine : Bytes := seektoPacketPrefix ++ [49, 59, 50]

/-- A packet with the prefix that is no command. -/
theorem processPacket_commands_line :
    ∃ s h', isSeektoPacketAt (Heap.empty.alloc (unpairedLine ++ [newline])) 0 23
        (.ok false fun _ => 0) ⟨0, 0⟩ = some (false, s, h') ∧
      (∀ j, h'.block j = (Heap.empty.alloc (unpairedLine ++ [newline])).block j) ∧
      processPacket (Heap.empty.alloc (unpairedLine ++ [newline])) 5 0 23 1024 (.ok false fun _ => 0)
        ⟨0, 0⟩ = some (.flushPacketToClient 5 0 23 1024, h') := by
  obtain ⟨ret, s, h', hAt, hframe, hcommand, hflush⟩ :=
    @processPacket_commands (Heap.empty.alloc (unpairedLine ++ [newline])) 0 (unpairedLine ++ [newline])
      unpairedLine rfl rfl (by decide) false (fun _ => 0) 5 1024 ⟨0, 0⟩
  have hno : ∀ x y, ¬ SeekCommand (unpairedLine ++ [newline]) x y := fun x y hxy => by
    have hsome : isSeektoPacket true (unpairedLine ++ [newline]) ⟨0, 0⟩ = some (true, _) :=
      isSeektoPacket_iff.mpr ⟨x, y, hxy, rfl⟩
    have hfalse : (isSeektoPacket true (unpairedLine ++ [newline]) ⟨0, 0⟩).map Prod.fst = some false := by
      decide
    rw [hsome] at hfalse
    cases hfalse
  have hret : ret = false := by
    rcases ret with _ | _
    · rfl
    · obtain ⟨x, y, hxy, -⟩ := hcommand rfl
      exact absurd hxy (hno x y)
  exact ⟨s, h', hret ▸ hAt, hframe, hflush hno⟩

/-- The packet of the command with these two numbers. -/
def seekLine (xStr yStr : Bytes) : Bytes :=
  seektoPacketPrefix ++ (xStr ++ comma :: yStr ++ [newline])

/-- `"AESDCHAR_IOCSEEKTO: 1,+2\n"` -/
def spacedCommand : Bytes := seekLine [32, 49] [43, 50]

/-- **`strtol` accepts more than digits**: this packet is consumed, and is no command written in
digits. -/
theorem spaced_command :
    (processPacket (Heap.empty.alloc spacedCommand) 5 0 spacedCommand.length 1024
      (.ok false fun _ => 0) ⟨0, 0⟩).map Prod.fst =
        some (.processSeektoPacket 5 ⟨1, 2⟩ 0 1024) ∧
    ∀ xStr yStr x y, Decimal xStr x → Decimal yStr y → spacedCommand ≠ seekLine xStr yStr := by
  refine ⟨by decide, fun xStr yStr x y hx hy heq => ?_⟩
  obtain ⟨hnil, hdigits, -⟩ := hx
  obtain ⟨d, xStr, rfl⟩ := List.exists_cons_of_ne_nil hnil
  unfold spacedCommand seekLine at heq
  have hhead := List.append_cancel_left heq
  simp only [List.cons_append, List.cons.injEq] at hhead
  have hd := hdigits d List.mem_cons_self
  rw [← hhead.1] at hd
  exact absurd hd (by decide)

theorem inRange_natCast {n : ℕ} : InRange n ↔ n ≤ 2 ^ 32 - 1 := by
  unfold InRange uint32Max
  omega

theorem toNat_ofInt_natCast {n : ℕ} (hn : n ≤ 2 ^ 32 - 1) : (UInt32.ofInt n).toNat = n := by
  unfold UInt32.ofInt
  rw [UInt32.toNat_ofNat']
  omega

theorem isSeektoPacket_seekLine {xStr yStr : Bytes} {x y : ℕ} (hx : Decimal xStr x)
    (hy : Decimal yStr y) (seekto : Seekto) :
    ∃ ret s, isSeektoPacket true (seekLine xStr yStr) seekto = some (ret, s) ∧
      (ret = true ↔ x ≤ 2 ^ 32 - 1 ∧ y ≤ 2 ^ 32 - 1) ∧
      (ret = true → s.writeCmd.toNat = x ∧ s.writeCmdOffset.toNat = y) := by
  have hline : seekLine xStr yStr = seektoPacketPrefix ++
      ([] ++ (xStr ++ comma :: ([] ++ (yStr ++ []))) ++ [newline]) := by
    simp [seekLine]
  rw [hline, isSeektoPacket_numerals (by simp) (by simp) (numeral_of_decimal hx)
    (numeral_of_decimal hy) (Or.inl rfl)]
  by_cases hxr : InRange x
  swap
  · rw [if_neg hxr]
    rw [inRange_natCast] at hxr
    exact ⟨_, _, rfl, iff_of_false Bool.false_ne_true fun h => hxr h.1, by simp⟩
  rw [if_pos hxr, clampLong_eq hxr]
  rw [inRange_natCast] at hxr
  refine ⟨_, _, rfl, ?_, fun hy => ?_⟩
  · rw [decide_eq_true_eq, inRange_natCast]
    exact ⟨fun hyr => ⟨hxr, hyr⟩, And.right⟩
  have hyr : InRange y := of_decide_eq_true hy
  rw [clampLong_eq hyr]
  exact ⟨toNat_ofInt_natCast hxr, toNat_ofInt_natCast (inRange_natCast.mp hyr)⟩

/-- **Decoding undoes encoding.** A command whose two numbers are written in decimal is recognised
exactly if both fit a `uint32_t`, and the numbers are those written; the packet is left as it was. -/
theorem isSeektoPacketAt_seekLine {xStr yStr : Bytes} {x y : ℕ} (hx : Decimal xStr x)
    (hy : Decimal yStr y) (hb : h.block p = some b)
    (hpacket : b.take (seekLine xStr yStr).length = seekLine xStr yStr)
    (hmax : (seekLine xStr yStr).length ≤ maxPacketSize) (moved : Bool) (fill : ℕ → UInt8)
    (seekto : Seekto) :
    ∃ ret s h', isSeektoPacketAt h p (seekLine xStr yStr).length (.ok moved fill) seekto =
        some (ret, s, h') ∧
      (∀ j, h'.block j = h.block j) ∧
      (ret = true ↔ x ≤ 2 ^ 32 - 1 ∧ y ≤ 2 ^ 32 - 1) ∧
      (ret = true → s.writeCmd.toNat = x ∧ s.writeCmdOffset.toNat = y) := by
  have hn := length_le_of_take hpacket
  obtain ⟨ret, s, hr, hret, hs⟩ := isSeektoPacket_seekLine hx hy seekto
  rw [← hpacket] at hr
  obtain ⟨h', hAt, hframe⟩ := isSeektoPacketAt_eq hb hn hmax (.ok moved fill) hr
  exact ⟨ret, s, h', hAt, hframe, hret, hs⟩

/-- `"AESDCHAR_IOCSEEKTO:007,4294967295\n"` -/
theorem isSeektoPacketAt_seekLine_max :
    ∃ ret s h', isSeektoPacketAt
        (Heap.empty.alloc (seekLine [48, 48, 55] [52, 50, 57, 52, 57, 54, 55, 50, 57, 53])) 0
        (seekLine [48, 48, 55] [52, 50, 57, 52, 57, 54, 55, 50, 57, 53]).length
        (.ok false fun _ => 0) ⟨0, 0⟩ = some (ret, s, h') ∧
      (∀ j, h'.block j = (Heap.empty.alloc
        (seekLine [48, 48, 55] [52, 50, 57, 52, 57, 54, 55, 50, 57, 53])).block j) ∧
      (ret = true ↔ 7 ≤ 2 ^ 32 - 1 ∧ 4294967295 ≤ 2 ^ 32 - 1) ∧
      (ret = true → s.writeCmd.toNat = 7 ∧ s.writeCmdOffset.toNat = 4294967295) :=
  isSeektoPacketAt_seekLine ⟨by simp, by simp [isDigit], by simp [Nat.ofDigits]⟩
    ⟨by simp, by simp [isDigit], by simp [Nat.ofDigits]⟩ rfl rfl (by decide) false (fun _ => 0) ⟨0, 0⟩

end Aesd.Server.ProcessPacket
