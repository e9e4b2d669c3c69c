import Aesd.Lib.CString
import Aesd.Driver.Device

/-!
# Recognising a seek command

`is_seekto_packet` and what it calls, by a single thread: the packet after the prefix is copied into
memory of its own, cut at commas by two calls of `strtok`, and the two parts are converted to numbers.
The copy is terminated, so nothing is read past its end and every call returns
(`isSeektoPacket_returns`).
-/

namespace Aesd.Server.Command

open Aesd.Lib.CString
open Aesd.Driver.Device

/-- `SEEKTO_PACKET_PREFIX`, that is `"AESDCHAR_IOCSEEKTO:"` -/
def seektoPacketPrefix : Bytes :=
  [65, 69, 83, 68, 67, 72, 65, 82, 95, 73, 79, 67, 83, 69, 69, 75, 84, 79, 58]

/-- `SEEKTO_PACKET_PREFIX_LENGTH` -/
abbrev seektoPacketPrefixLength : ℕ := 19

/-- `','` -/
abbrev comma : UInt8 := 44

/-- `UINT32_MAX` -/
abbrev uint32Max : ℤ := 2 ^ 32 - 1

/-- The packet is longer than the prefix and starts with it. -/
def hasPrefix (packet : Bytes) : Bool :=
  decide (seektoPacketPrefixLength < packet.length) &&
    strncmpEq seektoPacketPrefixLength packet (seektoPacketPrefix ++ [0])

/-- `xy_str` before the first `strtok`: the rest of the packet, its last byte replaced by a zero. -/
def xyStr (packet : Bytes) : Bytes :=
  (strncpy (packet.length - seektoPacketPrefixLength)
    (packet.drop seektoPacketPrefixLength)).set (packet.length - seektoPacketPrefixLength - 1) 0

/-- `convert_str_to_long`: the value returned, and `*conversion_result`. -/
def convertStrToLong (str : Bytes) (minValue maxValue : ℤ) : Option (Bool × ℤ) :=
  let r := strtol str
  if r.2 = 0 then some (false, r.1)
  else (str[r.2]?).map fun c => (c = 0 ∧ minValue ≤ r.1 ∧ r.1 ≤ maxValue, r.1)

/-- `parse_x_str_and_y_str` after the two `strtok`s: the strings at `x_str` and `y_str`, `none` for
`NULL`; the second one is `some none` if the pointer dangles. -/
def convertStrs (xStr : Option Bytes) (yStr : Option (Option Bytes)) (seekto : Seekto) :
    Option (Bool × Seekto) :=
  match xStr, yStr with
  | some xStr, some yStr => do
    let (ok, x) ← convertStrToLong xStr 0 uint32Max
    let seekto := { seekto with writeCmd := UInt32.ofInt x }
    if ok then do
      let yStr ← yStr
      let (ok, y) ← convertStrToLong yStr 0 uint32Max
      some (ok, { seekto with writeCmdOffset := UInt32.ofInt y })
    else some (false, seekto)
  | _, _ => some (false, seekto)

/-- `parse_x_str_and_y_str`: the value returned, and what it leaves in `*seekto_cmd`. -/
def parseXStrAndYStr (xy : Bytes) (seekto : Seekto) : Option (Bool × Seekto) := do
  let (xy, xStr, save) ← strtok comma xy 0
  let (xy, yStr, _) ← strtok comma xy save
  convertStrs (xStr.map fun p => xy.drop p) (yStr.map fun p => some (xy.drop p)) seekto

/-- `is_seekto_packet` when nobody else calls `strtok`; `allocated` says whether the `malloc` of
`parse_xy_str` succeeds, `seekto` is what is in `*seekto_cmd` before. -/
def isSeektoPacket (allocated : Bool) (packet : Bytes) (seekto : Seekto) :
    Option (Bool × Seekto) :=
  if hasPrefix packet = true then
    if allocated then parseXStrAndYStr (xyStr packet) seekto else some (false, seekto)
  else some (false, seekto)

/-! ### The command is always judged -/

theorem terminated_xyStr {packet : Bytes} (h : hasPrefix packet = true) :
    Terminated (xyStr packet) 0 := by
  unfold hasPrefix at h
  rw [Bool.and_eq_true, decide_eq_true_eq] at h
  refine ⟨packet.length - seektoPacketPrefixLength - 1, Nat.zero_le _, ?_⟩
  unfold xyStr
  rw [List.getElem?_set_self (by rw [length_strncpy]; omega)]

theorem terminated_drop {mem : Bytes} {p : ℕ} (h : Terminated mem p) :
    ∃ n : ℕ, (List.drop p mem)[n]? = some 0 := by
  obtain ⟨n, hn, hz⟩ := h
  exact ⟨n - p, by rw [List.getElem?_drop, Nat.add_sub_cancel' hn, hz]⟩

theorem convertStrToLong_returns {str : Bytes} {n : ℕ} (hz : str[n]? = some 0) (lo hi : ℤ) :
    ∃ r, convertStrToLong str lo hi = some r := by
  have hle := strtol_le hz
  have hlt := (List.getElem?_eq_some_iff.mp hz).1
  unfold convertStrToLong
  by_cases h0 : (strtol str).2 = 0
  · exact ⟨_, if_pos h0⟩
  · obtain ⟨c, hc⟩ : ∃ c, str[(strtol str).2]? = some c := ⟨_, List.getElem?_eq_getElem (by omega)⟩
    simp only [if_neg h0, hc, Option.map_some]
    exact ⟨_, rfl⟩

theorem convertStrs_returns {mem : Bytes} {x y : Option ℕ}
    (hx : ∀ p, x = some p → Terminated mem p) (hy : ∀ p, y = some p → Terminated mem p)
    (seekto : Seekto) :
    ∃ r, convertStrs (x.map fun p => mem.drop p) (y.map fun p => some (mem.drop p)) seekto =
      some r := by
  rcases x with _ | x
  · exact ⟨_, rfl⟩
  rcases y with _ | y
  · exact ⟨_, rfl⟩
  obtain ⟨n, hn⟩ := terminated_drop (hx x rfl)
  obtain ⟨m, hm⟩ := terminated_drop (hy y rfl)
  obtain ⟨⟨ok, vx⟩, hrx⟩ := convertStrToLong_returns hn 0 uint32Max
  obtain ⟨⟨ok', vy⟩, hry⟩ := convertStrToLong_returns hm 0 uint32Max
  simp only [Option.map_some, convertStrs, hrx, hry, Option.bind_eq_bind, Option.bind_some]
  cases ok with
  | true => exact ⟨_, rfl⟩
  | false => exact ⟨_, rfl⟩

/-- **`is_seekto_packet` returns** on every packet. -/
theorem isSeektoPacket_returns (allocated : Bool) (packet : Bytes) (seekto : Seekto) :
    ∃ r, isSeektoPacket allocated packet seekto = some r := by
  unfold isSeektoPacket
  by_cases hp : hasPrefix packet = true
  swap
  · exact ⟨_, by rw [if_neg hp]⟩
  rw [if_pos hp]
  cases allocated with
  | false => exact ⟨_, rfl⟩
  | true =>
    obtain ⟨xy, x, save, hx, hsave, htx, hkeep⟩ :=
      strtok_ok (show comma ≠ 0 by decide) (terminated_xyStr hp)
    obtain ⟨xy', y, save', hy, -, hty, hkeep'⟩ := strtok_ok (show comma ≠ 0 by decide) hsave
    simp only [if_true, parseXStrAndYStr, hx, hy, Option.bind_eq_bind, Option.bind_some]
    exact convertStrs_returns (fun p hp => hkeep' p (htx p hp)) hty seekto

end Aesd.Server.Command
