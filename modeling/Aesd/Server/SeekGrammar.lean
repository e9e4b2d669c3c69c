import Aesd.Lib.Lexical
import Aesd.Server.Command

/-!
# The language of seek commands

Which packets `is_seekto_packet` takes for a command. What follows the prefix is cut at commas, where
commas before a token count for nothing and what comes after the second token, or after a zero byte, is
not looked at; the tokens are numerals in the sense of `strtol`, with values that fit 32 bits
(`SeekCommand`, `isSeektoPacket_iff`).
-/

namespace Aesd.Server.SeekGrammar

open Aesd.Lib.CString Aesd.Lib.Lexical
open Aesd.Driver.Device Aesd.Server.Command

/-- A value of a `uint32_t`. -/
def InRange (z : ℤ) : Prop := 0 ≤ z ∧ z ≤ uint32Max

instance (z : ℤ) : Decidable (InRange z) := by
  unfold InRange
  infer_instance

/-- **A seek command** with its two numbers: the prefix, two numerals with commas before each of them,
and a newline; after the second numeral, anything behind a comma or a zero byte. -/
def SeekCommand (packet : Bytes) (x y : ℤ) : Prop :=
  ∃ c₁ xStr c₂ yStr rest,
    packet = seektoPacketPrefix ++
      (c₁ ++ (xStr ++ comma :: (c₂ ++ (yStr ++ rest))) ++ [newline]) ∧
    (∀ b ∈ c₁, b = comma) ∧ (∀ b ∈ c₂, b = comma) ∧ Numeral xStr x ∧ Numeral yStr y ∧
    InRange x ∧ InRange y ∧ (rest = [] ∨ ∃ r, rest = comma :: r ∨ rest = 0 :: r)

/-! ### Conversion -/

theorem inRange_clampLong {z : ℤ} : InRange (clampLong z) ↔ InRange z := by
  unfold InRange clampLong uint32Max
  omega

theorem clampLong_eq {z : ℤ} (h : InRange z) : clampLong z = z := by
  unfold InRange uint32Max at h
  unfold clampLong
  omega

theorem numeral_ne {s : Bytes} {z : ℤ} (h : Numeral s z) : ∀ b ∈ s, b ≠ comma ∧ b ≠ 0 := by
  intro b hb
  have hcases := mem_numeral h hb
  unfold isSpace isDigit at hcases
  grind

/-- A numeral is converted to its value, brought into the range of a `long`. -/
theorem convertStrToLong_numeral {s r : Bytes} {z : ℤ} (h : Numeral s z) :
    convertStrToLong (s ++ 0 :: r) 0 uint32Max = some (decide (InRange z), clampLong z) := by
  have hlen : s.length ≠ 0 := by simpa using numeral_ne_nil h
  unfold convertStrToLong
  rw [strtol_of_numeral h (by decide)]
  dsimp only
  rw [if_neg hlen, List.getElem?_append_right le_rfl, Nat.sub_self, List.getElem?_cons_zero,
    Option.map_some, Option.some_inj, Prod.mk.injEq, decide_eq_decide, eq_self_iff_true, true_and]
  exact ⟨inRange_clampLong, rfl⟩

theorem numeral_of_convertStrToLong {s r : Bytes} (hs : ∀ b ∈ s, b ≠ 0) {v : ℤ}
    (h : convertStrToLong (s ++ 0 :: r) 0 uint32Max = some (true, v)) :
    ∃ z, Numeral s z ∧ InRange z := by
  have hend : (s ++ 0 :: r)[s.length]? = some 0 := by simp
  have hle := strtol_le hend
  unfold convertStrToLong at h
  dsimp only at h
  by_cases h0 : (strtol (s ++ 0 :: r)).2 = 0
  · rw [if_pos h0] at h
    simp at h
  rw [if_neg h0, Option.map_eq_some_iff] at h
  obtain ⟨b, hb, heq⟩ := h
  simp only [Prod.mk.injEq, decide_eq_true_eq] at heq
  obtain ⟨⟨rfl, hrange⟩, -⟩ := heq
  have hat : (strtol (s ++ 0 :: r)).2 = s.length := by
    by_contra hne
    rw [List.getElem?_append_left (by omega)] at hb
    exact hs 0 (List.mem_of_getElem? hb) rfl
  obtain ⟨z, hz, hclamp⟩ := numeral_take_strtol h0
  rw [hat, List.take_left] at hz
  rw [hclamp] at hrange
  exact ⟨z, hz, inRange_clampLong.mp hrange⟩

section Tokens
variable {xStr yStr r₁ r₂ : Bytes} {x y : ℤ} {seekto : Seekto}

theorem convertStrs_numerals (hx : Numeral xStr x) (hy : Numeral yStr y) :
    convertStrs (some (xStr ++ 0 :: r₁)) (some (some (yStr ++ 0 :: r₂))) seekto =
      if InRange x then some (decide (InRange y), ⟨.ofInt (clampLong x), .ofInt (clampLong y)⟩)
      else some (false, { seekto with writeCmd := .ofInt (clampLong x) }) := by
  unfold convertStrs
  dsimp only
  rw [convertStrToLong_numeral hx]
  simp only [Option.bind_eq_bind, Option.bind_some, convertStrToLong_numeral hy, decide_eq_true_eq]

theorem numerals_of_convertStrs (hxs : ∀ b ∈ xStr, b ≠ 0) (hys : ∀ b ∈ yStr, b ≠ 0) {s : Seekto}
    (h : convertStrs (some (xStr ++ 0 :: r₁)) (some (some (yStr ++ 0 :: r₂))) seekto =
      some (true, s)) :
    ∃ x y, Numeral xStr x ∧ Numeral yStr y ∧ InRange x ∧ InRange y ∧ s = ⟨.ofInt x, .ofInt y⟩ := by
  have hconv := h
  unfold convertStrs at hconv
  dsimp only at hconv
  simp only [Option.bind_eq_bind, Option.bind_eq_some_iff] at hconv
  obtain ⟨⟨ok, v⟩, hx, hrest⟩ := hconv
  cases ok with
  | false => simp at hrest
  | true =>
    simp only [if_true, Option.bind_some, Option.bind_eq_some_iff] at hrest
    obtain ⟨⟨ok, w⟩, hy, hret⟩ := hrest
    simp only [Option.some.injEq, Prod.mk.injEq] at hret
    rw [hret.1] at hy
    obtain ⟨x, hx, hxr⟩ := numeral_of_convertStrToLong hxs hx
    obtain ⟨y, hy, hyr⟩ := numeral_of_convertStrToLong hys hy
    rw [convertStrs_numerals hx hy, if_pos hxr, clampLong_eq hxr, clampLong_eq hyr] at h
    simp only [Option.some.injEq, Prod.mk.injEq] at h
    exact ⟨x, y, hx, hy, hxr, hyr, h.2.symm⟩

/-! ### Tokens -/

variable {xy c₁ c₂ r : Bytes} {d : UInt8}

theorem parseXStrAndYStr_two (hxy : xy = c₁ ++ (xStr ++ comma :: (c₂ ++ (yStr ++ d :: r))))
    (hc₁ : ∀ b ∈ c₁, b = comma) (hc₂ : ∀ b ∈ c₂, b = comma) (hxn : xStr ≠ [])
    (hyn : yStr ≠ []) (hxs : ∀ b ∈ xStr, b ≠ comma ∧ b ≠ 0)
    (hys : ∀ b ∈ yStr, b ≠ comma ∧ b ≠ 0) (hd : d = comma ∨ d = 0) :
    ∃ r₁ r₂, ∀ seekto, parseXStrAndYStr xy seekto =
      convertStrs (some (xStr ++ 0 :: r₁)) (some (some (yStr ++ 0 :: r₂))) seekto := by
  have hmem : xy.drop 0 = c₁ ++ (xStr ++ comma :: (c₂ ++ (yStr ++ d :: r))) := by
    rw [List.drop_zero, hxy]
  obtain ⟨mem, save, r₁, hfirst, hx, hsave, hle, -⟩ :=
    strtok_token hmem hc₁ hxn hxs (Or.inl rfl)
  rw [if_neg (show comma ≠ 0 by decide)] at hsave
  obtain ⟨mem', save', r₂, hsecond, hy, -, -, hkeep⟩ := strtok_token hsave hc₂ hyn hys hd
  obtain ⟨r₁', hx'⟩ := hkeep _ _ _ hle hx
  refine ⟨r₁', r₂, fun seekto => ?_⟩
  unfold parseXStrAndYStr
  simp only [hfirst, hsecond, Option.bind_eq_bind, Option.bind_some, Option.map_some, hx', hy]

theorem parseXStrAndYStr_cases (h : Terminated xy 0) :
    (∃ c₁ xStr c₂ yStr d r, xy = c₁ ++ (xStr ++ comma :: (c₂ ++ (yStr ++ d :: r))) ∧
      (∀ b ∈ c₁, b = comma) ∧ (∀ b ∈ c₂, b = comma) ∧ xStr ≠ [] ∧ yStr ≠ [] ∧
      (∀ b ∈ xStr, b ≠ comma ∧ b ≠ 0) ∧ (∀ b ∈ yStr, b ≠ comma ∧ b ≠ 0) ∧
      (d = comma ∨ d = 0)) ∨
    ∀ seekto, parseXStrAndYStr xy seekto = some (false, seekto) := by
  have hd : comma ≠ 0 := by decide
  have hnone : ∀ {mem : Bytes} {tok save mem' save'},
      strtok comma xy 0 = some (mem, tok, save) → strtok comma mem save = some (mem', none, save') →
        ∀ seekto, parseXStrAndYStr xy seekto = some (false, seekto) := by
    intro mem tok save mem' save' hfirst hsecond seekto
    unfold parseXStrAndYStr
    simp only [hfirst, hsecond, Option.bind_eq_bind, Option.bind_some, Option.map_none]
    cases tok <;> rfl
  rcases strtok_cases hd h with ⟨c₁, r, hmem, hc₁⟩ | ⟨c₁, xStr, d₁, r, hmem, hc₁, hxn, hxs, hd₁⟩
  · have hleft : xy.drop (0 + c₁.length) = [] ++ 0 :: r := by
      rw [← List.drop_drop, hmem, List.drop_left, List.nil_append]
    exact Or.inr (hnone (strtok_end hd hmem hc₁) (strtok_end hd hleft (by simp)))
  obtain ⟨mem, save, r₁, hfirst, -, hsave, -⟩ := strtok_token hmem hc₁ hxn hxs hd₁
  rcases hd₁ with rfl | rfl
  · rw [if_neg hd] at hsave
    obtain ⟨mem', tok', save', hfirst', hterm, -⟩ := strtok_ok hd h
    simp only [hfirst, Option.some.injEq, Prod.mk.injEq] at hfirst'
    obtain ⟨rfl, -, rfl⟩ := hfirst'
    rcases strtok_cases hd hterm with ⟨c₂, r', hmem', hc₂⟩ |
      ⟨c₂, yStr, d₂, r', hmem', hc₂, hyn, hys, hd₂⟩
    · exact Or.inr (hnone hfirst (strtok_end hd hmem' hc₂))
    · refine Or.inl ⟨c₁, xStr, c₂, yStr, d₂, r', ?_, hc₁, hc₂, hxn, hyn, hxs, hys, hd₂⟩
      rw [← hmem', hsave, ← hmem, List.drop_zero]
  · rw [if_pos rfl] at hsave
    have hleft : mem.drop save = [] ++ 0 :: r := by rw [hsave, List.nil_append]
    exact Or.inr (hnone hfirst (strtok_end hd hleft (by simp)))

end Tokens

/-! ### Packets -/

/-- The prefix, and at least one byte behind it. -/
theorem hasPrefix_iff {packet : Bytes} :
    hasPrefix packet = true ↔ ∃ body last, packet = seektoPacketPrefix ++ (body ++ [last]) := by
  have hbytes : ∀ b ∈ seektoPacketPrefix, b ≠ 0 := by simp [seektoPacketPrefix]
  have hcmp : strncmpEq seektoPacketPrefixLength packet (seektoPacketPrefix ++ [0]) = true ↔
      ∃ rest, packet = seektoPacketPrefix ++ rest :=
    strncmpEq_iff hbytes
  have hlen : seektoPacketPrefix.length = seektoPacketPrefixLength := rfl
  unfold hasPrefix
  rw [Bool.and_eq_true, decide_eq_true_eq, hcmp]
  constructor
  · rintro ⟨hlt, rest, rfl⟩
    rw [List.length_append, hlen] at hlt
    have hnil : rest ≠ [] := by
      rintro rfl
      simp at hlt
    exact ⟨rest.dropLast, rest.getLast hnil, by rw [List.dropLast_append_getLast]⟩
  · rintro ⟨body, last, rfl⟩
    exact ⟨by simp [hlen], _, rfl⟩

/-- The copy: the bytes behind the prefix up to the last one or a zero byte, and a zero byte. -/
theorem xyStr_append (body : Bytes) (last : UInt8) :
    ∃ z, xyStr (seektoPacketPrefix ++ (body ++ [last])) =
      body.takeWhile (fun b => b != 0) ++ 0 :: z := by
  have hlen : (seektoPacketPrefix ++ (body ++ [last])).length - seektoPacketPrefixLength =
      body.length + 1 := by
    rw [List.length_append, List.length_append]
    exact Nat.add_sub_cancel_left _ _
  have hdrop : (seektoPacketPrefix ++ (body ++ [last])).drop seektoPacketPrefix.length =
      body ++ [last] := List.drop_left
  rw [show seektoPacketPrefix.length = seektoPacketPrefixLength from rfl] at hdrop
  obtain ⟨k, hk⟩ := strncpy_append body [last]
  refine ⟨List.replicate k 0, ?_⟩
  unfold xyStr
  rw [hlen, hdrop, Nat.add_sub_cancel, strncpy_set, hk, List.append_assoc,
    ← List.replicate_succ', List.replicate_succ]

/-- A word in the copy that a comma or a zero byte follows, told from the bytes copied. -/
theorem follows_iff {word body z : Bytes} (hword : ∀ b ∈ word, b ≠ 0) :
    (∃ rest, body = word ++ rest ∧ (rest = [] ∨ ∃ r, rest = comma :: r ∨ rest = 0 :: r)) ↔
      ∃ d r, body.takeWhile (fun b => b != 0) ++ 0 :: z = word ++ d :: r ∧
        (d = comma ∨ d = 0) := by
  have hpos : ∀ b ∈ word, (b != 0) = true := by simpa using hword
  constructor
  · rintro ⟨rest, rfl, hrest⟩
    rw [List.takeWhile_append_of_pos hpos, List.append_assoc]
    rcases hrest with rfl | ⟨r, rfl | rfl⟩
    · exact ⟨0, z, rfl, Or.inr rfl⟩
    · exact ⟨comma, _, rfl, Or.inl rfl⟩
    · exact ⟨0, z, rfl, Or.inr rfl⟩
  · rintro ⟨d, r, heq, hd⟩
    have hbody := List.takeWhile_append_dropWhile (p := fun b => b != 0) (l := body)
    -- the word ends where the string ends: what follows it was not copied
    have hend : body.takeWhile (fun b => b != 0) = word →
        ∃ rest, body = word ++ rest ∧ (rest = [] ∨ ∃ r, rest = comma :: r ∨ rest = 0 :: r) := by
      intro hw
      refine ⟨body.dropWhile fun b => b != 0, by rw [← hw, hbody], ?_⟩
      exact (dropWhile_ne_zero body).imp id fun ⟨r, hr⟩ => ⟨r, Or.inr hr⟩
    rcases List.append_eq_append_iff.mp heq with ⟨m, hm, hz⟩ | ⟨m, hm, hz⟩
    · rcases m with _ | ⟨a, m⟩
      · exact hend (by rw [hm, List.append_nil])
      · rw [List.cons_append, List.cons.injEq] at hz
        exact absurd hz.1.symm (hword a (by simp [hm]))
    · rcases m with _ | ⟨a, m⟩
      · exact hend (by rw [hm, List.append_nil])
      · rw [List.cons_append, List.cons.injEq] at hz
        refine ⟨a :: (m ++ body.dropWhile fun b => b != 0), ?_,
          Or.inr ⟨m ++ body.dropWhile fun b => b != 0, ?_⟩⟩
        · calc body = word ++ a :: m ++ body.dropWhile fun b => b != 0 := by rw [← hm, hbody]
            _ = word ++ a :: (m ++ body.dropWhile fun b => b != 0) := by
              rw [List.append_assoc, List.cons_append]
        · rw [← hz.1]
          rcases hd with rfl | rfl
          · exact Or.inl rfl
          · exact Or.inr rfl
/-- Everything up to the end of the second token. -/
def word (c₁ xStr c₂ yStr : Bytes) : Bytes := c₁ ++ (xStr ++ comma :: (c₂ ++ yStr))

theorem word_append (c₁ xStr c₂ yStr t : Bytes) :
    word c₁ xStr c₂ yStr ++ t = c₁ ++ (xStr ++ comma :: (c₂ ++ (yStr ++ t))) := by
  simp [word]

theorem word_ne_zero {c₁ xStr c₂ yStr : Bytes} (hc₁ : ∀ b ∈ c₁, b = comma)
    (hc₂ : ∀ b ∈ c₂, b = comma) (hxs : ∀ b ∈ xStr, b ≠ comma ∧ b ≠ 0)
    (hys : ∀ b ∈ yStr, b ≠ comma ∧ b ≠ 0) : ∀ b ∈ word c₁ xStr c₂ yStr, b ≠ 0 := by
  have hcomma : comma ≠ 0 := by decide
  intro b hb
  simp only [word, List.mem_append, List.mem_cons] at hb
  rcases hb with hb | hb | rfl | hb | hb
  · rw [hc₁ b hb]
    exact hcomma
  · exact (hxs b hb).2
  · exact hcomma
  · rw [hc₂ b hb]
    exact hcomma
  · exact (hys b hb).2

theorem isSeektoPacket_numerals {c₁ xStr c₂ yStr rest : Bytes} {x y : ℤ} {seekto : Seekto}
    {last : UInt8} (hc₁ : ∀ b ∈ c₁, b = comma) (hc₂ : ∀ b ∈ c₂, b = comma)
    (hx : Numeral xStr x) (hy : Numeral yStr y)
    (hrest : rest = [] ∨ ∃ r, rest = comma :: r ∨ rest = 0 :: r) :
    isSeektoPacket true (seektoPacketPrefix ++
        (c₁ ++ (xStr ++ comma :: (c₂ ++ (yStr ++ rest))) ++ [last])) seekto =
      if InRange x then some (decide (InRange y), ⟨.ofInt (clampLong x), .ofInt (clampLong y)⟩)
      else some (false, { seekto with writeCmd := .ofInt (clampLong x) }) := by
  obtain ⟨z, hxy⟩ := xyStr_append (c₁ ++ (xStr ++ comma :: (c₂ ++ (yStr ++ rest)))) last
  have hword := word_ne_zero hc₁ hc₂ (numeral_ne hx) (numeral_ne hy)
  obtain ⟨d, r, htok, hd⟩ :=
    (follows_iff hword).mp ⟨rest, (word_append c₁ xStr c₂ yStr rest).symm, hrest⟩
  rw [← hxy, word_append] at htok
  obtain ⟨r₁, r₂, hparse⟩ := parseXStrAndYStr_two htok hc₁ hc₂ (numeral_ne_nil hx)
    (numeral_ne_nil hy) (numeral_ne hx) (numeral_ne hy) hd
  unfold isSeektoPacket
  rw [if_pos (hasPrefix_iff.mpr ⟨_, _, rfl⟩), if_pos rfl, hparse, convertStrs_numerals hx hy]

/-- **Only seek commands are accepted**: two tokens that are judged well are two numerals in the
packet. -/
theorem seekCommand_of_isSeektoPacket {line : Bytes} {seekto s : Seekto}
    (h : isSeektoPacket true (line ++ [newline]) seekto = some (true, s)) :
    ∃ x y, SeekCommand (line ++ [newline]) x y ∧ s = ⟨.ofInt x, .ofInt y⟩ := by
  unfold isSeektoPacket at h
  by_cases hp : hasPrefix (line ++ [newline]) = true
  swap
  · rw [if_neg hp] at h
    simp at h
  rw [if_pos hp, if_pos rfl] at h
  obtain ⟨body, last, hline⟩ := hasPrefix_iff.mp hp
  have hlast : [newline] = [last] := by
    rw [← List.append_assoc] at hline
    exact (List.append_inj' hline rfl).2
  obtain rfl : newline = last := by simpa using hlast
  obtain ⟨z, hxy⟩ := xyStr_append body newline
  rcases parseXStrAndYStr_cases (terminated_xyStr hp) with
    ⟨c₁, xStr, c₂, yStr, d, r, htok, hc₁, hc₂, hxn, hyn, hxs, hys, hd⟩ | hno
  swap
  · rw [hno] at h
    simp at h
  obtain ⟨r₁, r₂, hparse⟩ := parseXStrAndYStr_two htok hc₁ hc₂ hxn hyn hxs hys hd
  rw [hparse] at h
  obtain ⟨x, y, hx, hy, hxr, hyr, hs⟩ :=
    numerals_of_convertStrs (fun b hb => (hxs b hb).2) (fun b hb => (hys b hb).2) h
  rw [hline, hxy, ← word_append] at htok
  obtain ⟨rest, hbody, hrest⟩ :=
    (follows_iff (word_ne_zero hc₁ hc₂ hxs hys)).mpr ⟨d, r, htok, hd⟩
  refine ⟨x, y, ⟨c₁, xStr, c₂, yStr, rest, ?_, hc₁, hc₂, hx, hy, hxr, hyr, hrest⟩, hs⟩
  rw [hline, hbody, word_append]

/-- **What is taken for a seek command.** For every packet that ends in a newline, `is_seekto_packet`
returns `TRUE` exactly on the seek commands, with their two numbers. -/
theorem isSeektoPacket_iff {line : Bytes} {seekto s : Seekto} :
    isSeektoPacket true (line ++ [newline]) seekto = some (true, s) ↔
      ∃ x y, SeekCommand (line ++ [newline]) x y ∧ s = ⟨.ofInt x, .ofInt y⟩ := by
  refine ⟨seekCommand_of_isSeektoPacket, ?_⟩
  rintro ⟨x, y, ⟨c₁, xStr, c₂, yStr, rest, hline, hc₁, hc₂, hx, hy, hxr, hyr, hrest⟩, rfl⟩
  rw [hline, isSeektoPacket_numerals hc₁ hc₂ hx hy hrest, if_pos hxr, decide_eq_true hyr,
    clampLong_eq hxr, clampLong_eq hyr]

end Aesd.Server.SeekGrammar
