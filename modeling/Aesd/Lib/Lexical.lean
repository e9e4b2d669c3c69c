import Aesd.Lib.CString
import Mathlib.Data.List.TakeWhile
import Mathlib.Data.Nat.Digits.Defs

/-! # What the string functions recognise

`strtok` takes the first token after the delimiters at its position, if there is one
(`strtok_token`, `strtok_end`, `strtok_cases`). `strtol` reads a whole string exactly if it is a numeral:
blanks, a sign or none, and digits (`strtol_of_numeral`, `numeral_of_strtol`). -/

namespace Aesd.Lib.Lexical

open Aesd.Lib.CString

/-! ### Scans -/

theorem takeWhile_append_cons {p : UInt8 → Bool} {l r : List UInt8} {a : UInt8}
    (hl : ∀ b ∈ l, p b = true) (ha : p a = false) : (l ++ a :: r).takeWhile p = l := by
  rw [List.takeWhile_append_of_pos hl, List.takeWhile_cons_of_neg (by simp [ha]), List.append_nil]

theorem exists_scan {p : UInt8 → Bool} {l : List UInt8} {a : UInt8} (hn : a ∈ l)
    (ha : p a = false) :
    ∃ c b r, l = c ++ b :: r ∧ (∀ x ∈ c, p x = true) ∧ p b = false := by
  induction l with
  | nil => simp at hn
  | cons x l ih =>
    by_cases hx : p x = true
    · have hne : a ≠ x := by
        rintro rfl
        rw [hx] at ha
        cases ha
      obtain ⟨c, b, r, hl, hc, hb⟩ := ih ((List.mem_cons.mp hn).resolve_left hne)
      refine ⟨x :: c, b, r, by rw [hl]; rfl, fun y hy => ?_, hb⟩
      rcases List.mem_cons.mp hy with rfl | hy
      · exact hx
      · exact hc y hy
    · exact ⟨[], x, l, rfl, by simp, by simpa using hx⟩

/-- What is left behind a string is nothing, or starts with a zero byte. -/
theorem dropWhile_ne_zero (l : List UInt8) :
    l.dropWhile (fun b => b != 0) = [] ∨ ∃ r, l.dropWhile (fun b => b != 0) = 0 :: r := by
  have hhead := List.head?_dropWhile_not (fun b => b != 0) l
  rcases hdrop : l.dropWhile (fun b => b != 0) with _ | ⟨b, r⟩
  · exact Or.inl rfl
  · rw [hdrop] at hhead
    have hb : b = 0 := by simpa using hhead
    exact Or.inr ⟨r, by rw [hb]⟩

/-! ### Comparisons and copies -/

/-- Equal in the first bytes, as many as `t` has: `s` starts with `t`. -/
theorem strncmpEq_iff {t r s : List UInt8} (ht : ∀ b ∈ t, b ≠ 0) :
    strncmpEq t.length s (t ++ r) = true ↔ ∃ s', s = t ++ s' := by
  induction t generalizing s with
  | nil => simp [strncmpEq]
  | cons a t ih =>
    have hrest : ∀ b ∈ t, b ≠ 0 := fun b hb => ht b (List.mem_cons_of_mem a hb)
    have ha : a ≠ 0 := ht a List.mem_cons_self
    rcases s with _ | ⟨b, s⟩
    · simp [strncmpEq]
    · by_cases hb : b = a
      · simp [strncmpEq, hb, ha, ih hrest]
      · simp [strncmpEq, hb]

theorem strncmpEq_take (n : ℕ) (s t : List UInt8) : strncmpEq n (s.take n) t = strncmpEq n s t := by
  induction n generalizing s t with
  | zero => rfl
  | succ n ih =>
    rcases s with _ | ⟨a, s⟩
    · rfl
    · rcases t with _ | ⟨b, t⟩
      · rfl
      · rw [List.take_succ_cons, strncmpEq, strncmpEq, ih]

/-- The string at the start of the source, and zeros. -/
theorem strncpy_append (src r : List UInt8) :
    ∃ k, strncpy src.length (src ++ r) = src.takeWhile (fun b => b != 0) ++ List.replicate k 0 := by
  induction src with
  | nil => exact ⟨0, rfl⟩
  | cons b src ih =>
    by_cases hb : b = 0
    · exact ⟨src.length + 1, by simp [strncpy, hb]⟩
    · obtain ⟨k, hk⟩ := ih
      exact ⟨k, by simp [strncpy, hb, hk]⟩

/-- A copy whose last byte is then made a zero is a copy of one byte less and the zero. -/
theorem strncpy_set (n : ℕ) (src : List UInt8) :
    (strncpy (n + 1) src).set n 0 = strncpy n src ++ [0] := by
  induction n generalizing src with
  | zero =>
    rcases src with _ | ⟨b, src⟩
    · rfl
    · by_cases hb : b = 0 <;> simp [strncpy, hb]
  | succ n ih =>
    rcases src with _ | ⟨b, src⟩
    · simp [strncpy, List.replicate_succ']
    · by_cases hb : b = 0
      · simp [strncpy, hb, List.replicate_succ']
      · rw [strncpy, if_neg hb, List.set_cons_succ, ih, strncpy, if_neg hb, List.cons_append]

/-! ### Tokens -/

section Strtok
variable {delim : UInt8} {mem : List UInt8} {pos : ℕ} {c : List UInt8}

theorem getElem?_of_drop {mem l r : List UInt8} {pos : ℕ} {a : UInt8}
    (h : mem.drop pos = l ++ a :: r) : mem[pos + l.length]? = some a := by
  rw [← List.getElem?_drop, h]
  simp

theorem strtok_end (hd : delim ≠ 0) {r : List UInt8} (hmem : mem.drop pos = c ++ 0 :: r)
    (hc : ∀ b ∈ c, b = delim) : strtok delim mem pos = some (mem, none, pos + c.length) := by
  have hscan : (mem.drop pos).takeWhile (fun b => b == delim) = c := by
    rw [hmem]
    exact takeWhile_append_cons (by simpa using hc) (by simpa using Ne.symm hd)
  unfold strtok
  rw [hscan]
  dsimp only
  rw [getElem?_of_drop hmem]
  rfl

theorem drop_set_of_le {X r : List UInt8} (h : mem.drop pos = X ++ 0 :: r) {j : ℕ}
    (hj : pos + X.length ≤ j) : ∃ r', (mem.set j 0).drop pos = X ++ 0 :: r' := by
  refine ⟨(((0 : UInt8) :: r).set (j - pos - X.length) 0).tail, ?_⟩
  rw [List.drop_set, if_neg (by omega), h, List.set_append_right _ _ (by omega)]
  rcases hk : j - pos - X.length with _ | k <;> simp

/-- **The token** after some delimiters is a string in the memory left; the next call starts behind
it, and strings before the token stay. -/
theorem strtok_token {X r : List UInt8} {d : UInt8} (hmem : mem.drop pos = c ++ (X ++ d :: r))
    (hc : ∀ b ∈ c, b = delim) (hX : X ≠ []) (hXd : ∀ b ∈ X, b ≠ delim ∧ b ≠ 0)
    (hd : d = delim ∨ d = 0) :
    ∃ mem' save r', strtok delim mem pos = some (mem', some (pos + c.length), save) ∧
      mem'.drop (pos + c.length) = X ++ 0 :: r' ∧
      mem'.drop save = (if d = 0 then d :: r else r) ∧ pos + c.length + X.length ≤ save ∧
      ∀ q W s, q + W.length ≤ pos → mem.drop q = W ++ 0 :: s → ∃ s', mem'.drop q = W ++ 0 :: s' := by
  obtain ⟨x, X', hxX⟩ := List.exists_cons_of_ne_nil hX
  have hx : x ≠ delim ∧ x ≠ 0 := hXd x (by simp [hxX])
  have hscan : (mem.drop pos).takeWhile (fun b => b == delim) = c := by
    rw [hmem, hxX, List.cons_append]
    exact takeWhile_append_cons (by simpa using hc) (by simpa using hx.1)
  have hdrop : mem.drop (pos + c.length) = X ++ d :: r := by
    rw [← List.drop_drop, hmem, List.drop_left]
  have hscan' : (mem.drop (pos + c.length)).takeWhile (fun b => b != delim && b != 0) = X := by
    rw [hdrop]
    refine takeWhile_append_cons (fun b hb => by simpa using hXd b hb) ?_
    rcases hd with rfl | rfl <;> simp
  have hdrop' : mem.drop (pos + c.length + X.length) = d :: r := by
    rw [← List.drop_drop, hdrop, List.drop_left]
  have hget : mem[pos + c.length]? = some x := by
    rw [← List.head?_drop, hdrop, hxX]
    rfl
  have hstrtok : strtok delim mem pos =
      if d = 0 then some (mem, some (pos + c.length), pos + c.length + X.length)
      else some (mem.set (pos + c.length + X.length) 0, some (pos + c.length),
        pos + c.length + X.length + 1) := by
    unfold strtok
    rw [hscan]
    dsimp only
    rw [hscan', hget, getElem?_of_drop hdrop]
    simp [hx.2]
  by_cases hd0 : d = 0
  · rw [if_pos hd0] at hstrtok ⊢
    refine ⟨_, _, r, hstrtok, ?_, hdrop', le_rfl, fun q W s _ h => ⟨s, h⟩⟩
    rw [hdrop, hd0]
  · rw [if_neg hd0] at hstrtok ⊢
    refine ⟨_, _, r, hstrtok, ?_, ?_, by omega, fun q W s hq h => drop_set_of_le h (by omega)⟩
    · rw [List.drop_set, if_neg (by omega), hdrop, Nat.add_sub_cancel_left,
        List.set_append_right _ _ le_rfl, Nat.sub_self, List.set_cons_zero]
    · rw [List.drop_set_of_lt (by omega), ← List.drop_drop, hdrop', List.drop_one, List.tail_cons]

theorem strtok_cases (hd : delim ≠ 0) (h : Terminated mem pos) :
    (∃ c r, mem.drop pos = c ++ 0 :: r ∧ ∀ b ∈ c, b = delim) ∨
      ∃ c X d r, mem.drop pos = c ++ (X ++ d :: r) ∧ (∀ b ∈ c, b = delim) ∧ X ≠ [] ∧
        (∀ b ∈ X, b ≠ delim ∧ b ≠ 0) ∧ (d = delim ∨ d = 0) := by
  obtain ⟨n, hn, hz⟩ := h
  have hmem : (0 : UInt8) ∈ mem.drop pos := by
    have hat : (mem.drop pos)[n - pos]? = some 0 := by
      rw [List.getElem?_drop, Nat.add_sub_cancel' hn, hz]
    exact List.mem_of_getElem? hat
  obtain ⟨c, x, r, hl, hc, hx⟩ :=
    exists_scan (p := fun b => b == delim) hmem (by simpa using Ne.symm hd)
  have hc' : ∀ b ∈ c, b = delim := by simpa using hc
  by_cases hx0 : x = 0
  · exact Or.inl ⟨c, r, by rw [hl, hx0], hc'⟩
  · right
    have hrest : (0 : UInt8) ∈ x :: r := by
      rw [hl, List.mem_append] at hmem
      exact hmem.resolve_left fun h0 => hd (hc' 0 h0).symm
    obtain ⟨X, d, r', hX, hXd, hdd⟩ :=
      exists_scan (p := fun b => b != delim && b != 0) hrest (by simp)
    have hXd' : ∀ b ∈ X, b ≠ delim ∧ b ≠ 0 := by simpa using hXd
    refine ⟨c, X, d, r', by rw [hl, hX], hc', ?_, hXd', ?_⟩
    · rintro rfl
      rw [List.nil_append, List.cons.injEq] at hX
      rw [← hX.1] at hdd
      simp [hx0] at hdd hx
      exact hx hdd
    · by_cases hdd' : d = delim
      · exact Or.inl hdd'
      · simp [hdd'] at hdd
        exact Or.inr hdd

end Strtok

/-! ### Numerals -/

/-- A numeral and its value: blanks, a sign or none, and digits. -/
def Numeral (s : List UInt8) (z : ℤ) : Prop :=
  ∃ blanks sgn digits, s = blanks ++ (sgn ++ digits) ∧ (∀ b ∈ blanks, isSpace b = true) ∧
    digits ≠ [] ∧ (∀ b ∈ digits, isDigit b = true) ∧
      ((sgn = [] ∨ sgn = [43]) ∧ z = digitsValue digits ∨ sgn = [45] ∧ z = -digitsValue digits)

theorem mem_numeral {s : List UInt8} {z : ℤ} (h : Numeral s z) {b : UInt8} (hb : b ∈ s) :
    isSpace b = true ∨ isDigit b = true ∨ b = 43 ∨ b = 45 := by
  obtain ⟨blanks, sgn, digits, rfl, hblanks, -, hdigits, hz⟩ := h
  rw [List.mem_append, List.mem_append] at hb
  rcases hb with hb | hb | hb
  · exact Or.inl (hblanks b hb)
  · rcases hz with ⟨rfl | rfl, -⟩ | ⟨rfl, -⟩ <;> simp at hb <;> simp [hb]
  · exact Or.inr (Or.inl (hdigits b hb))

theorem numeral_ne_nil {s : List UInt8} {z : ℤ} (h : Numeral s z) : s ≠ [] := by
  obtain ⟨blanks, sgn, digits, rfl, -, hnil, -⟩ := h
  simp [hnil]

theorem numeral_digits {digits : List UInt8} (hnil : digits ≠ [])
    (hdigits : ∀ b ∈ digits, isDigit b = true) : Numeral digits (digitsValue digits) :=
  ⟨[], [], digits, rfl, by simp, hnil, hdigits, Or.inl ⟨Or.inl rfl, rfl⟩⟩

theorem isSpace_of_isDigit {b : UInt8} (h : isDigit b = true) : isSpace b = false := by
  unfold isDigit at h
  unfold isSpace
  grind

theorem sign_of_isDigit {b : UInt8} (h : isDigit b = true) (r : List UInt8) :
    sign (b :: r) = (false, 0) := by
  unfold isDigit at h
  unfold sign
  grind

theorem sign_append {sgn digits r : List UInt8} (hnil : digits ≠ [])
    (hdigits : ∀ b ∈ digits, isDigit b = true) (hsgn : sgn = [] ∨ sgn = [43] ∨ sgn = [45]) :
    sign (sgn ++ digits ++ r) = (decide (sgn = [45]), sgn.length) := by
  obtain ⟨d, digits, rfl⟩ := List.exists_cons_of_ne_nil hnil
  rcases hsgn with rfl | rfl | rfl
  · exact sign_of_isDigit (hdigits d (by simp)) _
  · rfl
  · rfl

/-- **A numeral is read whole**, if no digit follows. -/
theorem strtol_of_numeral {s r : List UInt8} {z : ℤ} (h : Numeral s z) {e : UInt8}
    (he : isDigit e = false) : strtol (s ++ e :: r) = (clampLong z, s.length) := by
  obtain ⟨blanks, sgn, digits, rfl, hblanks, hnil, hdigits, hz⟩ := h
  have hsgn : sgn = [] ∨ sgn = [43] ∨ sgn = [45] := by
    rcases hz with ⟨h | h, -⟩ | ⟨h, -⟩ <;> simp [h]
  have hblank : (blanks ++ (sgn ++ digits) ++ e :: r).takeWhile isSpace = blanks := by
    rw [List.append_assoc, List.takeWhile_append_of_pos hblanks]
    obtain ⟨d, digits, rfl⟩ := List.exists_cons_of_ne_nil hnil
    rcases hsgn with rfl | rfl | rfl
    · simp [isSpace_of_isDigit (hdigits d (by simp))]
    · simp [isSpace]
    · simp [isSpace]
  have hdrop : (blanks ++ (sgn ++ digits) ++ e :: r).drop blanks.length =
      sgn ++ digits ++ e :: r := by
    rw [List.append_assoc, List.drop_left]
  have hdrop' : (blanks ++ (sgn ++ digits) ++ e :: r).drop (blanks.length + sgn.length) =
      digits ++ e :: r := by
    rw [← List.drop_drop, hdrop, List.append_assoc, List.drop_left]
  unfold strtol
  rw [hblank]
  dsimp only
  rw [hdrop, sign_append hnil hdigits hsgn]
  dsimp only
  rw [hdrop', takeWhile_append_cons hdigits he, if_neg hnil]
  have hlen : blanks.length + sgn.length + digits.length =
      (blanks ++ (sgn ++ digits)).length := by
    simp only [List.length_append]
    omega
  rw [hlen]
  rcases hz with ⟨rfl | rfl, rfl⟩ | ⟨rfl, rfl⟩ <;> rfl

theorem sign_cases (s : List UInt8) :
    (s.take (sign s).2 = [] ∨ s.take (sign s).2 = [43]) ∧ (sign s).1 = false ∨
      s.take (sign s).2 = [45] ∧ (sign s).1 = true := by
  rcases s with _ | ⟨b, s⟩
  · simp [sign]
  · by_cases hm : b = 45
    · simp [sign, hm]
    · by_cases hp : b = 43
      · simp [sign, hp]
      · simp [sign, hm, hp]

/-- **What `strtol` reads is a numeral**. -/
theorem numeral_take_strtol {s : List UInt8} (h : (strtol s).2 ≠ 0) :
    ∃ z, Numeral (s.take (strtol s).2) z ∧ (strtol s).1 = clampLong z := by
  unfold strtol at h ⊢
  set blanks := s.takeWhile isSpace with hblanks
  dsimp only at h ⊢
  set sgn := sign (s.drop blanks.length) with hsgn
  set digits := (s.drop (blanks.length + sgn.2)).takeWhile isDigit with hdigits
  by_cases hnil : digits = []
  · rw [if_pos hnil] at h
    exact absurd rfl h
  rw [if_neg hnil]
  have htake : s.take (blanks.length + sgn.2 + digits.length) =
      blanks ++ ((s.drop blanks.length).take sgn.2 ++ digits) := by
    have hb : s.take blanks.length = blanks :=
      (List.prefix_iff_eq_take.mp (List.takeWhile_prefix _)).symm
    have hd : (s.drop (blanks.length + sgn.2)).take digits.length = digits :=
      (List.prefix_iff_eq_take.mp (List.takeWhile_prefix _)).symm
    rw [List.take_add, hd, List.take_add, hb, List.append_assoc]
  refine ⟨_, ⟨blanks, (s.drop blanks.length).take sgn.2, digits, htake, ?_, hnil, ?_, ?_⟩, rfl⟩
  · exact fun b hb => List.mem_takeWhile_imp hb
  · exact fun b hb => List.mem_takeWhile_imp hb
  · rcases sign_cases (s.drop blanks.length) with ⟨ht, hs⟩ | ⟨ht, hs⟩
    · exact Or.inl ⟨ht, by rw [hsgn, hs]; rfl⟩
    · exact Or.inr ⟨ht, by rw [hsgn, hs]; rfl⟩

/-! ### Decimal numbers -/

/-- The digits of `n` in decimal, after any number of zeros. -/
def Decimal (s : List UInt8) (n : ℕ) : Prop :=
  s ≠ [] ∧ (∀ b ∈ s, isDigit b = true) ∧
    Nat.ofDigits 10 (s.reverse.map fun b => b.toNat - 48) = n

theorem digitsValue_eq (s : List UInt8) :
    digitsValue s = Nat.ofDigits 10 (s.reverse.map fun b => b.toNat - 48) := by
  rw [Nat.ofDigits_eq_foldr, List.map_reverse, List.foldr_reverse, List.foldl_map]
  unfold digitsValue
  congr 1
  funext n b
  rw [Nat.add_comm]
  rfl

theorem numeral_of_decimal {s : List UInt8} {n : ℕ} (h : Decimal s n) : Numeral s n := by
  obtain ⟨hnil, hdigits, rfl⟩ := h
  rw [← digitsValue_eq]
  exact numeral_digits hnil hdigits

end Aesd.Lib.Lexical
