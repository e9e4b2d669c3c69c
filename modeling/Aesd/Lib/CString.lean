import Mathlib.Tactic

/-! # The C library's string functions

Memory is a list of bytes, a pointer into it a position, and a string is what stands from a position on
up to a zero byte (`Terminated`). A function that would read past the end of the memory gives `none`.
`strtok` works on the memory and the position it is called with or has saved, and gives the memory
left, the token found and the position saved. -/

namespace Aesd.Lib.CString

/-- A zero byte at the position or after it. -/
def Terminated (mem : List UInt8) (pos : ℕ) : Prop := ∃ n, pos ≤ n ∧ mem[n]? = some 0

/-- `strncmp(s, t, n) == 0` -/
def strncmpEq : ℕ → List UInt8 → List UInt8 → Bool
  | 0, _, _ => true
  | n + 1, a :: s, b :: t => a == b && (a == 0 || strncmpEq n s t)
  | _ + 1, _, _ => false

/-- The `n` bytes that `strncpy(dest, src, n)` writes. -/
def strncpy : ℕ → List UInt8 → List UInt8
  | 0, _ => []
  | n + 1, [] => List.replicate (n + 1) 0
  | n + 1, c :: src => if c = 0 then List.replicate (n + 1) 0 else c :: strncpy n src

theorem length_strncpy : ∀ (n : ℕ) (src : List UInt8), (strncpy n src).length = n
  | 0, _ => rfl
  | n + 1, [] => by simp [strncpy]
  | n + 1, c :: src => by
    unfold strncpy
    split_ifs
    · simp
    · simp [length_strncpy n src]

/-- `strtok` from the position `pos` on, with the one delimiter `delim`. -/
def strtok (delim : UInt8) (mem : List UInt8) (pos : ℕ) : Option (List UInt8 × Option ℕ × ℕ) :=
  let start := pos + ((mem.drop pos).takeWhile fun c => c == delim).length
  match mem[start]? with
  | none => none
  | some c =>
    if c = 0 then some (mem, none, start)
    else
      let stop := start + ((mem.drop start).takeWhile fun c => c != delim && c != 0).length
      match mem[stop]? with
      | none => none
      | some c =>
        if c = 0 then some (mem, some start, stop)
        else some (mem.set stop 0, some start, stop + 1)

/-- `isspace` -/
def isSpace (c : UInt8) : Bool := c == 32 || (9 ≤ c && c ≤ 13)

/-- `isdigit` -/
def isDigit (c : UInt8) : Bool := 48 ≤ c && c ≤ 57

/-- The value of a row of digits. -/
def digitsValue (ds : List UInt8) : ℕ := ds.foldl (fun n d => 10 * n + (d.toNat - 48)) 0

/-- An integer brought into the range of a 64-bit `long`. -/
def clampLong (z : ℤ) : ℤ := max (-2 ^ 63) (min z (2 ^ 63 - 1))

/-- Whether the string starts with a minus sign, and the length of its sign. -/
def sign : List UInt8 → Bool × ℕ
  | [] => (false, 0)
  | c :: _ => if c = 45 then (true, 1) else if c = 43 then (false, 1) else (false, 0)

/-- `strtol(s, &endptr, 10)`: the value, and how far `endptr` is from `s`. -/
def strtol (s : List UInt8) : ℤ × ℕ :=
  let blank := (s.takeWhile isSpace).length
  let sgn := sign (s.drop blank)
  let digits := (s.drop (blank + sgn.2)).takeWhile isDigit
  if digits = [] then (0, 0)
  else
    (clampLong (if sgn.1 then -digitsValue digits else digitsValue digits),
      blank + sgn.2 + digits.length)

/-! ### Nothing reads past a zero byte -/

theorem length_takeWhile_le {α : Type*} {p : α → Bool} :
    ∀ {l : List α} {k : ℕ} {a : α}, l[k]? = some a → p a = false → (l.takeWhile p).length ≤ k
  | [], k, a, h, _ => by simp at h
  | b :: l, k, a, h, ha => by
    cases hb : p b with
    | false => simp [hb]
    | true =>
      rcases k with _ | k
      · simp only [List.getElem?_cons_zero, Option.some.injEq] at h
        rw [h, ha] at hb
        cases hb
      · have ih := length_takeWhile_le (l := l) (by simpa using h) ha
        simpa [List.takeWhile_cons, hb] using ih

/-- A scan over elements that are not zero ends before a zero byte. -/
theorem scan_le {mem : List UInt8} {pos n : ℕ} (hn : pos ≤ n) (hz : mem[n]? = some 0)
    {p : UInt8 → Bool} (hp : p 0 = false) :
    pos + ((mem.drop pos).takeWhile p).length ≤ n := by
  have hat : (mem.drop pos)[n - pos]? = some 0 := by
    rw [List.getElem?_drop, Nat.add_sub_cancel' hn, hz]
  have hle := length_takeWhile_le hat hp
  omega

/-- **`strtok` on a string** is defined, and leaves strings at the token and at the saved position. -/
theorem strtok_ok {delim : UInt8} (hd : delim ≠ 0) {mem : List UInt8} {pos : ℕ}
    (h : Terminated mem pos) :
    ∃ mem' tok save, strtok delim mem pos = some (mem', tok, save) ∧ Terminated mem' save ∧
      (∀ p, tok = some p → Terminated mem' p) ∧ ∀ q, Terminated mem q → Terminated mem' q := by
  obtain ⟨n, hn, hz⟩ := h
  have hstart := scan_le hn hz (p := fun c => c == delim) (by simpa using Ne.symm hd)
  unfold strtok
  set start := pos + ((mem.drop pos).takeWhile fun c => c == delim).length with hs
  have hlt := (List.getElem?_eq_some_iff.mp hz).1
  obtain ⟨c, hc⟩ : ∃ c, mem[start]? = some c := ⟨_, List.getElem?_eq_getElem (by omega)⟩
  simp only [hc]
  by_cases hc0 : c = 0
  · rw [if_pos hc0]
    exact ⟨mem, none, start, rfl, ⟨n, hstart, hz⟩, by simp, fun q hq => hq⟩
  rw [if_neg hc0]
  have hstop := scan_le hstart hz (p := fun c => c != delim && c != 0) (by simp)
  set stop := start + ((mem.drop start).takeWhile fun c => c != delim && c != 0).length with ht
  obtain ⟨c', hc'⟩ : ∃ c', mem[stop]? = some c' := ⟨_, List.getElem?_eq_getElem (by omega)⟩
  simp only [hc']
  by_cases hc0' : c' = 0
  · rw [if_pos hc0']
    refine ⟨mem, some start, stop, rfl, ⟨n, hstop, hz⟩, ?_, fun q hq => hq⟩
    rintro p ⟨⟩
    exact ⟨n, hstart, hz⟩
  rw [if_neg hc0']
  have hne : stop ≠ n := by
    intro heq
    rw [heq, hz, Option.some.injEq] at hc'
    exact hc0' hc'.symm
  have hset : (mem.set stop 0)[stop]? = some 0 := by
    rw [List.getElem?_set_self (by omega)]
  refine ⟨mem.set stop 0, some start, stop + 1, rfl, ⟨n, by omega, ?_⟩, ?_, ?_⟩
  · rw [List.getElem?_set_ne hne, hz]
  · rintro p ⟨⟩
    exact ⟨stop, by omega, hset⟩
  · rintro q ⟨m, hm, hz'⟩
    by_cases hms : stop = m
    · exact ⟨stop, by omega, hset⟩
    · exact ⟨m, hm, by rw [List.getElem?_set_ne hms, hz']⟩

theorem sign_le {s : List UInt8} {n : ℕ} (hz : s[n]? = some 0) : (sign s).2 ≤ n := by
  rcases s with _ | ⟨c, s⟩
  · simp at hz
  · simp only [sign]
    rcases n with _ | n
    · simp only [List.getElem?_cons_zero, Option.some.injEq] at hz
      simp [hz]
    · split_ifs <;> simp

theorem strtol_le {s : List UInt8} {n : ℕ} (hz : s[n]? = some 0) : (strtol s).2 ≤ n := by
  simp only [strtol]
  have hblank : (s.takeWhile isSpace).length ≤ n := length_takeWhile_le hz (by decide)
  set blank := (s.takeWhile isSpace).length
  have hsign : (sign (s.drop blank)).2 ≤ n - blank := by
    refine sign_le ?_
    rw [List.getElem?_drop, Nat.add_sub_cancel' hblank, hz]
  set sgn := sign (s.drop blank)
  have hdigits := scan_le (show blank + sgn.2 ≤ n by omega) hz (p := isDigit) (by decide)
  by_cases hnil : (s.drop (blank + sgn.2)).takeWhile isDigit = []
  · rw [if_pos hnil]
    exact Nat.zero_le _
  · rw [if_neg hnil]
    exact hdigits

end Aesd.Lib.CString
