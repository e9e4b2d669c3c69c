import Mathlib.Tactic

/-! # Positions in a concatenation

`locate sizes p` finds the part that position `p` falls into when parts of the given sizes are laid
end to end, and the offset within it. It is inverse to `(k, c) ↦ (sizes.take k).sum + c` on the pairs
with `c < sizes[k]` (`locate_eq_some`), and fails exactly from the total size on
(`locate_eq_none`). `touched` counts the parts that a stretch of positions falls into, and `drop_flatten`
reads a concatenation from a located position on. -/

namespace Aesd.Lib.Concat

/-- The part position `p` falls into, counted from `k`, and the offset within it. -/
def locateFrom : ℕ → List ℕ → ℕ → Option (ℕ × ℕ)
  | _, [], _ => none
  | k, n :: sizes, p => if p < n then some (k, p) else locateFrom (k + 1) sizes (p - n)

/-- The part position `p` falls into, and the offset within it. -/
def locate (sizes : List ℕ) (p : ℕ) : Option (ℕ × ℕ) := locateFrom 0 sizes p

theorem locateFrom_eq_none : ∀ {k : ℕ} {sizes : List ℕ} {p : ℕ},
    locateFrom k sizes p = none ↔ sizes.sum ≤ p
  | k, [], p => by simp [locateFrom]
  | k, n :: sizes, p => by
    rw [locateFrom, List.sum_cons]
    split_ifs with h
    · simp only [false_iff]; omega
    · rw [locateFrom_eq_none]; omega

theorem locateFrom_eq_some : ∀ {k : ℕ} {sizes : List ℕ} {p j c : ℕ},
    locateFrom k sizes p = some (j, c) ↔
      ∃ i n, j = k + i ∧ sizes[i]? = some n ∧ c < n ∧ (sizes.take i).sum + c = p
  | k, [], p, j, c => by simp [locateFrom]
  | k, n :: sizes, p, j, c => by
    rw [locateFrom]
    split_ifs with h
    · simp only [Option.some.injEq, Prod.mk.injEq]
      constructor
      · rintro ⟨rfl, rfl⟩
        exact ⟨0, n, rfl, rfl, h, by simp⟩
      · rintro ⟨i, m, rfl, hm, hc, hp⟩
        rcases i with _ | i
        · simpa using hp.symm
        · simp at hp; omega
    · rw [locateFrom_eq_some]
      constructor
      · rintro ⟨i, m, rfl, hm, hc, hp⟩
        exact ⟨i + 1, m, by omega, by simpa using hm, hc, by simp; omega⟩
      · rintro ⟨i, m, rfl, hm, hc, hp⟩
        rcases i with _ | i
        · simp only [List.getElem?_cons_zero, Option.some.injEq] at hm
          simp at hp; omega
        · exact ⟨i, m, by omega, by simpa using hm, hc, by simp at hp; omega⟩

theorem locate_eq_none {sizes : List ℕ} {p : ℕ} : locate sizes p = none ↔ sizes.sum ≤ p :=
  locateFrom_eq_none

/-- **Lookup and prefix sum are inverse.** -/
theorem locate_eq_some {sizes : List ℕ} {p k c : ℕ} :
    locate sizes p = some (k, c) ↔ ∃ n, sizes[k]? = some n ∧ c < n ∧ (sizes.take k).sum + c = p := by
  rw [locate, locateFrom_eq_some]
  constructor
  · rintro ⟨i, n, rfl, h⟩
    exact ⟨n, by simpa using h⟩
  · rintro ⟨n, h⟩
    exact ⟨k, n, by simpa using h⟩

theorem take_sum_add_lt {sizes : List ℕ} {k c n : ℕ} (hk : sizes[k]? = some n) (hc : c < n) :
    (sizes.take k).sum + c < sizes.sum := by
  by_contra hn
  have h := locate_eq_none.mpr (not_lt.mp hn)
  rw [locate_eq_some.mpr ⟨n, hk, hc, rfl⟩] at h
  cases h

/-- How many parts have an element among the `count` ones from position `p` on. -/
def touched : List ℕ → ℕ → ℕ → ℕ
  | [], _, _ => 0
  | n :: sizes, p, count =>
    (if p < n ∧ 0 < count then 1 else 0) + touched sizes (p - n) (count - (n - p))

@[simp] theorem touched_zero (sizes : List ℕ) (p : ℕ) : touched sizes p 0 = 0 := by
  induction sizes generalizing p with
  | nil => rfl
  | cons n sizes ih => simp [touched, ih]

theorem touched_of_le {sizes : List ℕ} {p : ℕ} (h : sizes.sum ≤ p) (count : ℕ) :
    touched sizes p count = 0 := by
  induction sizes generalizing p count with
  | nil => rfl
  | cons n sizes ih =>
    rw [List.sum_cons] at h
    unfold touched
    rw [if_neg (by omega), ih (by omega)]

/-- **Up to the end of part `k`** one part is touched. -/
theorem touched_of_getElem {sizes : List ℕ} {k c n p : ℕ} (hk : sizes[k]? = some n) (hc : c < n)
    (hp : (sizes.take k).sum + c = p) {count : ℕ} (hcount : 0 < count) :
    touched sizes p count =
      touched sizes (p + min count (n - c)) (count - min count (n - c)) + 1 := by
  induction sizes generalizing k p with
  | nil => simp at hk
  | cons m sizes ih =>
    rcases k with _ | k
    · obtain rfl : m = n := by simpa using hk
      obtain rfl : c = p := by simpa using hp
      unfold touched
      rw [if_pos ⟨hc, hcount⟩, if_neg (by omega)]
      rcases Nat.lt_or_ge count (m - c) with hlt | hge
      · have h0 : count - (m - c) = 0 := by omega
        have h0' : count - min count (m - c) - (m - (c + min count (m - c))) = 0 := by omega
        rw [h0, h0', touched_zero, touched_zero]
      · have hpos : c - m = c + min count (m - c) - m := by omega
        have hcnt : count - (m - c) =
            count - min count (m - c) - (m - (c + min count (m - c))) := by omega
        rw [← hpos, ← hcnt]
        omega
    · rw [List.getElem?_cons_succ] at hk
      rw [List.take_succ_cons, List.sum_cons] at hp
      have hstep := ih (p := p - m) hk (by omega)
      unfold touched
      rw [if_neg (by omega), if_neg (by omega), show m - p = 0 by omega,
        show m - (p + min count (n - c)) = 0 by omega, Nat.sub_zero, Nat.sub_zero, hstep,
        show p - m + min count (n - c) = p + min count (n - c) - m by omega]
      omega

section Flatten
variable {β : Type*}

theorem drop_flatten {parts : List (List β)} {k c : ℕ} {b : List β} (hk : parts[k]? = some b)
    (hc : c ≤ b.length) :
    parts.flatten.drop (((parts.map List.length).take k).sum + c) =
      b.drop c ++ (parts.drop (k + 1)).flatten := by
  have hlt : k < parts.length := (List.getElem?_eq_some_iff.mp hk).1
  have hb : parts.drop k = b :: parts.drop (k + 1) := by
    rw [List.drop_eq_getElem_cons hlt, (List.getElem?_eq_some_iff.mp hk).2]
  have hs : ((parts.map List.length).take k).sum = (parts.take k).flatten.length := by
    rw [List.length_flatten, List.map_take]
  calc parts.flatten.drop (((parts.map List.length).take k).sum + c)
      = ((parts.take k).flatten ++ (parts.drop k).flatten).drop
          ((parts.take k).flatten.length + c) := by
        rw [← List.flatten_append, List.take_append_drop, hs]
    _ = (parts.drop k).flatten.drop c := by rw [List.drop_append]; simp
    _ = b.drop c ++ (parts.drop (k + 1)).flatten := by
        rw [hb, List.flatten_cons, List.drop_append_of_le_length hc]

/-- A stretch of `count` elements, taken in two goes. -/
theorem take_drop_eq_append (l : List β) (p : ℕ) {n count : ℕ} (hn : n ≤ count) :
    (l.drop p).take count = (l.drop p).take n ++ (l.drop (p + n)).take (count - n) := by
  rw [← List.drop_drop, ← List.take_add, Nat.add_sub_cancel' hn]

/-- A list cut into pieces of the given lengths. -/
def pieces : List ℕ → List β → List (List β)
  | [], _ => []
  | n :: sizes, l => l.take n :: pieces sizes (l.drop n)

theorem flatten_pieces (sizes : List ℕ) (l : List β) :
    (pieces sizes l).flatten = l.take sizes.sum := by
  induction sizes generalizing l with
  | nil => simp [pieces]
  | cons n sizes ih => rw [pieces, List.flatten_cons, ih, List.sum_cons, List.take_add]

theorem map_length_pieces {sizes : List ℕ} {l : List β} (h : sizes.sum ≤ l.length) :
    (pieces sizes l).map List.length = sizes := by
  induction sizes generalizing l with
  | nil => rfl
  | cons n sizes ih =>
    rw [List.sum_cons] at h
    rw [pieces, List.map_cons, ih (by rw [List.length_drop]; omega), List.length_take,
      min_eq_left (by omega)]

/-- If nothing is taken after a part that was not taken whole, what is taken is a beginning of the
whole. -/
theorem flatten_prefix {l : List (List β × List β)} (hp : ∀ q ∈ l, q.2 <+: q.1)
    (h : l.Pairwise fun q q' => q.2 ≠ q.1 → q'.2 = []) :
    (l.map Prod.snd).flatten <+: (l.map Prod.fst).flatten := by
  induction l with
  | nil => exact List.nil_prefix
  | cons q l ih =>
    obtain ⟨hfirst, hrest⟩ := List.pairwise_cons.mp h
    rw [List.map_cons, List.map_cons, List.flatten_cons, List.flatten_cons]
    by_cases hq : q.2 = q.1
    · rw [hq, List.prefix_append_right_inj]
      exact ih (fun q' hq' => hp q' (List.mem_cons_of_mem _ hq')) hrest
    · have hnil : (l.map Prod.snd).flatten = [] := by
        rw [List.flatten_eq_nil_iff]
        intro b hb
        obtain ⟨q', hq', rfl⟩ := List.mem_map.mp hb
        exact hfirst q' hq' hq
      rw [hnil, List.append_nil]
      exact (hp q (by simp)).trans (List.prefix_append _ _)

/-- **Parts of parts without a hole.** Of each part of a concatenation of distinct elements a beginning
is taken. What is taken is a beginning of the whole exactly if nothing is taken after a part that was
not taken whole. -/
theorem flatten_prefix_iff {l : List (List β × List β)} (hp : ∀ q ∈ l, q.2 <+: q.1)
    (hnd : (l.map Prod.fst).flatten.Nodup) :
    (l.map Prod.snd).flatten <+: (l.map Prod.fst).flatten ↔
      l.Pairwise fun q q' => q.2 ≠ q.1 → q'.2 = [] := by
  refine ⟨fun h => ?_, flatten_prefix hp⟩
  induction l with
  | nil => exact List.Pairwise.nil
  | cons q l ih =>
    have hp' : ∀ q' ∈ l, q'.2 <+: q'.1 := fun q' hq => hp q' (List.mem_cons_of_mem _ hq)
    rw [List.map_cons, List.flatten_cons, List.nodup_append] at hnd
    obtain ⟨-, hnd', hdisj⟩ := hnd
    obtain ⟨left, hleft⟩ := hp q (by simp)
    rw [List.map_cons, List.map_cons, List.flatten_cons, List.flatten_cons, ← hleft,
      List.append_assoc, List.prefix_append_right_inj] at h
    rcases left with _ | ⟨a, left⟩
    · rw [List.append_nil] at hleft
      exact List.pairwise_cons.mpr ⟨fun q' _ hne => absurd hleft hne, ih hp' hnd' h⟩
    · -- the next element taken would have to be `a`, but it is one of a later part
      have hempty : ∀ q' ∈ l, q'.2 = [] := by
        intro q' hq
        by_contra hq2
        obtain ⟨x, taken, htaken⟩ := List.exists_cons_of_ne_nil
          (show (l.map Prod.snd).flatten ≠ [] from fun hnil =>
            hq2 (List.flatten_eq_nil_iff.mp hnil _ (List.mem_map_of_mem hq)))
        rw [htaken, List.cons_append, List.cons_prefix_cons] at h
        have ha : a ∈ (l.map Prod.snd).flatten := by rw [htaken, h.1]; exact List.mem_cons_self
        obtain ⟨b, hb, hab⟩ := List.mem_flatten.mp ha
        obtain ⟨q'', hq'', rfl⟩ := List.mem_map.mp hb
        exact hdisj a (by rw [← hleft]; simp) a (List.mem_flatten.mpr
          ⟨q''.1, List.mem_map_of_mem hq'', (hp' q'' hq'').subset hab⟩) rfl
      exact List.pairwise_cons.mpr ⟨fun q' hq _ => hempty q' hq,
        List.pairwise_of_forall_mem_list fun _ _ q' hq _ => hempty q' hq⟩

end Flatten

end Aesd.Lib.Concat
