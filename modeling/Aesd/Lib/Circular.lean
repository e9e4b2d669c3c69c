import Mathlib.Tactic
import Mathlib.Data.List.DropRight

/-! # Windows of a circular array

`Window slots out l`: reading the array `slots` circularly from index `out` gives `l`. A window that
does not fill the array grows at its end (`Window.push`); one that does is advanced by one, the
element written over its oldest (`Window.rotate`). In both cases the window holds the last elements
of the sequence pushed so far (`rtake_concat`). -/

namespace Aesd.Lib.Circular

variable {α : Type*}

/-! ### The last elements of a list -/

theorem rtake_of_length_le {l : List α} {n : ℕ} (h : l.length ≤ n) : l.rtake n = l := by
  simp [List.rtake, Nat.sub_eq_zero_of_le h]

theorem length_rtake (l : List α) (n : ℕ) : (l.rtake n).length = min n l.length := by
  simp only [List.rtake, List.length_drop]; omega

theorem rtake_append_drop (l : List α) (n : ℕ) : l.take (l.length - n) ++ l.rtake n = l :=
  List.take_append_drop _ _

theorem getElem?_rtake (l : List α) (n i : ℕ) : (l.rtake n)[i]? = l[l.length - n + i]? := by
  simp [List.rtake]

theorem mem_of_mem_rtake {l : List α} {n : ℕ} {a : α} (h : a ∈ l.rtake n) : a ∈ l :=
  List.mem_of_mem_drop h

theorem map_rtake {β : Type*} (f : α → β) (l : List α) (n : ℕ) :
    (l.rtake n).map f = (l.map f).rtake n := by
  simp [List.rtake]

theorem rtake_concat (l : List α) (n : ℕ) (a : α) :
    (l.rtake n ++ [a]).rtake n = (l ++ [a]).rtake n := by
  simp only [List.rtake, List.length_append, List.length_drop, List.length_singleton]
  rw [List.drop_append, List.drop_append, List.drop_drop, List.length_drop]
  congr 2 <;> omega

/-! ### Windows -/

/-- Reading `slots` circularly from `out` gives `l`. -/
structure Window (slots : List α) (out : ℕ) (l : List α) : Prop where
  fits : l.length ≤ slots.length
  get : ∀ i < l.length, slots[(out + i) % slots.length]? = l[i]?

theorem slot_ne {n out i j : ℕ} (hi : i < n) (hj : j < n) (hij : i ≠ j) :
    (out + i) % n ≠ (out + j) % n := by
  intro h
  have := (Nat.ModEq.add_left_cancel' out h : i ≡ j [MOD n])
  rw [Nat.ModEq, Nat.mod_eq_of_lt hi, Nat.mod_eq_of_lt hj] at this
  exact hij this

theorem Window.nil (slots : List α) (out : ℕ) : Window slots out [] := ⟨by simp, by simp⟩

/-- A window with a free slot grows at its end. -/
theorem Window.push {slots l : List α} {out : ℕ} (h : Window slots out l)
    (hl : l.length < slots.length) (a : α) :
    Window (slots.set ((out + l.length) % slots.length) a) out (l ++ [a]) := by
  have hlt : (out + l.length) % slots.length < slots.length := Nat.mod_lt _ (by omega)
  refine ⟨by simpa using hl, fun i hi => ?_⟩
  rw [List.length_set]
  rcases Nat.lt_or_ge i l.length with hil | hil
  · rw [List.getElem?_set_ne (slot_ne hl (by omega) (by omega)), h.get i hil,
      List.getElem?_append_left hil]
  · have hil' : i = l.length := by simp at hi; omega
    subst hil'
    rw [List.getElem?_set_self hlt, List.getElem?_append_right (Nat.le_refl _)]
    simp

/-- Writing over the oldest slot of a full window advances it by one. -/
theorem Window.rotate {slots l : List α} {out : ℕ} (h : Window slots out l)
    (hl : l.length = slots.length) (h0 : 0 < slots.length) (a : α) :
    Window (slots.set (out % slots.length) a) (out + 1) (l.tail ++ [a]) := by
  have hlt : out % slots.length < slots.length := Nat.mod_lt _ h0
  refine ⟨by simp; omega, fun i hi => ?_⟩
  simp only [List.length_append, List.length_tail, List.length_singleton] at hi
  rw [List.length_set]
  rcases Nat.lt_or_ge (i + 1) l.length with hil | hil
  · rw [show out + 1 + i = out + (i + 1) by omega,
      List.getElem?_set_ne (by simpa using @slot_ne _ out 0 _ h0 (by omega) (by omega)),
      h.get (i + 1) hil, List.getElem?_append_left (by simp; omega), List.getElem?_tail]
  · have hil' : i = l.length - 1 := by omega
    rw [show out + 1 + i = out + slots.length by omega, Nat.add_mod_right,
      List.getElem?_set_self hlt, List.getElem?_append_right (by simp; omega)]
    simp [hil']

/-- The start of a window only matters modulo the length of the array. -/
theorem Window.mod {slots l : List α} {out : ℕ} :
    Window slots (out % slots.length) l ↔ Window slots out l := by
  constructor <;> rintro ⟨h, hg⟩ <;> refine ⟨h, fun i hi => ?_⟩
  · rw [← hg i hi, Nat.mod_add_mod]
  · rw [← hg i hi, Nat.mod_add_mod]

end Aesd.Lib.Circular
