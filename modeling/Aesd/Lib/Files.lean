import Mathlib.Tactic

/-! # A file and a position in it

An open file is its content and a position. `read` moves the position past what it delivers, so what
comes before the position grows by it (`before_read`); `write` puts its bytes at the position, which
appends them if the position is the end of the file (`file_write`). -/

namespace Aesd.Lib.Files

structure OpenFile (α : Type*) where
  file : List α
  pos : ℕ

namespace OpenFile

variable {α : Type*}

/-- A new file. -/
def empty : OpenFile α := ⟨[], 0⟩

/-- The position is the end of the file. -/
def AtEnd (s : OpenFile α) : Prop := s.pos = s.file.length

/-- The part of the file before the position. -/
def before (s : OpenFile α) : List α := s.file.take s.pos

/-- Write at the position; a gap behind the end is filled. -/
def write (fill : α) (s : OpenFile α) (bs : List α) : OpenFile α where
  file := s.file.take s.pos ++ List.replicate (s.pos - s.file.length) fill ++ bs ++
    s.file.drop (s.pos + bs.length)
  pos := s.pos + bs.length

/-- Seek to an offset from the start. -/
def seekSet (s : OpenFile α) (offset : ℕ) : OpenFile α := { s with pos := offset }

/-- Seek to the end. -/
def seekEnd (s : OpenFile α) : OpenFile α := { s with pos := s.file.length }

/-- How many elements are left behind the position. -/
def left (s : OpenFile α) : ℕ := s.file.length - s.pos

/-- Read `n` elements, or as many as are left. -/
def read (s : OpenFile α) (n : ℕ) : List α × OpenFile α :=
  ((s.file.drop s.pos).take n, { s with pos := s.pos + min n s.left })

section
variable {s : OpenFile α}

theorem atEnd_empty : (empty : OpenFile α).AtEnd := rfl

theorem atEnd_seekEnd (s : OpenFile α) : s.seekEnd.AtEnd := rfl

theorem before_seekSet_zero (s : OpenFile α) : (s.seekSet 0).before = [] := rfl

theorem AtEnd.before_eq (h : s.AtEnd) : s.before = s.file := by
  unfold before
  rw [h, List.take_length]

theorem AtEnd.le (h : s.AtEnd) : s.pos ≤ s.file.length := Nat.le_of_eq h

theorem atEnd_of_left (hle : s.pos ≤ s.file.length) (h : s.left = 0) : s.AtEnd := by
  unfold left at h
  unfold AtEnd
  omega

theorem file_write (h : s.AtEnd) (fill : α) (bs : List α) : (s.write fill bs).file = s.file ++ bs := by
  have hpos : s.pos = s.file.length := h
  have hdrop : s.file.drop (s.file.length + bs.length) = [] := List.drop_of_length_le (by omega)
  simp [write, hpos, hdrop]

theorem atEnd_write (h : s.AtEnd) (fill : α) (bs : List α) : (s.write fill bs).AtEnd := by
  have hpos : s.pos = s.file.length := h
  show s.pos + bs.length = _
  rw [file_write h, List.length_append, hpos]

theorem pos_read_le (h : s.pos ≤ s.file.length) (n : ℕ) :
    (s.read n).2.pos ≤ (s.read n).2.file.length := by
  show s.pos + min n (s.file.length - s.pos) ≤ s.file.length
  omega

/-- **What is read comes next.** -/
theorem before_read (s : OpenFile α) (n : ℕ) : (s.read n).2.before = s.before ++ (s.read n).1 := by
  show s.file.take (s.pos + min n s.left) = s.file.take s.pos ++ (s.file.drop s.pos).take n
  rw [List.take_add, left, ← List.length_drop, ← List.take_eq_take_min]

end

end OpenFile

end Aesd.Lib.Files
