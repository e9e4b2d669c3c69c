import Mathlib.Data.List.Infix

/-! # Pieces of a growing log

`Pieces S ws b`: the lists `ws` are stretches of `S`, in order and without overlap, and all end at `b` or
before. They stay so when the log grows (`Pieces.grow`), and the next piece may leave a gap
(`Pieces.snoc`); together they are `S` with some elements left out (`Pieces.sublist`). -/

namespace Aesd.Lib.Stretches

variable {α : Type*}

inductive Pieces (S : List α) : List (List α) → ℕ → Prop
  | nil (b : ℕ) : Pieces S [] b
  | snoc {ws : List (List α)} {w : List α} {b s b' : ℕ} (h : Pieces S ws b) (hs : b ≤ s)
      (hw : w <+: S.drop s) (hb : s + w.length ≤ b') : Pieces S (ws ++ [w]) b'

variable {S S' : List α} {ws : List (List α)} {w : List α} {b b' s : ℕ}

theorem Pieces.mono (h : Pieces S ws b) (hb : b ≤ b') : Pieces S ws b' := by
  cases h with
  | nil => exact .nil b'
  | snoc h hs hw hle => exact .snoc h hs hw (hle.trans hb)

/-- **The log grows.** -/
theorem Pieces.grow (h : Pieces S ws b) (hS : S <+: S') : Pieces S' ws b := by
  induction h with
  | nil b => exact .nil b
  | snoc _ hs hw hle ih => exact .snoc ih hs (hw.trans (hS.drop _)) hle

/-- **No element twice, and the order kept.** -/
theorem Pieces.sublist (h : Pieces S ws b) : ws.flatten.Sublist (S.take b) := by
  induction h with
  | nil b => exact List.nil_sublist _
  | @snoc ws w b s b' _ hs hw hb ih =>
    rw [List.flatten_append, List.flatten_singleton]
    have hsplit : S.take b' = S.take s ++ (S.drop s).take (b' - s) := by
      rw [← List.take_add]
      congr 1
      omega
    have htake : w <+: (S.drop s).take (b' - s) := by
      rw [List.prefix_take_iff]
      exact ⟨hw, by omega⟩
    rw [hsplit]
    exact (ih.trans (List.take_prefix_take_left hs).sublist).append htake.sublist

end Aesd.Lib.Stretches
