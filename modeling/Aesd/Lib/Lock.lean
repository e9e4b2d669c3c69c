import Mathlib.Logic.Basic
import Mathlib.Data.Option.Basic

/-! # A lock and the threads inside

`Excl o P` says that the threads at a place of their program where they must hold the lock (`P`) are
the one that holds it (`o`), if any does. A step of one thread keeps the lock, takes it or gives it
back, and the others stay where they are; so the three lemmas below are all that a program with one lock
needs. -/

namespace Aesd.Lib.Lock

variable {τ : Type*} {o : Option τ} {P Q : τ → Prop} {t u : τ}

/-- The threads inside are those that hold the lock. -/
def Excl (o : Option τ) (P : τ → Prop) : Prop := ∀ t, P t ↔ o = some t

theorem Excl.unique (h : Excl o P) (ht : P t) (hu : P u) : t = u :=
  Option.some.inj (((h t).mp ht).symm.trans ((h u).mp hu))

theorem Excl.outside (h : Excl none P) (t : τ) : ¬ P t := by
  intro ht
  cases (h t).mp ht

/-- A step of `u` from inside to inside, or from outside to outside. -/
theorem Excl.keep (h : Excl o P) (hf : ∀ t, t ≠ u → (Q t ↔ P t)) (hu : Q u ↔ P u) : Excl o Q := by
  intro t
  by_cases htu : t = u
  · rw [htu, hu, h u]
  · rw [hf t htu, h t]

theorem Excl.take (h : Excl none P) (hf : ∀ t, t ≠ u → (Q t ↔ P t)) (hu : Q u) :
    Excl (some u) Q := by
  intro t
  by_cases htu : t = u
  · simp [htu, hu]
  · rw [hf t htu, Option.some.injEq]
    exact ⟨fun ht => absurd ht (h.outside t), fun ht => absurd ht.symm htu⟩

theorem Excl.give (h : Excl o P) (hf : ∀ t, t ≠ u → (Q t ↔ P t)) (hp : P u) (hu : ¬ Q u) :
    Excl none Q := by
  intro t
  refine ⟨fun ht => ?_, fun ht => by cases ht⟩
  by_cases htu : t = u
  · exact absurd (htu ▸ ht) hu
  · exact absurd (h.unique ((hf t htu).mp ht) hp) htu

end Aesd.Lib.Lock
