import Aesd.Lib.Lock
import Mathlib.Data.Finset.Basic

/-! # A lock for readers and writers

A reader-writer lock is held by one writer, or by any number of readers. `Guards l R W` says that the
threads at a place of their program where they must hold it for reading (`R`) or for writing (`W`) are
those that do. As for a lock of one owner, a step of one thread keeps the lock, takes it or gives it
back; readers and writers exclude each other (`Guards.apart`). -/

namespace Aesd.Lib.SharedLock

open Aesd.Lib.Lock

variable {τ : Type*}

structure RwLock (τ : Type*) where
  writer : Option τ
  readers : Finset τ

namespace RwLock

def free : RwLock τ := ⟨none, ∅⟩

variable [DecidableEq τ]

/-- Taken for reading by `t`, unless a writer holds it. -/
def downRead (l : RwLock τ) (t : τ) : Option (RwLock τ) :=
  if l.writer = none then some { l with readers := insert t l.readers } else none

def upRead (l : RwLock τ) (t : τ) : RwLock τ := { l with readers := l.readers.erase t }

/-- Taken for writing by `t`, unless anyone holds it. -/
def downWrite (l : RwLock τ) (t : τ) : Option (RwLock τ) :=
  if l.writer = none ∧ l.readers = ∅ then some { l with writer := some t } else none

def upWrite (l : RwLock τ) : RwLock τ := { l with writer := none }

end RwLock

/-- The threads at a place for readers, and at one for writers, are those that hold the lock so. -/
structure Guards (l : RwLock τ) (R W : τ → Prop) : Prop where
  writer : Excl l.writer W
  reader : ∀ t, R t ↔ t ∈ l.readers
  alone : l.writer ≠ none → l.readers = ∅

variable {l l' : RwLock τ} {R R' W W' : τ → Prop} {t u : τ}

theorem Guards.of_free (hR : ∀ t, ¬ R t) (hW : ∀ t, ¬ W t) : Guards RwLock.free R W where
  writer t := ⟨fun h => absurd h (hW t), fun h => by cases h⟩
  reader t := ⟨fun h => absurd h (hR t), fun h => absurd h (Finset.notMem_empty t)⟩
  alone h := absurd rfl h

theorem Guards.eq_free (h : Guards l R W) (hR : ∀ t, ¬ R t) (hW : ∀ t, ¬ W t) : l = RwLock.free := by
  have hw : l.writer = none := by
    by_contra hne
    obtain ⟨t, ht⟩ := Option.ne_none_iff_exists'.mp hne
    exact hW t ((h.writer t).mpr ht)
  have hr : l.readers = ∅ := Finset.eq_empty_of_forall_notMem fun t ht => hR t ((h.reader t).mpr ht)
  rcases l with ⟨writer, readers⟩
  rw [RwLock.free, ← hw, ← hr]

/-- **No reader beside a writer.** -/
theorem Guards.apart (h : Guards l R W) (hw : W t) (u : τ) : ¬ R u := by
  have hne : l.writer ≠ none := by rw [(h.writer t).mp hw]; simp
  rw [h.reader u, h.alone hne]
  exact Finset.notMem_empty u

theorem Guards.no_writer (h : Guards l R W) (hr : R u) : l.writer = none := by
  by_contra hne
  obtain ⟨t, ht⟩ := Option.ne_none_iff_exists'.mp hne
  exact h.apart ((h.writer t).mpr ht) u hr

/-- A step of `u` that takes and gives nothing. -/
theorem Guards.keep (h : Guards l R W) (hfR : ∀ t, t ≠ u → (R' t ↔ R t)) (hR : R' u ↔ R u)
    (hfW : ∀ t, t ≠ u → (W' t ↔ W t)) (hW : W' u ↔ W u) : Guards l R' W' where
  writer := h.writer.keep hfW hW
  reader t := by
    by_cases htu : t = u
    · rw [htu, hR, h.reader u]
    · rw [hfR t htu, h.reader t]
  alone := h.alone

variable [DecidableEq τ]

theorem Guards.downRead (h : Guards l R W) (hl : l.downRead u = some l')
    (hfR : ∀ t, t ≠ u → (R' t ↔ R t)) (hR : R' u) (hfW : ∀ t, t ≠ u → (W' t ↔ W t))
    (hW : W' u ↔ W u) : Guards l' R' W' := by
  unfold RwLock.downRead at hl
  split_ifs at hl with hfree
  rw [← Option.some.inj hl]
  refine ⟨h.writer.keep hfW hW, fun t => ?_, fun hne => absurd hfree hne⟩
  rw [Finset.mem_insert]
  by_cases htu : t = u
  · simp [htu, hR]
  · rw [hfR t htu, h.reader t]
    simp [htu]

theorem Guards.upRead (h : Guards l R W) (hfR : ∀ t, t ≠ u → (R' t ↔ R t)) (hr : R u)
    (hR : ¬ R' u) (hfW : ∀ t, t ≠ u → (W' t ↔ W t)) (hW : W' u ↔ W u) :
    Guards (l.upRead u) R' W' := by
  refine ⟨h.writer.keep hfW hW, fun t => ?_, fun hne => absurd (h.no_writer hr) hne⟩
  show R' t ↔ t ∈ l.readers.erase u
  rw [Finset.mem_erase]
  by_cases htu : t = u
  · simp [htu, hR]
  · rw [hfR t htu, h.reader t]
    simp [htu]

theorem Guards.downWrite (h : Guards l R W) (hl : l.downWrite u = some l')
    (hfR : ∀ t, t ≠ u → (R' t ↔ R t)) (hR : R' u ↔ R u) (hfW : ∀ t, t ≠ u → (W' t ↔ W t))
    (hW : W' u) : Guards l' R' W' := by
  unfold RwLock.downWrite at hl
  split_ifs at hl with hfree
  rw [← Option.some.inj hl]
  have hnone : Excl none W := hfree.1 ▸ h.writer
  refine ⟨hnone.take hfW hW, fun t => ?_, fun _ => hfree.2⟩
  by_cases htu : t = u
  · rw [htu, hR, h.reader u]
  · rw [hfR t htu, h.reader t]

theorem Guards.upWrite (h : Guards l R W) (hfR : ∀ t, t ≠ u → (R' t ↔ R t)) (hR : R' u ↔ R u)
    (hfW : ∀ t, t ≠ u → (W' t ↔ W t)) (hw : W u) (hW : ¬ W' u) : Guards l.upWrite R' W' := by
  refine ⟨h.writer.give hfW hw hW, fun t => ?_, fun hne => absurd rfl hne⟩
  show R' t ↔ t ∈ l.readers
  by_cases htu : t = u
  · rw [htu, hR, h.reader u]
  · rw [hfR t htu, h.reader t]

end Aesd.Lib.SharedLock
