import Mathlib.Data.List.Nodup
import Mathlib.Logic.Function.Basic

/-! # Singly-linked lists in memory

Cells are found at addresses, and hold the address of the next one. `Seg c p l q`: from `p` the links run
through the cells `l` and arrive at `q`; a list from a head is a segment that arrives at `none`. A segment
depends on the cells it runs through only (`Seg.congr`), runs through none twice if it ends at `none`
(`Seg.nodup`), and loses a cell when the link before it goes past it (`Seg.unlink`). -/

namespace Aesd.Lib.SList

variable {α : Type*}

structure Cell (α : Type*) where
  val : α
  next : Option ℕ

/-- The memory: `none` where no cell is. -/
abbrev Cells (α : Type*) := ℕ → Option (Cell α)

inductive Seg (c : Cells α) : Option ℕ → List ℕ → Option ℕ → Prop
  | nil (p : Option ℕ) : Seg c p [] p
  | cons {n : ℕ} {cell : Cell α} {l : List ℕ} {q : Option ℕ} (hn : c n = some cell)
      (hl : Seg c cell.next l q) : Seg c (some n) (n :: l) q

namespace Seg

variable {c c' : Cells α} {p q r : Option ℕ} {l l' : List ℕ} {n : ℕ} {cell : Cell α}

theorem nil_inv (h : Seg c p [] q) : p = q := by
  cases h
  rfl

theorem cons_inv (h : Seg c p (n :: l) q) :
    p = some n ∧ ∃ cell, c n = some cell ∧ Seg c cell.next l q := by
  cases h with
  | cons hn hl => exact ⟨rfl, _, hn, hl⟩

theorem append (h : Seg c p l q) (h' : Seg c q l' r) : Seg c p (l ++ l') r := by
  induction h with
  | nil => exact h'
  | cons hn _ ih => exact .cons hn (ih h')

theorem split (h : Seg c p (l ++ l') r) : ∃ q, Seg c p l q ∧ Seg c q l' r := by
  induction l generalizing p with
  | nil => exact ⟨p, .nil p, h⟩
  | cons n l ih =>
    obtain ⟨rfl, cell, hn, hl⟩ := h.cons_inv
    obtain ⟨q, hq, hr⟩ := ih hl
    exact ⟨q, .cons hn hq, hr⟩

/-- **Only the links on the way matter.** -/
theorem congr (h : Seg c p l q) (hc : ∀ n ∈ l, (c' n).map Cell.next = (c n).map Cell.next) :
    Seg c' p l q := by
  induction h with
  | nil => exact .nil _
  | @cons n cell l q hn _ ih =>
    have hlink := hc n List.mem_cons_self
    rw [hn, Option.map_some, Option.map_eq_some_iff] at hlink
    obtain ⟨cell', hn', hnext⟩ := hlink
    exact .cons hn' (hnext ▸ ih fun m hm => hc m (List.mem_cons_of_mem _ hm))

/-- From an address the links run one way. -/
theorem unique (h : Seg c p l none) (h' : Seg c p l' none) : l = l' := by
  induction l generalizing p l' with
  | nil =>
    cases h.nil_inv
    cases h'
    rfl
  | cons n l ih =>
    obtain ⟨rfl, cell, hn, hl⟩ := h.cons_inv
    cases l' with
    | nil => exact absurd h'.nil_inv (by simp)
    | cons m l' =>
      obtain ⟨hm, cell', hn', hl'⟩ := h'.cons_inv
      cases hm
      obtain rfl : cell = cell' := Option.some.inj (hn.symm.trans hn')
      rw [ih hl hl']

theorem nodup (h : Seg c p l none) : l.Nodup := by
  induction l generalizing p with
  | nil => exact List.nodup_nil
  | cons n l ih =>
    obtain ⟨rfl, cell, hn, hl⟩ := h.cons_inv
    refine List.nodup_cons.mpr ⟨fun hmem => ?_, ih hl⟩
    -- the way from the second visit on would be the whole way, and shorter
    obtain ⟨l₁, l₂, rfl⟩ := List.append_of_mem hmem
    obtain ⟨q, -, hq⟩ := hl.split
    obtain ⟨rfl, -⟩ := hq.cons_inv
    have hlen := congrArg List.length (hq.unique h)
    simp only [List.length_cons, List.length_append] at hlen
    omega

/-- **The cell `n` is unlinked**: the cell before it gets the link behind it. -/
theorem unlink {m : ℕ} {cell' : Cell α} (h : Seg c p (l ++ m :: n :: l') none) (hn : c n = some cell)
    (hcell : cell'.next = cell.next) :
    Seg (Function.update c m (some cell')) p (l ++ m :: l') none := by
  have hnd := h.nodup
  obtain ⟨q, hq, hrest⟩ := h.split
  obtain ⟨rfl, _, -, hrest⟩ := hrest.cons_inv
  obtain ⟨-, c₁, hn', hrest⟩ := hrest.cons_inv
  obtain rfl : cell = c₁ := Option.some.inj (hn.symm.trans hn')
  have hout : m ∉ l ∧ m ∉ l' := by
    rw [List.nodup_middle, List.nodup_cons] at hnd
    simp only [List.mem_append, List.mem_cons, not_or] at hnd
    exact ⟨hnd.1.1, hnd.1.2.2⟩
  have hsame : ∀ {k : List ℕ}, m ∉ k →
      ∀ n ∈ k, ((Function.update c m (some cell')) n).map Cell.next = (c n).map Cell.next := by
    intro k hk n hn
    rw [Function.update_of_ne (ne_of_mem_of_not_mem hn hk)]
  refine (hq.congr (hsame hout.1)).append (.cons (Function.update_self _ _ _) ?_)
  rw [hcell]
  exact hrest.congr (hsame hout.2)

end Seg

end Aesd.Lib.SList
