import Mathlib.Data.List.ReduceOption
import Mathlib.Tactic

/-! # A heap of allocations

A heap maps allocation ids to the bytes of the live allocations; ids are handed out in order and
never again. `malloc`, `realloc`, `free`, `read` and `write` are the C operations: what the allocator
chooses (failure, moving a block, the contents of fresh memory) is an argument, and an operation
that would be undefined behaviour (a free of an id that is not live, an access outside an allocation)
gives `none`. -/

namespace Aesd.Lib.Alloc

variable {β : Type*}

/-- The live allocations; no id from `next` on was handed out yet. -/
structure Heap (β : Type*) where
  next : ℕ
  block : ℕ → Option (List β)
  fresh : ∀ i, next ≤ i → block i = none

/-- What the allocator does with a request: it fails, or it hands out memory whose new part has the
contents `fill`, in the case of `realloc` in place or moved. -/
inductive Outcome (β : Type*) where
  | null
  | ok (moved : Bool) (fill : ℕ → β)

/-- The request succeeds. -/
def Outcome.isOk : Outcome β → Bool
  | .null => false
  | .ok _ _ => true

namespace Heap

/-- The heap with no allocation. -/
def empty : Heap β := ⟨0, fun _ => none, fun _ _ => rfl⟩

/-- A new allocation with the contents `b`. -/
def alloc (h : Heap β) (b : List β) : Heap β where
  next := h.next + 1
  block := Function.update h.block h.next (some b)
  fresh i hi := by rw [Function.update_of_ne (by omega)]; exact h.fresh i (by omega)

/-- The contents of a live allocation become `b`. -/
def put (h : Heap β) (i : ℕ) (b : List β) : Heap β where
  next := h.next
  block := fun j => if j = i then (h.block i).map fun _ => b else h.block j
  fresh j hj := by
    split_ifs with hji
    · rw [← hji, h.fresh j hj]; rfl
    · exact h.fresh j hj

/-- The allocation is given up. -/
def drop (h : Heap β) (i : ℕ) : Heap β where
  next := h.next
  block := Function.update h.block i none
  fresh j hj := by
    by_cases hji : j = i
    · rw [hji, Function.update_self]
    · rw [Function.update_of_ne hji]; exact h.fresh j hj

theorem block_alloc (h : Heap β) (b : List β) (i : ℕ) :
    (h.alloc b).block i = if i = h.next then some b else h.block i := by
  simp [alloc, Function.update_apply]

theorem block_put (h : Heap β) (i j : ℕ) (b : List β) :
    (h.put i b).block j = if j = i then (h.block i).map fun _ => b else h.block j := rfl

theorem block_drop (h : Heap β) (i j : ℕ) :
    (h.drop i).block j = if j = i then none else h.block j := by
  simp [drop, Function.update_apply]

@[simp] theorem next_drop (h : Heap β) (i : ℕ) : (h.drop i).next = h.next := rfl

/-- `malloc(n)`. -/
def malloc (h : Heap β) (n : ℕ) : Outcome β → Option ℕ × Heap β
  | .null => (none, h)
  | .ok _ fill => (some h.next, h.alloc ((List.range n).map fill))

/-- The first `n` elements of a block, continued with fresh memory. -/
def resized (old : List β) (n : ℕ) (fill : ℕ → β) : List β :=
  old.take n ++ (List.range (n - old.length)).map fill

theorem length_resized (old : List β) (n : ℕ) (fill : ℕ → β) :
    (resized old n fill).length = n := by
  simp [resized]; omega

theorem take_resized {old : List β} {k n : ℕ} (hk : k ≤ old.length) (hn : k ≤ n) (fill : ℕ → β) :
    (resized old n fill).take k = old.take k := by
  rw [resized, List.take_append_of_le_length (by simp; omega), List.take_take, min_eq_left hn]

/-- `realloc(i, n)`. -/
def realloc (h : Heap β) (i n : ℕ) : Outcome β → Option (Option ℕ × Heap β)
  | .null => (h.block i).map fun _ => (none, h)
  | .ok false fill => (h.block i).map fun old => (some i, h.put i (resized old n fill))
  | .ok true fill => (h.block i).map fun old =>
      (some h.next, (h.drop i).alloc (resized old n fill))

/-- `free(p)`; freeing the null pointer does nothing. -/
def free (h : Heap β) : Option ℕ → Option (Heap β)
  | none => some h
  | some i => (h.block i).map fun _ => h.drop i

/-- The `n` elements from `off` on. -/
def read (h : Heap β) (i off n : ℕ) : Option (List β) :=
  (h.block i).bind fun b => if off + n ≤ b.length then some ((b.drop off).take n) else none

/-- `src` is copied to offset `off`. -/
def write (h : Heap β) (i off : ℕ) (src : List β) : Option (Heap β) :=
  (h.block i).bind fun b =>
    if off + src.length ≤ b.length then
      some (h.put i (b.take off ++ src ++ b.drop (off + src.length)))
    else none

variable {h : Heap β}

theorem read_eq {i off n : ℕ} {b : List β} (hb : h.block i = some b) (hn : off + n ≤ b.length) :
    h.read i off n = some ((b.drop off).take n) := by
  simp [read, hb, hn]

theorem write_eq {i off : ℕ} {b src : List β} (hb : h.block i = some b)
    (hn : off + src.length ≤ b.length) :
    h.write i off src = some (h.put i (b.take off ++ src ++ b.drop (off + src.length))) := by
  simp [write, hb, hn]

theorem free_eq {i : ℕ} {b : List β} (hb : h.block i = some b) :
    h.free (some i) = some (h.drop i) := by
  simp [free, hb]

/-- **A successful `malloc`**: a new id, the other allocations as they were. -/
theorem malloc_ok (h : Heap β) (n : ℕ) (moved : Bool) (fill : ℕ → β) :
    ∃ p h' b, h.malloc n (.ok moved fill) = (some p, h') ∧ h.block p = none ∧
      h'.block p = some b ∧ b.length = n ∧ ∀ j, j ≠ p → h'.block j = h.block j := by
  refine ⟨h.next, _, (List.range n).map fill, rfl, h.fresh _ le_rfl, ?_, by simp, fun j hj => ?_⟩
  · rw [block_alloc, if_pos rfl]
  · rw [block_alloc, if_neg hj]

/-- **A successful `realloc`**: the block, cut or continued, is found at the old id or at a new one. -/
theorem realloc_resized {i : ℕ} {old : List β} (hb : h.block i = some old) (n : ℕ) (moved : Bool)
    (fill : ℕ → β) :
    ∃ p h', h.realloc i n (.ok moved fill) = some (some p, h') ∧
      (p = i ∨ h.block p = none) ∧ h'.block p = some (resized old n fill) ∧
      ∀ j, j ≠ p → h'.block j = if j = i then none else h.block j := by
  cases moved with
  | false =>
    refine ⟨i, h.put i (resized old n fill), ?_, Or.inl rfl, ?_, fun j hj => ?_⟩
    · simp [realloc, hb]
    · simp [block_put, hb]
    · rw [block_put, if_neg hj, if_neg hj]
  | true =>
    refine ⟨h.next, (h.drop i).alloc (resized old n fill), ?_, Or.inr (h.fresh _ le_rfl), ?_,
      fun j hj => ?_⟩
    · simp [realloc, hb]
    · rw [block_alloc, next_drop, if_pos rfl]
    · rw [block_alloc, next_drop, if_neg hj, block_drop]

/-- The same by what is kept: its first elements. -/
theorem realloc_ok {i : ℕ} {old : List β} (hb : h.block i = some old) (n : ℕ) (moved : Bool)
    (fill : ℕ → β) :
    ∃ p h' b, h.realloc i n (.ok moved fill) = some (some p, h') ∧
      (p = i ∨ h.block p = none) ∧ h'.block p = some b ∧ b.length = n ∧
      (∀ k ≤ old.length, k ≤ n → b.take k = old.take k) ∧
      ∀ j, j ≠ p → h'.block j = if j = i then none else h.block j := by
  obtain ⟨p, h', hr, hp, hb', hframe⟩ := realloc_resized hb n moved fill
  exact ⟨p, h', _, hr, hp, hb', length_resized _ _ _, fun k hk hn => take_resized hk hn fill, hframe⟩

/-- **A write inside an allocation** appends to the bytes before its offset. -/
theorem write_ok {i : ℕ} {b : List β} (hb : h.block i = some b) (off : ℕ) (src : List β)
    (hn : off + src.length ≤ b.length) :
    ∃ h' b', h.write i off src = some h' ∧ h'.block i = some b' ∧ b'.length = b.length ∧
      b'.take (off + src.length) = b.take off ++ src ∧ ∀ j, j ≠ i → h'.block j = h.block j := by
  refine ⟨_, b.take off ++ src ++ b.drop (off + src.length), write_eq hb hn, ?_, ?_, ?_,
    fun j hj => ?_⟩
  · simp [block_put, hb]
  · simp; omega
  · rw [List.take_append_of_le_length (by simp; omega), List.take_of_length_le (by simp)]
  · rw [block_put, if_neg hj]

theorem write_whole {i : ℕ} {b src : List β} (hb : h.block i = some b)
    (hn : src.length = b.length) :
    ∃ h', h.write i 0 src = some h' ∧ h'.block i = some src ∧
      ∀ j, j ≠ i → h'.block j = h.block j := by
  obtain ⟨h', b', hw, hb', hlen, htake, hframe⟩ := write_ok hb 0 src (by omega)
  rw [Nat.zero_add, hn, ← hlen, List.take_length, List.take_zero, List.nil_append] at htake
  exact ⟨h', hw, by rw [hb', htake], hframe⟩

theorem write_one {i k : ℕ} {b : List β} (hb : h.block i = some b) (hk : k < b.length) (a : β) :
    ∃ h', h.write i k [a] = some h' ∧ h'.block i = some (b.set k a) ∧
      ∀ j, j ≠ i → h'.block j = h.block j := by
  refine ⟨_, write_eq hb (by simpa using hk), ?_, fun j hj => ?_⟩
  · rw [block_put, if_pos rfl, hb, Option.map_some, List.set_eq_take_append_cons_drop, if_pos hk]
    simp
  · rw [block_put, if_neg hj]

/-- `free` of one pointer after the other. -/
def freeAll (h : Heap β) : List (Option ℕ) → Option (Heap β)
  | [] => some h
  | p :: ps => (h.free p).bind fun h => freeAll h ps

theorem freeAll_append (h : Heap β) (ps qs : List (Option ℕ)) :
    h.freeAll (ps ++ qs) = (h.freeAll ps).bind fun h => h.freeAll qs := by
  induction ps generalizing h with
  | nil => rfl
  | cons p ps ih =>
    rw [List.cons_append, freeAll, freeAll, Option.bind_assoc]
    exact congrArg _ (funext fun h => ih h)

/-- **Freeing distinct live allocations**: these are gone, the others as they were. -/
theorem freeAll_ok {ps : List (Option ℕ)} {h : Heap β} (hnd : ps.reduceOption.Nodup)
    (hlive : ∀ i ∈ ps.reduceOption, h.block i ≠ none) :
    ∃ h', h.freeAll ps = some h' ∧
      ∀ j, h'.block j = if j ∈ ps.reduceOption then none else h.block j := by
  induction ps generalizing h with
  | nil => exact ⟨h, rfl, fun j => by simp [List.reduceOption]⟩
  | cons p ps ih =>
    rcases p with _ | i
    · rw [List.reduceOption_cons_of_none] at hnd hlive ⊢
      exact ih hnd hlive
    · rw [List.reduceOption_cons_of_some] at hnd hlive ⊢
      obtain ⟨hi, hnd⟩ := List.nodup_cons.mp hnd
      obtain ⟨b, hb⟩ := Option.ne_none_iff_exists'.mp (hlive i List.mem_cons_self)
      have hrest : ∀ j ∈ ps.reduceOption, (h.drop i).block j ≠ none := by
        intro j hj
        have hji : j ≠ i := fun e => hi (e ▸ hj)
        rw [block_drop, if_neg hji]
        exact hlive j (List.mem_cons_of_mem i hj)
      obtain ⟨h', hfree, hframe⟩ := ih hnd hrest
      refine ⟨h', ?_, fun j => ?_⟩
      · unfold freeAll
        rw [free_eq hb]
        exact hfree
      · rw [hframe j, block_drop]
        by_cases hj : j ∈ ps.reduceOption
        · rw [if_pos hj, if_pos (List.mem_cons_of_mem i hj)]
        · by_cases hji : j = i
          · rw [if_neg hj, if_pos hji, if_pos (by simp [hji])]
          · rw [if_neg hj, if_neg hji, if_neg (by simp [hji, hj])]

end Heap

end Aesd.Lib.Alloc
