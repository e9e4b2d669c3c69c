import Mathlib.Tactic

/-! # Cutting a stream into terminated blocks

A stream over `α` is read from the left. An element satisfying `p` closes the block it belongs to;
`blocks p l` are the closed blocks of `l`, `rest p l` is the block still open at the end. Both are
read off one left fold, so that appending an element is one step (`cut_concat`), and a consumer that
handles one element at a time is compared with them element by element. -/

namespace Aesd.Lib.Blocks

variable {α : Type*} (p : α → Bool)

/-- One element: it joins the open block and, if it satisfies `p`, closes it. -/
def cutStep (c : List (List α) × List α) (a : α) : List (List α) × List α :=
  if p a then (c.1 ++ [c.2 ++ [a]], []) else (c.1, c.2 ++ [a])

/-- The closed blocks and the open block of a stream. -/
def cut (l : List α) : List (List α) × List α := l.foldl (cutStep p) ([], [])

/-- The closed blocks. -/
def blocks (l : List α) : List (List α) := (cut p l).1

/-- The block still open at the end. -/
def rest (l : List α) : List α := (cut p l).2

@[simp] theorem blocks_nil : blocks p [] = [] := rfl

@[simp] theorem rest_nil : rest p [] = [] := rfl

theorem cut_concat (l : List α) (a : α) : cut p (l ++ [a]) = cutStep p (cut p l) a := by
  simp [cut]

variable {p}

theorem blocks_concat_pos {a : α} (h : p a = true) (l : List α) :
    blocks p (l ++ [a]) = blocks p l ++ [rest p l ++ [a]] := by
  simp [blocks, rest, cut_concat, cutStep, h]

theorem blocks_concat_neg {a : α} (h : p a = false) (l : List α) :
    blocks p (l ++ [a]) = blocks p l := by
  simp [blocks, cut_concat, cutStep, h]

theorem rest_concat_pos {a : α} (h : p a = true) (l : List α) : rest p (l ++ [a]) = [] := by
  simp [rest, cut_concat, cutStep, h]

theorem rest_concat_neg {a : α} (h : p a = false) (l : List α) :
    rest p (l ++ [a]) = rest p l ++ [a] := by
  simp [rest, cut_concat, cutStep, h]

theorem cut_append_neg (l : List α) {m : List α} (h : ∀ a ∈ m, p a = false) :
    blocks p (l ++ m) = blocks p l ∧ rest p (l ++ m) = rest p l ++ m := by
  induction m using List.reverseRecOn with
  | nil => simp
  | append_singleton m a ih =>
    obtain ⟨hm, ha⟩ := List.forall_mem_append.mp h
    have hneg : p a = false := ha a List.mem_cons_self
    obtain ⟨hblocks, hrest⟩ := ih hm
    rw [← List.append_assoc, blocks_concat_neg hneg, rest_concat_neg hneg, hblocks, hrest,
      List.append_assoc]
    exact ⟨rfl, rfl⟩

variable (p)

/-- **Nothing is lost, duplicated or reordered.** -/
theorem flatten_blocks_append_rest (l : List α) : (blocks p l).flatten ++ rest p l = l := by
  induction l using List.reverseRecOn with
  | nil => rfl
  | append_singleton l a ih =>
    cases h : p a with
    | true =>
      rw [blocks_concat_pos h, rest_concat_pos h]
      simp only [List.flatten_append, List.flatten_cons, List.flatten_nil, List.append_nil]
      rw [← List.append_assoc, ih]
    | false =>
      rw [blocks_concat_neg h, rest_concat_neg h, ← List.append_assoc, ih]

/-- A closed block ends at its first element satisfying `p`. -/
theorem blocks_shape (l : List α) :
    (∀ b ∈ blocks p l, ∃ c a, b = c ++ [a] ∧ p a = true ∧ ∀ x ∈ c, p x = false) ∧
      ∀ x ∈ rest p l, p x = false := by
  induction l using List.reverseRecOn with
  | nil => simp
  | append_singleton l a ih =>
    obtain ⟨hb, hr⟩ := ih
    cases h : p a with
    | true =>
      rw [blocks_concat_pos h, rest_concat_pos h]
      refine ⟨fun b hm => ?_, by simp⟩
      rcases List.mem_append.mp hm with hm | hm
      · exact hb b hm
      · exact ⟨rest p l, a, List.mem_singleton.mp hm, h, hr⟩
    | false =>
      rw [blocks_concat_neg h, rest_concat_neg h]
      refine ⟨hb, fun x hx => ?_⟩
      rcases List.mem_append.mp hx with hx | hx
      · exact hr x hx
      · rw [List.mem_singleton.mp hx, h]

/-- What a longer stream adds: the blocks already closed stay, and the block open in between is the
beginning of the next closed block, or of the open one if there is none. -/
theorem blocks_append (l m : List α) :
    ∃ bs, blocks p (l ++ m) = blocks p l ++ bs ∧
      (bs = [] → rest p l <+: rest p (l ++ m)) ∧ ∀ b ∈ bs.head?, rest p l <+: b := by
  induction m using List.reverseRecOn with
  | nil => exact ⟨[], by simp, by simp, by simp⟩
  | append_singleton m a ih =>
    obtain ⟨bs, he, hnil, hhead⟩ := ih
    rw [← List.append_assoc]
    cases h : p a with
    | true =>
      refine ⟨bs ++ [rest p (l ++ m) ++ [a]], ?_, by simp, fun b hb => ?_⟩
      · rw [blocks_concat_pos h, he, List.append_assoc]
      · rcases bs with _ | ⟨b₀, bs⟩
        · simp only [List.nil_append, List.head?_cons, Option.mem_def, Option.some.injEq] at hb
          exact hb ▸ (hnil rfl).trans (List.prefix_append _ _)
        · exact hhead b (by simpa using hb)
    | false =>
      refine ⟨bs, by rw [blocks_concat_neg h, he], fun hb => ?_, hhead⟩
      rw [rest_concat_neg h]
      exact (hnil hb).trans (List.prefix_append _ _)

theorem blocks_mono (l m : List α) : blocks p l <+: blocks p (l ++ m) := by
  obtain ⟨bs, he, -⟩ := blocks_append p l m
  exact ⟨bs, he.symm⟩

/-- The blocks up to the first one longer than `n`, when the open block of a prefix already has
`n` elements and the next one does not fit: exactly those of the prefix. -/
theorem takeWhile_blocks_of_full {n : ℕ} (l : List α) (a : α) (m : List α)
    (hl : ∀ b ∈ blocks p l, b.length ≤ n) (hr : n ≤ (rest p l).length) :
    (blocks p (l ++ a :: m)).takeWhile (fun b => b.length ≤ n) = blocks p l := by
  have hall : ∀ b ∈ blocks p l, (decide (b.length ≤ n)) = true := fun b hb => by simpa using hl b hb
  obtain ⟨bs, he, -, hhead⟩ := blocks_append p (l ++ [a]) m
  rw [List.append_assoc, List.singleton_append] at he
  cases h : p a with
  | true =>
    rw [he, blocks_concat_pos h, List.append_assoc, List.takeWhile_append_of_pos hall]
    simp [List.takeWhile_cons]
    omega
  | false =>
    rw [he, blocks_concat_neg h, List.takeWhile_append_of_pos hall]
    rw [rest_concat_neg h] at hhead
    rcases bs with _ | ⟨b, bs⟩
    · simp
    · have hle := (hhead b (by simp)).length_le
      simp only [List.length_append, List.length_singleton] at hle
      simp [List.takeWhile_cons]
      omega

/-- An element that finds `n` elements in the open block ends up in a block, closed or open, of more
than `n`. -/
theorem exists_long_of_full {n : ℕ} (l : List α) (a : α) (m : List α)
    (hr : n ≤ (rest p l).length) :
    ∃ b ∈ blocks p (l ++ a :: m) ++ [rest p (l ++ a :: m)], n < b.length := by
  obtain ⟨bs, he, hnil, hhead⟩ := blocks_append p (l ++ [a]) m
  rw [List.append_assoc, List.singleton_append] at he hnil
  cases h : p a with
  | true =>
    refine ⟨rest p l ++ [a], ?_, by simp; omega⟩
    rw [he, blocks_concat_pos h]
    simp
  | false =>
    rw [rest_concat_neg h] at hnil hhead
    have hlong : ∀ b : List α, rest p l ++ [a] <+: b → n < b.length := by
      intro b hb
      have hle := hb.length_le
      simp only [List.length_append, List.length_singleton] at hle
      omega
    rcases bs with _ | ⟨b, bs⟩
    · exact ⟨rest p (l ++ a :: m), by simp, hlong _ (hnil rfl)⟩
    · exact ⟨b, by rw [he]; simp, hlong b (hhead b (by simp))⟩

end Aesd.Lib.Blocks
