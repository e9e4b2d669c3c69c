import Mathlib.Tactic

/-! # Handles and their owners

A system makes objects, gives out a handle for each, and may give a handle out again once it is
closed. `Counted` says what the table of open handles and the counts of the closes have to do with each
other. `Owned` says that each open handle has one owner, and that the owners hold open handles only:
whoever closes what it holds then closes an open handle, so no object is closed twice, and an object that
is not closed has an owner. -/

namespace Aesd.Lib.Handles

/-- The object each open handle stands for, the number of the next one, and how often each was
closed. -/
structure Table (α : Type*) where
  object : α → Option ℕ
  next : ℕ
  closes : ℕ → ℕ

variable {α κ : Type*} [DecidableEq α] {t : Table α} {a : α} {m : ℕ} {k : κ}
  {holds holds' : κ → Option α}

/-- A new object is given the handle `a`. -/
def Table.give (t : Table α) (a : α) : Table α :=
  { t with object := Function.update t.object a (some t.next), next := t.next + 1 }

/-- The handle `a`, which stands for the object `m`, is closed. -/
def Table.close (t : Table α) (a : α) (m : ℕ) : Table α :=
  { t with
    object := Function.update t.object a none
    closes := Function.update t.closes m (t.closes m + 1) }

/-- The table without handles. -/
def Table.empty : Table α := ⟨fun _ => none, 0, fun _ => 0⟩

omit [DecidableEq α] in
/-- No two handles stand for one object, and what has no handle any more was closed once. -/
structure Counted (t : Table α) : Prop where
  inj : ∀ {a b m}, t.object a = some m → t.object b = some m → a = b
  lt_next : ∀ {a m}, t.object a = some m → m < t.next
  fresh : ∀ m, t.next ≤ m → t.closes m = 0
  opened : ∀ {a m}, t.object a = some m → t.closes m = 0
  closed : ∀ m, m < t.next → (∀ a, t.object a ≠ some m) → t.closes m = 1

/-- Each open handle has one owner. -/
structure Owned (t : Table α) (holds : κ → Option α) : Prop where
  live : ∀ {k a}, holds k = some a → ∃ m, t.object a = some m
  owner : ∀ {a m}, t.object a = some m → ∃ k, holds k = some a
  unique : ∀ {j k a}, holds j = some a → holds k = some a → j = k

omit [DecidableEq α] in
theorem Counted.closes_le_one (h : Counted t) (m : ℕ) : t.closes m ≤ 1 := by
  rcases lt_or_ge m t.next with hm | hm
  · by_cases ho : ∃ a, t.object a = some m
    · obtain ⟨a, ha⟩ := ho
      rw [h.opened ha]
      omega
    · exact (h.closed m hm (not_exists.mp ho)).le
  · rw [h.fresh m hm]
    omega

omit [DecidableEq α] in
theorem Counted.empty : Counted (Table.empty : Table α) := by
  constructor <;> simp [Table.empty]

theorem Counted.give (h : Counted t) (ha : t.object a = none) : Counted (t.give a) := by
  have hnew : ∀ b m, (t.give a).object b = some m → b = a ∧ m = t.next ∨ t.object b = some m := by
    intro b m hb
    by_cases hba : b = a
    · exact Or.inl ⟨hba, by simpa [Table.give, hba, eq_comm] using hb⟩
    · exact Or.inr (by simpa [Table.give, hba] using hb)
  constructor
  · intro b c m hb hc
    rcases hnew b m hb with ⟨rfl, rfl⟩ | hb' <;> rcases hnew c _ hc with ⟨rfl, hm⟩ | hc'
    · rfl
    · exact absurd (h.lt_next hc') (lt_irrefl _)
    · exact absurd (h.lt_next hb') (hm ▸ lt_irrefl _)
    · exact h.inj hb' hc'
  · intro b m hb
    show m < t.next + 1
    rcases hnew b m hb with ⟨-, rfl⟩ | hb'
    · omega
    · have := h.lt_next hb'
      omega
  · intro m hm
    exact h.fresh m (Nat.le_of_succ_le hm)
  · intro b m hb
    rcases hnew b m hb with ⟨-, rfl⟩ | hb'
    · exact h.fresh _ le_rfl
    · exact h.opened hb'
  · intro m hm hn
    have hne : m ≠ t.next := by
      rintro rfl
      exact hn a (by simp [Table.give])
    refine h.closed m (by have : m < t.next + 1 := hm; omega) fun b hb => hn b ?_
    have hba : b ≠ a := by
      rintro rfl
      rw [ha] at hb
      cases hb
    simpa [Table.give, hba] using hb

theorem Counted.close (h : Counted t) (ha : t.object a = some m) : Counted (t.close a m) := by
  have hold : ∀ b n, (t.close a m).object b = some n → t.object b = some n ∧ n ≠ m := by
    intro b n hb
    by_cases hba : b = a
    · simp [Table.close, hba] at hb
    · have hb' : t.object b = some n := by simpa [Table.close, hba] using hb
      exact ⟨hb', fun hnm => hba (h.inj hb' (hnm ▸ ha))⟩
  have hcount : ∀ n, n ≠ m → (t.close a m).closes n = t.closes n := by
    intro n hn
    simp [Table.close, hn]
  constructor
  · intro b c n hb hc
    exact h.inj (hold b n hb).1 (hold c n hc).1
  · intro b n hb
    exact h.lt_next (hold b n hb).1
  · intro n hn
    have hnm : n ≠ m := fun e => absurd (h.lt_next ha) (by have : t.next ≤ n := hn; omega)
    rw [hcount n hnm]
    exact h.fresh n hn
  · intro b n hb
    rw [hcount n (hold b n hb).2]
    exact h.opened (hold b n hb).1
  · intro n hn hnone
    by_cases hnm : n = m
    · simp [Table.close, hnm, h.opened ha]
    · rw [hcount n hnm]
      refine h.closed n hn fun b hb => hnone b ?_
      have hba : b ≠ a := by
        rintro rfl
        exact hnm (Option.some.inj (hb.symm.trans ha))
      simpa [Table.close, hba] using hb

omit [DecidableEq α] in
/-- An owner that lost nothing and gained nothing. -/
theorem Owned.congr (h : Owned t holds) (he : ∀ k, holds' k = holds k) : Owned t holds' := by
  have : holds' = holds := funext he
  exact this ▸ h

omit [DecidableEq α] in
theorem Owned.empty (hn : ∀ k, holds k = none) : Owned (Table.empty : Table α) holds := by
  constructor
  · intro k a hk
    rw [hn k] at hk
    cases hk
  · intro a m ha
    cases ha
  · intro j k a hj
    rw [hn j] at hj
    cases hj

/-- A new handle is given to `k`, who held none. -/
theorem Owned.give (h : Owned t holds) (ha : t.object a = none) (hk : holds k = none)
    (hk' : holds' k = some a) (hf : ∀ j, j ≠ k → holds' j = holds j) : Owned (t.give a) holds' := by
  have hne : ∀ {j b}, j ≠ k → holds' j = some b → holds j = some b ∧ b ≠ a := by
    intro j b hj hb
    rw [hf j hj] at hb
    refine ⟨hb, ?_⟩
    rintro rfl
    obtain ⟨m, hm⟩ := h.live hb
    rw [ha] at hm
    cases hm
  constructor
  · intro j b hb
    by_cases hba : b = a
    · exact ⟨t.next, by simp [Table.give, hba]⟩
    · have hj : j ≠ k := by
        rintro rfl
        exact hba (Option.some.inj (hb.symm.trans hk'))
      obtain ⟨m, hm⟩ := h.live (hne hj hb).1
      exact ⟨m, by simpa [Table.give, hba] using hm⟩
  · intro b m hb
    by_cases hba : b = a
    · exact ⟨k, hba ▸ hk'⟩
    · obtain ⟨j, hj⟩ := h.owner (a := b) (m := m) (by simpa [Table.give, hba] using hb)
      have hjk : j ≠ k := by
        rintro rfl
        rw [hk] at hj
        cases hj
      exact ⟨j, by rw [hf j hjk, hj]⟩
  · intro i j b hi hj
    by_cases hik : i = k <;> by_cases hjk : j = k
    · rw [hik, hjk]
    · have hb : b = a := Option.some.inj ((hik ▸ hi).symm.trans hk')
      exact absurd hb (hne hjk hj).2
    · have hb : b = a := Option.some.inj ((hjk ▸ hj).symm.trans hk')
      exact absurd hb (hne hik hi).2
    · exact h.unique (hne hik hi).1 (hne hjk hj).1

theorem Owned.close (h : Owned t holds) (hk : holds k = some a) (hk' : holds' k = none)
    (hf : ∀ j, j ≠ k → holds' j = holds j) : Owned (t.close a m) holds' := by
  have hne : ∀ {j b}, holds' j = some b → j ≠ k ∧ holds j = some b ∧ b ≠ a := by
    intro j b hb
    have hj : j ≠ k := by
      rintro rfl
      rw [hk'] at hb
      cases hb
    have hb' := hf j hj ▸ hb
    exact ⟨hj, hb', fun hba => hj (h.unique hb' (hba ▸ hk))⟩
  constructor
  · intro j b hb
    obtain ⟨-, hb', hba⟩ := hne hb
    obtain ⟨n, hn⟩ := h.live hb'
    exact ⟨n, by simpa [Table.close, hba] using hn⟩
  · intro b n hb
    have hba : b ≠ a := by
      rintro rfl
      simp [Table.close] at hb
    obtain ⟨j, hj⟩ := h.owner (a := b) (m := n) (by simpa [Table.close, hba] using hb)
    have hjk : j ≠ k := by
      rintro rfl
      exact hba (Option.some.inj (hj.symm.trans hk))
    exact ⟨j, by rw [hf j hjk, hj]⟩
  · intro i j b hi hj
    exact h.unique (hne hi).2.1 (hne hj).2.1

omit [DecidableEq α] in
/-- `k` hands its handle over to `l`. -/
theorem Owned.move {l : κ} (h : Owned t holds) (hk : holds k = some a) (hl : holds l = none)
    (hk' : holds' k = none) (hl' : holds' l = some a)
    (hf : ∀ j, j ≠ k → j ≠ l → holds' j = holds j) : Owned t holds' := by
  have hne : ∀ {j b}, j ≠ l → holds' j = some b → j ≠ k ∧ holds j = some b := by
    intro j b hj hb
    have hjk : j ≠ k := by
      rintro rfl
      rw [hk'] at hb
      cases hb
    exact ⟨hjk, hf j hjk hj ▸ hb⟩
  have hother : ∀ {j b}, j ≠ l → holds' j = some b → b ≠ a := by
    intro j b hj hb hba
    obtain ⟨hjk, hb'⟩ := hne hj hb
    exact hjk (h.unique hb' (hba ▸ hk))
  constructor
  · intro j b hb
    by_cases hj : j = l
    · have hba : b = a := Option.some.inj ((hj ▸ hb).symm.trans hl')
      exact hba ▸ h.live hk
    · exact h.live (hne hj hb).2
  · intro b n hb
    by_cases hba : b = a
    · exact ⟨l, hba ▸ hl'⟩
    · obtain ⟨j, hj⟩ := h.owner hb
      have hjk : j ≠ k := by
        rintro rfl
        exact hba (Option.some.inj (hj.symm.trans hk))
      have hjl : j ≠ l := by
        rintro rfl
        rw [hl] at hj
        cases hj
      exact ⟨j, by rw [hf j hjk hjl, hj]⟩
  · intro i j b hi hj
    by_cases hil : i = l <;> by_cases hjl : j = l
    · rw [hil, hjl]
    · exact absurd (Option.some.inj ((hil ▸ hi).symm.trans hl')) (hother hjl hj)
    · exact absurd (Option.some.inj ((hjl ▸ hj).symm.trans hl')) (hother hil hi)
    · exact h.unique (hne hil hi).2 (hne hjl hj).2

end Aesd.Lib.Handles
