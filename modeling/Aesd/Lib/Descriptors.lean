import Mathlib.Data.Nat.Nth
import Mathlib.Tactic

/-! # File descriptors

The table of a process says which file each number stands for. A call that opens a file gives it the
lowest number that is free, so files opened one after the other get the free numbers in order
(`nth_free_give`); `dup2` makes a number stand for the file of another one, and closes what it stood for.

`Beside` is how the table of a process and the one it inherited are related: the numbers it inherited are in
place, and what else is open is its own (`Beside.file_cases`). -/

namespace Aesd.Lib.Descriptors

/-- The files of the numbers; from `size` on none is in use. -/
structure FdTable (φ : Type*) where
  file : ℕ → Option φ
  size : ℕ
  closed : ∀ n, size ≤ n → file n = none

namespace FdTable

variable {φ ψ : Type*}

def empty : FdTable φ := ⟨fun _ => none, 0, fun _ _ => rfl⟩

/-- The number `n` stands for `f`. -/
def set (t : FdTable φ) (n : ℕ) (f : Option φ) : FdTable φ where
  file := Function.update t.file n f
  size := max t.size (n + 1)
  closed m hm := by
    rw [Function.update_of_ne (by omega)]
    exact t.closed m (by omega)

def map (g : φ → ψ) (t : FdTable φ) : FdTable ψ where
  file n := (t.file n).map g
  size := t.size
  closed n hn := by rw [t.closed n hn]; rfl

/-- The lowest number that is free. -/
def lowest (t : FdTable φ) : ℕ := ((List.range t.size).find? fun n => (t.file n).isNone).getD t.size

/-- A file is opened: its number, and the table. -/
def give (t : FdTable φ) (f : φ) : ℕ × FdTable φ := (t.lowest, t.set t.lowest (some f))

/-- `close`, which does nothing to a number that is not in use. -/
def close (t : FdTable φ) : ℤ → FdTable φ
  | .ofNat n => t.set n none
  | .negSucc _ => t

/-- What a descriptor stands for. -/
def fileAt (t : FdTable φ) : ℤ → Option φ
  | .ofNat n => t.file n
  | .negSucc _ => none

/-- `dup2`; `none` is the failure on a descriptor that is not in use. -/
def dup2 (t : FdTable φ) (old : ℤ) (new : ℕ) : Option (FdTable φ) :=
  (t.fileAt old).map fun f => t.set new (some f)

variable {t t' : FdTable φ} {n m : ℕ} {f : Option φ}

@[simp] theorem file_set (t : FdTable φ) (n m : ℕ) (f : Option φ) :
    (t.set n f).file m = if m = n then f else t.file m := by
  by_cases h : m = n
  · rw [if_pos h, h]
    exact Function.update_self _ _ _
  · rw [if_neg h]
    exact Function.update_of_ne h _ _

@[simp] theorem file_map (g : φ → ψ) (t : FdTable φ) (n : ℕ) :
    (t.map g).file n = (t.file n).map g := rfl

@[simp] theorem file_close (t : FdTable φ) (n m : ℕ) :
    (t.close n).file m = if m = n then none else t.file m := file_set t n m none

@[simp] theorem fileAt_natCast (t : FdTable φ) (n : ℕ) : t.fileAt n = t.file n := rfl

theorem dup2_getD {a : φ} (h : t.file n = some a) (m : ℕ) : (t.dup2 n m).getD t = t.set m (some a) := by
  simp [dup2, h]

theorem lowest_spec (t : FdTable φ) :
    t.file t.lowest = none ∧ ∀ n < t.lowest, t.file n ≠ none := by
  unfold lowest
  rcases hf : (List.range t.size).find? fun n => (t.file n).isNone with _ | m
  · rw [List.find?_eq_none] at hf
    refine ⟨t.closed _ le_rfl, fun n hn => ?_⟩
    simpa using hf n (List.mem_range.mpr hn)
  · rw [List.find?_range_eq_some] at hf
    obtain ⟨hm, -, hlt⟩ := hf
    exact ⟨by simpa using hm, fun n hn => Option.isSome_iff_ne_none.mp (by simpa using hlt n hn)⟩

@[simp] theorem file_lowest (t : FdTable φ) : t.file t.lowest = none := t.lowest_spec.1

theorem lowest_le (h : t.file n = none) : t.lowest ≤ n :=
  not_lt.mp fun hn => t.lowest_spec.2 n hn h

/-! Files that are opened one after the other get the free numbers in order. -/

def Free (t : FdTable φ) (n : ℕ) : Prop := t.file n = none

instance (t : FdTable φ) : DecidablePred t.Free := fun _ =>
  decidable_of_iff _ Option.isNone_iff_eq_none

theorem infinite_free (t : FdTable φ) : (Set.ofPred t.Free).Infinite :=
  Set.infinite_of_forall_exists_gt fun n =>
    ⟨max (n + 1) t.size, t.closed _ (le_max_right _ _),
      (Nat.lt_succ_self n).trans_le (le_max_left _ _)⟩

theorem lowest_eq_nth (t : FdTable φ) : t.lowest = Nat.nth t.Free 0 := by
  refine le_antisymm (lowest_le (Nat.nth_mem_of_infinite t.infinite_free 0)) ?_
  rw [Nat.nth_zero]
  exact Nat.sInf_le t.file_lowest

theorem free_map (g : φ → ψ) (t : FdTable φ) : (t.map g).Free = t.Free := by
  funext n
  simp [Free]

theorem free_give_iff (t : FdTable φ) (a : φ) (n : ℕ) :
    (t.give a).2.Free n ↔ t.Free n ∧ n ≠ t.lowest := by
  unfold Free give
  rw [file_set]
  by_cases hn : n = t.lowest <;> simp [hn]

theorem count_free_give (t : FdTable φ) (a : φ) (m : ℕ) :
    Nat.count (t.give a).2.Free m + (if t.lowest < m then 1 else 0) = Nat.count t.Free m := by
  induction m with
  | zero => simp
  | succ m ih =>
    have hlow : t.Free t.lowest := t.file_lowest
    simp only [Nat.count_succ, free_give_iff]
    rcases lt_trichotomy m t.lowest with hm | rfl | hm
    · have hnot : ¬ t.lowest < m + 1 := by omega
      simp only [if_neg (not_lt.mpr hm.le), if_neg hnot] at ih ⊢
      simp [hm.ne, ← ih]
    · simp only [lt_irrefl, if_false] at ih
      simp [hlow, ← ih]
    · simp only [if_pos hm, if_pos (Nat.lt_succ_of_lt hm)] at ih ⊢
      simp only [hm.ne', ne_eq, not_false_eq_true, and_true]
      omega

/-- After one file the numbers go on from the second one. -/
theorem nth_free_give (t : FdTable φ) (a : φ) (k : ℕ) :
    Nat.nth (t.give a).2.Free k = Nat.nth t.Free (k + 1) := by
  have hinf := t.infinite_free
  have hlt : t.lowest < Nat.nth t.Free (k + 1) := by
    rw [lowest_eq_nth, Nat.nth_lt_nth hinf]
    omega
  have hcount := t.count_free_give a (Nat.nth t.Free (k + 1))
  rw [if_pos hlt, Nat.count_nth_of_infinite hinf] at hcount
  have hfree : (t.give a).2.Free (Nat.nth t.Free (k + 1)) :=
    (t.free_give_iff a _).mpr ⟨Nat.nth_mem_of_infinite hinf _, hlt.ne'⟩
  rw [← Nat.nth_count hfree, Nat.succ.inj hcount]

end FdTable

variable {φ κ : Type*}

/-- The table `u` of a process that inherited `t`: from `lo` on that is in place, and whatever else is open
is the process's own. -/
structure Beside (g : κ → φ) (lo : ℕ) (t : FdTable κ) (own : φ → ℕ → Prop) (u : FdTable φ) : Prop where
  kept : ∀ {n k}, lo ≤ n → t.file n = some k → u.file n = some (g k)
  known : ∀ {n f}, u.file n = some f → t.file n ≠ none ∧ (t.file n).map g = some f ∨ own f n
  fresh : ∀ {n f}, lo ≤ n → own f n → t.file n = none

namespace Beside

variable {g : κ → φ} {lo : ℕ} {t : FdTable κ} {own own' : φ → ℕ → Prop} {u : FdTable φ} {n : ℕ}

theorem inherited (g : κ → φ) (t : FdTable κ) (hown : ∀ f n, ¬ own f n) :
    Beside g 0 t own (t.map g) where
  kept _ hk := by simp [hk]
  known hf := by
    refine .inl ⟨fun hn => ?_, hf⟩
    rw [FdTable.file_map, hn] at hf
    cases hf
  fresh _ ho := absurd ho (hown _ _)

theorem raise {lo' : ℕ} (h : Beside g lo t own u) (hlo : lo ≤ lo')
    (hown : ∀ f n, own f n → own' f n) (hfresh : ∀ f n, lo' ≤ n → own' f n → own f n) :
    Beside g lo' t own' u where
  kept hn := h.kept (hlo.trans hn)
  known hf := (h.known hf).imp_right (hown _ _)
  fresh hn ho := h.fresh (hlo.trans hn) (hfresh _ _ hn ho)

theorem close (h : Beside g lo t own u) (hn : lo ≤ n → t.file n = none)
    (hown : ∀ f m, m ≠ n → own f m → own' f m) (hsub : ∀ f m, own' f m → own f m) :
    Beside g lo t own' (u.close n) where
  kept {m k} hm hk := by
    have hne : m ≠ n := by
      rintro rfl
      rw [hn hm] at hk
      cases hk
    rw [FdTable.file_close, if_neg hne]
    exact h.kept hm hk
  known {m f} hf := by
    rw [FdTable.file_close] at hf
    split_ifs at hf with hne
    exact (h.known hf).imp_right (hown f m hne)
  fresh hm ho := h.fresh hm (hsub _ _ ho)

/-- A number that is given was not inherited. -/
theorem file_lowest (h : Beside g lo t own u) (hlo : lo ≤ u.lowest) : t.file u.lowest = none := by
  by_contra hne
  obtain ⟨k, hk⟩ := Option.ne_none_iff_exists'.mp hne
  have hf := h.kept hlo hk
  rw [FdTable.file_lowest] at hf
  cases hf

theorem give (h : Beside g lo t own u) (a : φ)
    (hown : ∀ f m, own' f m ↔ own f m ∨ f = a ∧ m = u.lowest) :
    Beside g lo t own' (u.give a).2 where
  kept {m k} hm hk := by
    have hne : m ≠ u.lowest := by
      rintro rfl
      rw [h.file_lowest hm] at hk
      cases hk
    rw [FdTable.give, FdTable.file_set, if_neg hne]
    exact h.kept hm hk
  known {m f} hf := by
    rw [FdTable.give, FdTable.file_set] at hf
    split_ifs at hf with hne
    · exact .inr ((hown f m).mpr (.inr ⟨(Option.some.inj hf).symm, hne⟩))
    · exact (h.known hf).imp_right fun ho => (hown f m).mpr (.inl ho)
  fresh {m f} hm ho := by
    rcases (hown f m).mp ho with ho | ⟨-, rfl⟩
    · exact h.fresh hm ho
    · exact h.file_lowest hm

theorem file_cases (h : Beside g lo t own u) (hn : lo ≤ n) :
    u.file n = (t.file n).map g ∨ ∃ f, u.file n = some f ∧ own f n := by
  rcases hf : u.file n with _ | f
  · rcases ht : t.file n with _ | k
    · exact .inl rfl
    · have hk := h.kept hn ht
      rw [hf] at hk
      cases hk
  · rcases h.known hf with ⟨-, hm⟩ | ho
    · exact .inl hm.symm
    · exact .inr ⟨f, rfl, ho⟩

end Beside

end Aesd.Lib.Descriptors
