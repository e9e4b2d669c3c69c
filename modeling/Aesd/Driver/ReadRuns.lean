import Aesd.Driver.SeekRace

/-!
# Reads, one after the other

With `C` the content of the device: a read whose copies succeed delivers the slice of `C` at its
position and moves the position by its length (`aesdRead_slice`), so reads from the beginning on deliver
`C` and then nothing (`reads_content`). When a copy faults, the position has already been moved over the
lines copied before, though the read reports only the error: result and position agree exactly if no
fault comes after a copy that succeeded (`positionAgrees_iff`).
-/

namespace Aesd.Driver.ReadRuns

open Aesd.Lib.Lts
open Aesd.Driver.Ring Aesd.Driver.Device Aesd.Driver.Store Aesd.Driver.Write Aesd.Driver.Read
open Aesd.Driver.Conservation Aesd.Driver.SeekRace

/-- A call of `aesd_read`. -/
structure ReadCall where
  count : ℕ
  ubuf : Bytes
  env : ReadEnv

/-- Reads through one `struct file`, with no write between them: what each returned with the bytes it
counts, and the position left. -/
def reads (d : AesdDev) : ℕ → List ReadCall → Option (List (ℤ × Bytes) × ℕ)
  | fpos, [] => some ([], fpos)
  | fpos, c :: calls => do
    let (r, fpos, ubuf) ← aesdRead d c.env c.count fpos c.ubuf
    let (rs, fpos) ← reads d fpos calls
    some ((r, ubuf.take r.toNat) :: rs, fpos)

/-- The lock is taken and the copies succeed. -/
structure Served (env : ReadEnv) : Prop where
  sem : env.semKilled = false
  copy : ∀ i, env.copy i = none

/-- What a read delivers. -/
def slice (d : AesdDev) (fpos count : ℕ) : Bytes := ((content d).drop fpos).take count

theorem length_slice (d : AesdDev) (fpos count : ℕ) :
    (slice d fpos count).length = min count ((content d).length - fpos) := by
  unfold slice
  rw [List.length_take, List.length_drop]

theorem slice_add (d : AesdDev) (fpos a b : ℕ) :
    slice d fpos (a + b) = slice d fpos a ++ slice d (fpos + a) b := by
  unfold slice
  rw [List.take_add, List.drop_drop]

/-- Moving by what was delivered is as good as moving by what was asked for. -/
theorem slice_past (d : AesdDev) {fpos n count : ℕ} (hn : n = min count ((content d).length - fpos))
    (k m : ℕ) : slice d (fpos + n + k) m = slice d (fpos + count + k) m := by
  rcases Nat.lt_or_ge n count with hlt | hge
  · unfold slice
    rw [List.drop_eq_nil_of_le (by omega), List.drop_eq_nil_of_le (by omega)]
  · rw [show n = count by omega]

section Owned
variable {d : AesdDev} (h : Owned d)
include h

/-- **A read delivers the slice** at its position, touches no other byte of the user's buffer, and
moves the position by what it returns. -/
theorem aesdRead_slice {env : ReadEnv} (he : Served env) (count fpos : ℕ) {ubuf : Bytes}
    (hroom : min count ((content d).length - fpos) ≤ ubuf.length) :
    ∃ n ubuf', n = min count ((content d).length - fpos) ∧
      aesdRead d env count fpos ubuf = some ((n : ℤ), fpos + n, ubuf') ∧
      ubuf'.take n = slice d fpos count ∧ ubuf'.drop n = ubuf.drop n ∧
      ubuf'.length = ubuf.length := by
  have hlen := length_slice d fpos count
  rw [← hlen] at hroom ⊢
  refine ⟨_, overlay ubuf 0 (slice d fpos count), rfl,
    aesdRead_eq h he.sem he.copy fpos hroom, ?_, ?_, length_overlay (by omega)⟩
  · simp [overlay]
  · unfold overlay
    rw [List.take_zero, List.nil_append, List.drop_left', Nat.zero_add]
    rfl

theorem reads_from {calls : List ReadCall} (hcalls : ∀ c ∈ calls, Served c.env ∧
      min c.count (content d).length ≤ c.ubuf.length) (fpos : ℕ) :
    ∃ rs fpos', reads d fpos calls = some (rs, fpos') ∧ rs.length = calls.length ∧
      (rs.map Prod.snd).flatten = slice d fpos (calls.map ReadCall.count).sum ∧
      ∀ i r, rs[i]? = some r → r.1 = r.2.length ∧ ∃ c ∈ calls,
        r.2 = slice d (fpos + ((calls.take i).map ReadCall.count).sum) c.count := by
  induction calls generalizing fpos with
  | nil => exact ⟨[], fpos, rfl, rfl, by simp [slice], by simp⟩
  | cons c calls ih =>
    obtain ⟨he, hroom⟩ := hcalls c (by simp)
    obtain ⟨n, ubuf', hn, hread, htake, -⟩ :=
      aesdRead_slice h he c.count fpos
        (show min c.count ((content d).length - fpos) ≤ c.ubuf.length by omega)
    obtain ⟨rs, fpos', hreads, hlen, hall, heach⟩ :=
      ih (fun c hc => hcalls c (List.mem_cons_of_mem _ hc)) (fpos + n)
    have hpast := slice_past d hn
    refine ⟨(n, slice d fpos c.count) :: rs, fpos', ?_, by simp [hlen], ?_, fun i r hi => ?_⟩
    · simp [reads, hread, hreads, htake]
    · rw [List.map_cons, List.flatten_cons, hall, List.map_cons, List.sum_cons, slice_add]
      exact congrArg _ (hpast 0 _)
    · rcases i with _ | i
      · rw [List.getElem?_cons_zero, Option.some.injEq] at hi
        subst hi
        refine ⟨?_, c, by simp, by simp⟩
        rw [length_slice, hn]
      · rw [List.getElem?_cons_succ] at hi
        obtain ⟨hr, c', hc', hslice⟩ := heach i r hi
        refine ⟨hr, c', List.mem_cons_of_mem _ hc', ?_⟩
        rw [hslice, List.take_succ_cons, List.map_cons, List.sum_cons, ← Nat.add_assoc, hpast]

end Owned

/-- **Reads deliver the content, then nothing.** On every reachable device: each read whose lock is
taken and whose copies succeed delivers its slice; and reads with positive counts from the beginning
on deliver the content in order, each of them returning `0` exactly from the end on. -/
theorem reads_content {d : AesdDev} (hd : Loaded d) :
    (∀ env, Served env → ∀ count fpos ubuf,
      min count ((content d).length - fpos) ≤ List.length ubuf →
        ∃ n ubuf', n = min count ((content d).length - fpos) ∧
          aesdRead d env count fpos ubuf = some ((n : ℤ), fpos + n, ubuf') ∧
          ubuf'.take n = ((content d).drop fpos).take n ∧ ubuf'.drop n = ubuf.drop n ∧
          ubuf'.length = ubuf.length) ∧
    ∀ calls : List ReadCall, (∀ c ∈ calls, 0 < c.count ∧ Served c.env ∧
        min c.count (content d).length ≤ c.ubuf.length) →
      ∃ rs fpos', reads d 0 calls = some (rs, fpos') ∧ rs.length = calls.length ∧
        (rs.map Prod.snd).flatten = (content d).take (calls.map ReadCall.count).sum ∧
        (∀ i r, rs[i]? = some r → r.1 = r.2.length ∧
          (r.1 = 0 ↔ (content d).length ≤ ((calls.take i).map ReadCall.count).sum)) ∧
        ((content d).length ≤ calls.length → (rs.map Prod.snd).flatten = content d) := by
  have h := inv_loaded hd
  refine ⟨fun env he count fpos ubuf hroom => ?_, fun calls hcalls => ?_⟩
  · obtain ⟨n, ubuf', hn, hread, htake, hrest⟩ := aesdRead_slice h he count fpos hroom
    refine ⟨n, ubuf', hn, hread, ?_, hrest⟩
    rw [htake, slice, hn, ← List.length_drop, ← List.take_eq_take_min]
  · obtain ⟨rs, fpos', hreads, hlen, hall, heach⟩ :=
      reads_from h (fun c hc => (hcalls c hc).2) 0
    refine ⟨rs, fpos', hreads, hlen, hall, fun i r hi => ?_, fun hle => ?_⟩
    · obtain ⟨hr, c, hc, hslice⟩ := heach i r hi
      have hpos := (hcalls c hc).1
      refine ⟨hr, ?_⟩
      rw [hr, hslice, length_slice]
      omega
    · have hsum : calls.length ≤ (calls.map ReadCall.count).sum := by
        have hone : ∀ n ∈ calls.map ReadCall.count, 1 ≤ n := by
          intro n hn
          obtain ⟨c, hc, rfl⟩ := List.mem_map.mp hn
          exact (hcalls c hc).1
        simpa using List.length_le_sum_of_one_le _ hone
      rw [hall, slice, List.drop_zero]
      exact List.take_of_length_le (by omega)

/-- Two lines, written by one call each. -/
def twoLines : List (Bytes × WriteEnv) := [([97, newline], smooth), ([98, newline], smooth)]

theorem loaded_twoLines : ∃ d, Loaded d ∧ view d = ⟨[[97, newline], [98, newline]], []⟩ := by
  obtain ⟨d, hr, -, hv⟩ := run_writeStep inv_initModule twoLines
  refine ⟨d, ⟨initModule, twoLines, rfl, hr⟩, ?_⟩
  rw [hv, view_initModule]
  decide

/-- The kernel lets the read through. -/
def through : ReadEnv := ⟨false, fun _ => none⟩

/-- Two lines read by three reads of three bytes each. -/
theorem reads_content_twoLines :
    ∃ d, Loaded d ∧ view d = ⟨[[97, newline], [98, newline]], []⟩ ∧
      ∃ rs fpos', reads d 0 (List.replicate 3 ⟨3, [0, 0, 0], through⟩) = some (rs, fpos') ∧
        (rs.map Prod.snd).flatten = [97, newline, 98, newline] := by
  obtain ⟨d, hd, hv⟩ := loaded_twoLines
  have hc : content d = [97, newline, 98, newline] := by
    unfold content
    rw [hv]
    rfl
  obtain ⟨rs, fpos', hreads, -, hall, -⟩ :=
    (reads_content hd).2 (List.replicate 3 ⟨3, [0, 0, 0], through⟩) (by
      intro c hmem
      rw [List.eq_of_mem_replicate hmem, hc]
      exact ⟨by decide, ⟨rfl, fun _ => rfl⟩, by decide⟩)
  refine ⟨d, hd, hv, rs, fpos', hreads, ?_⟩
  rw [hall, hc]
  rfl

/-! ### Faults -/

/-- The result and the position left by a read at `fpos` agree. -/
def PositionAgrees (fpos : ℕ) (r : ℤ) (fpos' : ℕ) : Prop :=
  0 ≤ r ∧ (fpos' : ℤ) = fpos + r ∨ r < 0 ∧ fpos' = fpos

/-- The copy from the first line touched succeeds, and one from a later line touched faults. -/
def FaultsLate (d : AesdDev) (env : ReadEnv) (count fpos : ℕ) : Prop :=
  env.semKilled = false ∧ env.copy 0 = none ∧ ∃ i < linesTouched d fpos count, env.copy i ≠ none

/-- **When result and position agree.** On every reachable device, for every position, count and outcome
of the lock and the copies: exactly if no fault comes after a copy that succeeded. -/
theorem positionAgrees_iff {d : AesdDev} (hd : Loaded d) (env : ReadEnv) (count fpos : ℕ)
    (ubuf : Bytes) :
    ∃ r fpos' ubuf', aesdRead d env count fpos ubuf = some (r, fpos', ubuf') ∧
      (PositionAgrees fpos r fpos' ↔ ¬ FaultsLate d env count fpos) := by
  have h := inv_loaded hd
  unfold aesdRead
  by_cases hsem : env.semKilled = true
  · rw [if_pos hsem]
    refine ⟨_, _, _, rfl, iff_of_true (Or.inr ⟨by decide, rfl⟩) fun hf => ?_⟩
    rw [hf.1] at hsem
    cases hsem
  rw [if_neg hsem]
  by_cases hfault : ∃ i < linesTouched d fpos count, env.copy i ≠ none
  · obtain ⟨pos', u, hloop, hle, hmoved⟩ :=
      @readLoop_fault d h env 0 count 0 fpos ubuf (by simpa using hfault)
    refine ⟨_, pos', u, hloop, ?_⟩
    have hneg : -efault < 0 := by decide
    have hagree : PositionAgrees fpos (-efault) pos' ↔ pos' = fpos := by
      unfold PositionAgrees
      omega
    have hlate : FaultsLate d env count fpos ↔ env.copy 0 = none :=
      ⟨fun hl => hl.2.1, fun h0 => ⟨by simpa using hsem, h0, hfault⟩⟩
    rw [hagree, hmoved, hlate]
  · have hall : ∀ j < linesTouched d fpos count, env.copy (0 + j) = none := by
      intro j hj
      rw [Nat.zero_add]
      exact not_not.mp fun hn => hfault ⟨j, hj, hn⟩
    obtain ⟨u, hloop, -⟩ := @readLoop_ok d h env 0 count 0 fpos ubuf hall
    refine ⟨_, _, u, hloop, iff_of_true (Or.inl ⟨by omega, by push_cast; ring⟩) ?_⟩
    exact fun hl => hfault hl.2.2

/-- The second copy faults at once. -/
def secondFaults : ReadEnv := ⟨false, fun i => if i = 1 then some 0 else none⟩

/-- A read of the first line alone, before the copy that would fault. -/
theorem positionAgrees_iff_firstLine :
    ∃ d, Loaded d ∧ ∃ r fpos' ubuf', aesdRead d secondFaults 2 0 [0, 0] = some (r, fpos', ubuf') ∧
      (PositionAgrees 0 r fpos' ↔ ¬ FaultsLate d secondFaults 2 0) := by
  obtain ⟨d, hd, -⟩ := loaded_twoLines
  exact ⟨d, hd, positionAgrees_iff hd secondFaults 2 0 [0, 0]⟩

/-- **A failed read moves the position**: of two lines, the copy of the second one faults; the read
returns `-EFAULT`, and the caller's next read starts after the first line. -/
theorem read_skips_after_fault :
    ∃ d, Loaded d ∧ view d = ⟨[[97, newline], [98, newline]], []⟩ ∧
      ∃ fpos' ubuf', aesdRead d secondFaults 4 0 [0, 0, 0, 0] = some (-efault, fpos', ubuf') ∧
        0 < fpos' ∧ ¬ PositionAgrees 0 (-efault) fpos' := by
  obtain ⟨d, hd, hv⟩ := loaded_twoLines
  have htouched : linesTouched d 0 4 = 2 := by
    unfold linesTouched
    rw [hv]
    decide
  obtain ⟨fpos', ubuf', hloop, -, hmoved⟩ :=
    @readLoop_fault d (inv_loaded hd) secondFaults 0 4 0 0 [0, 0, 0, 0]
      ⟨1, by rw [htouched]; decide, by decide⟩
  have hpos : fpos' ≠ 0 := fun h0 => absurd (hmoved.mp h0) (by decide)
  refine ⟨d, hd, hv, fpos', ubuf', hloop, by omega, ?_⟩
  unfold PositionAgrees
  simp only [efault]
  omega

end Aesd.Driver.ReadRuns
