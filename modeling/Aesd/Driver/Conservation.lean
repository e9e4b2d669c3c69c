import Aesd.Lib.Blocks
import Aesd.Driver.Read

/-!
# Where the written bytes go

The payloads of the successful writes, in the order of the lock, are grouped into blocks, each ending
at the first payload whose last byte is a newline (`Blocks.blocks`). When no allocation fails and the
buffer's lock is always obtained, the device stores the last ten blocks and holds the open one
(`writes_conserve`). A write that reports an error leaves the store as it was in all cases but two: a
failed reallocation drops the pending bytes, and a write killed while it waits for the buffer keeps
the line it reported as failed (`failedWriteAtomic_iff`).
-/

namespace Aesd.Driver.Conservation

open Aesd.Lib.Alloc Aesd.Lib.Blocks Aesd.Lib.Circular
open Aesd.Driver.Ring Aesd.Driver.Device Aesd.Driver.Store Aesd.Driver.Write Aesd.Driver.Read

/-- The payload completes a line. -/
def endsLine (buf : Bytes) : Bool := buf.getLast? == some newline

/-- The payloads of the writes that returned the number of bytes taken. -/
def accepted (calls : List (Bytes × WriteEnv)) (rets : List ℤ) : List Bytes :=
  ((calls.zip rets).filter fun c => decide (0 < c.2)).map fun c => c.1.1

/-- The line store after the payloads `ws` were taken: the last blocks, and the open one. -/
def storeOf (ws : List Bytes) : LineStore :=
  ⟨((blocks endsLine ws).map List.flatten).rtake maxWriteOperationsSupported,
    (rest endsLine ws).flatten⟩

theorem storeOf_concat (ws : List Bytes) (w : Bytes) :
    storeOf (ws ++ [w]) = (storeOf ws).accept w := by
  unfold storeOf LineStore.accept
  by_cases hw : w.getLast? = some newline
  · have he : endsLine w = true := by simp [endsLine, hw]
    rw [if_pos hw, blocks_concat_pos he, rest_concat_pos he, rtake_concat]
    simp
  · have he : endsLine w = false := by simp [endsLine, hw]
    rw [if_neg hw, blocks_concat_neg he, rest_concat_neg he]
    simp

/-- A call in which only the copy or the taking of `temp_entry_mutex` may fail. -/
def NoLoss (env : WriteEnv) : Prop := env.alloc.isOk = true ∧ env.semKilled = false

/-- One such call takes its payload, if it reports so, and otherwise leaves the store alone. -/
theorem write_noLoss {env : WriteEnv} (he : NoLoss env) (s : LineStore) (buf : Bytes) :
    (s.write buf env).2 = if 0 < (s.write buf env).1 then s.accept buf else s := by
  obtain ⟨halloc, hsem⟩ := he
  unfold LineStore.write
  by_cases hlen : buf.length = 0
  · simp [hlen]
  by_cases hmutex : env.mutexKilled = true
  · simp [hlen, hmutex]
  by_cases hcopy : env.copy.isSome = true
  · simp [hlen, hmutex, halloc, hcopy]
  · have hpos : 0 < (buf.length : ℤ) := by omega
    simp [hlen, hmutex, halloc, hcopy, hsem]

/-- What such a call returns. -/
def retval : Bytes × WriteEnv → ℤ
  | (buf, env) =>
    if buf.length = 0 then 0
    else if env.mutexKilled then -eintr
    else if env.copy.isSome then -efault
    else buf.length

theorem write_retval {env : WriteEnv} (he : NoLoss env) (s : LineStore) (buf : Bytes) :
    (s.write buf env).1 = retval (buf, env) := by
  obtain ⟨halloc, hsem⟩ := he
  unfold LineStore.write retval
  by_cases hlen : buf.length = 0
  · simp [hlen]
  by_cases hmutex : env.mutexKilled = true
  · simp [hlen, hmutex]
  by_cases hcopy : env.copy.isSome = true <;> simp [hlen, hmutex, halloc, hcopy, hsem]

theorem writes_retval : ∀ (calls : List (Bytes × WriteEnv)) (s : LineStore),
    (∀ c ∈ calls, NoLoss c.2) → (LineStore.writes s calls).1 = calls.map retval
  | [], _, _ => rfl
  | (buf, env) :: calls, s, hc => by
    have hrest := writes_retval calls (s.write buf env).2 fun c h => hc c (by simp [h])
    simp only [LineStore.writes, List.map_cons, hrest, write_retval (hc (buf, env) (by simp))]

theorem writes_storeOf : ∀ (calls : List (Bytes × WriteEnv)) (ws : List Bytes),
    (∀ c ∈ calls, NoLoss c.2) →
      (LineStore.writes (storeOf ws) calls).2 =
        storeOf (ws ++ accepted calls (LineStore.writes (storeOf ws) calls).1)
  | [], ws, _ => by simp [LineStore.writes, accepted]
  | (buf, env) :: calls, ws, hc => by
    have hstep := write_noLoss (hc (buf, env) (by simp)) (storeOf ws) buf
    have hrest : ∀ c ∈ calls, NoLoss c.2 := fun c h => hc c (by simp [h])
    simp only [LineStore.writes, accepted, List.zip_cons_cons]
    by_cases hpos : 0 < ((storeOf ws).write buf env).1
    · rw [if_pos hpos, ← storeOf_concat] at hstep
      rw [hstep, List.filter_cons_of_pos (by simpa using hpos),
        writes_storeOf calls (ws ++ [buf]) hrest]
      simp [accepted]
    · rw [if_neg hpos] at hstep
      rw [hstep, List.filter_cons_of_neg (by simpa using hpos), writes_storeOf calls ws hrest]
      rfl

theorem entries_storeOf (ws : List Bytes) :
    ∀ l ∈ (storeOf ws).entries, l ≠ [] ∧ l.getLast? = some newline := by
  intro l hl
  obtain ⟨b, hb, rfl⟩ := List.mem_map.mp (mem_of_mem_rtake hl)
  obtain ⟨c, w, rfl, hw, -⟩ := (blocks_shape endsLine ws).1 b hb
  have hlast : w.getLast? = some newline := by simpa [endsLine] using hw
  have hne : w ≠ [] := by rintro rfl; simp at hlast
  refine ⟨by simp [hne], ?_⟩
  rw [List.flatten_append, List.flatten_singleton, List.getLast?_append_of_ne_nil _ hne, hlast]

/-- **Conservation of the written bytes.** For every run of writes in which each call succeeds, or
fails in the copy or on `temp_entry_mutex`: each call returns its number of bytes or that failure; the
device stores the last ten complete blocks of the payloads taken and holds the open block; the blocks
and the open one are all the bytes taken, in order; and a read shows the user only bytes of the stored
lines. -/
theorem writes_conserve (calls : List (Bytes × WriteEnv)) (hcalls : ∀ c ∈ calls, NoLoss c.2) :
    ∃ rets d, writes initModule calls = some (rets, d) ∧ rets = calls.map retval ∧
      (view d).entries = ((blocks endsLine (accepted calls rets)).map List.flatten).rtake
        maxWriteOperationsSupported ∧
      (view d).pending = (rest endsLine (accepted calls rets)).flatten ∧
      (blocks endsLine (accepted calls rets)).flatten ++ rest endsLine (accepted calls rets) =
        accepted calls rets ∧
      (∀ l ∈ (view d).entries, l ≠ [] ∧ l.getLast? = some newline) ∧
      ∀ env count fpos ubuf, count ≤ ubuf.length →
        ∃ r pos' w, aesdRead d env count fpos ubuf = some (r, pos', overlay ubuf 0 w) ∧
          w <+: (((view d).entries.flatten.drop fpos).take count) := by
  obtain ⟨d, hw, hi, hv⟩ := writes_refines inv_initModule calls
  have hrun := writes_storeOf calls [] hcalls
  have hempty : storeOf [] = view initModule := view_initModule.symm
  rw [hempty, ← hv, List.nil_append] at hrun
  refine ⟨_, d, hw, writes_retval calls _ hcalls, by rw [hrun]; rfl, by rw [hrun]; rfl,
    flatten_blocks_append_rest _ _,
    by rw [hrun]; exact entries_storeOf _, fun env count fpos ubuf hu => ?_⟩
  exact aesdRead_prefix hi env fpos hu

/-- The kernel lets the call through, with fresh memory zeroed. -/
def smooth : WriteEnv := ⟨false, .ok true fun _ => 0, none, false⟩

/-- A line written in two pieces, with a faulting write in between, and the beginning of the next line. -/
theorem writes_conserve_example :
    ∃ d, writes initModule [([97], smooth), ([98], { smooth with copy := some 1 }),
        ([99, newline], smooth), ([100], smooth)] = some ([1, -efault, 2, 1], d) ∧
      (view d).entries = [[97, 99, newline]] ∧ (view d).pending = [100] := by
  obtain ⟨rets, d, hw, hrets, he, hp, -⟩ := writes_conserve [([97], smooth),
    ([98], { smooth with copy := some 1 }), ([99, newline], smooth), ([100], smooth)]
    (by simp [NoLoss, smooth, Outcome.isOk])
  have hrets' : rets = [1, -efault, 2, 1] := by rw [hrets]; decide
  rw [hrets'] at hw he hp
  exact ⟨d, hw, by rw [he]; decide, by rw [hp]; decide⟩

/-! ### Failed writes -/

/-- A failed write left no trace: the line store is the one before it, and so is the one every later
run of writes leads to. -/
def FailedWriteAtomic (before after : AesdDev) : Prop :=
  view after = view before ∧ ∀ calls,
    (writes after calls).map (fun r => (r.1, view r.2)) =
      (writes before calls).map fun r => (r.1, view r.2)

theorem writes_congr {d d' : AesdDev} (h : Owned d) (h' : Owned d') (hv : view d' = view d)
    (calls : List (Bytes × WriteEnv)) :
    (writes d' calls).map (fun r => (r.1, view r.2)) =
      (writes d calls).map fun r => (r.1, view r.2) := by
  obtain ⟨e, he, -, hve⟩ := writes_refines h calls
  obtain ⟨e', he', -, hve'⟩ := writes_refines h' calls
  simp [he, he', hve, hve', hv]

/-- The allocation fails while bytes are pending. -/
def LosesPending (d : AesdDev) (env : WriteEnv) : Prop :=
  env.mutexKilled = false ∧ env.alloc.isOk = false ∧ (view d).pending ≠ []

/-- The write completes a line and is killed while it waits for the buffer. -/
def KilledBeforeCommit (buf : Bytes) (env : WriteEnv) : Prop :=
  env.mutexKilled = false ∧ env.alloc.isOk = true ∧ env.copy = none ∧
    buf.getLast? = some newline ∧ env.semKilled = true

theorem write_eq_iff (d : AesdDev) (buf : Bytes) (env : WriteEnv)
    (hneg : ((view d).write buf env).1 < 0) :
    ((view d).write buf env).2 = view d ↔
      ¬ LosesPending d env ∧ ¬ KilledBeforeCommit buf env := by
  unfold LosesPending KilledBeforeCommit
  unfold LineStore.write at hneg ⊢
  by_cases hlen : buf.length = 0
  · simp [hlen] at hneg
  have hne : buf ≠ [] := fun hb => hlen (by simp [hb])
  by_cases hmutex : env.mutexKilled = true
  · simp [hlen, hmutex]
  by_cases halloc : env.alloc.isOk = true
  · rcases hcopy : env.copy with _ | copied
    · by_cases hkill : buf.getLast? = some newline ∧ env.semKilled = true
      · simp [hlen, hmutex, halloc, hkill, LineStore.ext_iff, hne]
      · simp only [hlen, hmutex, halloc, hcopy, hkill] at hneg
        simp at hneg
        omega
    · simp [hlen, hmutex, halloc]
  · simp only [hlen, hmutex, halloc]
    simp [LineStore.ext_iff, @eq_comm _ []]

/-- **When failed writes are atomic.** In every reachable state a write that returns an error leaves
no trace exactly if it did not lose pending bytes to a failed allocation and was not killed between
the copy of a complete line and its commit. -/
theorem failedWriteAtomic_iff {calls : List (Bytes × WriteEnv)} {rets : List ℤ} {d : AesdDev}
    (hreach : writes initModule calls = some (rets, d)) {buf : Bytes} {env : WriteEnv} {r : ℤ}
    {d' : AesdDev} (hw : aesdWrite d buf env = some (r, d')) (hneg : r < 0) :
    FailedWriteAtomic d d' ↔ ¬ LosesPending d env ∧ ¬ KilledBeforeCommit buf env := by
  obtain ⟨e, he, hi, -⟩ := writes_refines inv_initModule calls
  rw [hreach, Option.some.injEq, Prod.mk.injEq] at he
  obtain ⟨-, rfl⟩ := he
  obtain ⟨e', he', hi', hv'⟩ := aesdWrite_refines hi buf env
  rw [hw, Option.some.injEq, Prod.mk.injEq] at he'
  obtain ⟨rfl, rfl⟩ := he'
  rw [← write_eq_iff d buf env hneg, ← hv']
  exact ⟨fun h => h.1, fun h => ⟨h, writes_congr hi hi' h⟩⟩

/-- With `a` pending, a copy that faults after one of its two bytes. -/
theorem failedWriteAtomic_iff_fault :
    ∃ d d', writes initModule [([97], smooth)] = some ([1], d) ∧ (view d).pending = [97] ∧
      aesdWrite d [98, newline] { smooth with copy := some 1 } = some (-efault, d') ∧
        FailedWriteAtomic d d' := by
  obtain ⟨d, hr, hi, hv⟩ := writes_refines inv_initModule [([97], smooth)]
  obtain ⟨d', hw, -, -⟩ := aesdWrite_refines hi [98, newline] { smooth with copy := some 1 }
  rw [view_initModule] at hr hv
  rw [hv] at hw
  refine ⟨d, d', hr, by rw [hv]; decide, hw, (failedWriteAtomic_iff hr hw (by decide)).mpr ⟨?_, ?_⟩⟩
  · simp [LosesPending, smooth, Outcome.isOk]
  · simp [KilledBeforeCommit]

/-- **Failed writes are not atomic**: after the accepted byte `a`, a write whose reallocation fails
drops it; a line whose write is killed before the commit is reported as failed and then stored in
front of the next line. -/
theorem failed_write_not_atomic :
    (∃ d d', writes initModule [([97], smooth)] = some ([1], d) ∧
      aesdWrite d [98] { smooth with alloc := .null } = some (-enomem, d') ∧
      (view d).pending = [97] ∧ (view d').pending = [] ∧ ¬ FailedWriteAtomic d d') ∧
    ∃ d' d'' rets, aesdWrite initModule [97, newline] { smooth with semKilled := true } =
        some (-eintr, d') ∧
      writes d' [([98, newline], smooth)] = some (rets, d'') ∧
      (view d'').entries = [[97, newline, 98, newline]] ∧ ¬ FailedWriteAtomic initModule d' := by
  constructor
  · obtain ⟨d, hw, hi, hv⟩ := writes_refines inv_initModule [([97], smooth)]
    obtain ⟨d', hw', -, hv'⟩ := aesdWrite_refines hi [98] { smooth with alloc := .null }
    rw [view_initModule] at hw hv
    rw [hv] at hw' hv'
    have hd : (view d).pending = [97] := by rw [hv]; decide
    have hd' : (view d').pending = [] := by rw [hv']; decide
    refine ⟨d, d', hw, hw', hd, hd', fun h => ?_⟩
    rw [h.1, hd] at hd'
    cases hd'
  · obtain ⟨d', hw', hi', hv'⟩ :=
      aesdWrite_refines inv_initModule [97, newline] { smooth with semKilled := true }
    obtain ⟨d'', hw'', -, hv''⟩ := writes_refines hi' [([98, newline], smooth)]
    rw [view_initModule] at hw' hv'
    rw [hv'] at hw'' hv''
    refine ⟨d', d'', _, hw', hw'', by rw [hv'']; decide, fun h => ?_⟩
    have hpend : (view d').pending = (view initModule).pending := by rw [h.1]
    rw [hv', view_initModule] at hpend
    revert hpend
    decide

end Aesd.Driver.Conservation
