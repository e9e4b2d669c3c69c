import Aesd.Lib.Handles
import Aesd.Lib.Lock
import Aesd.Server.EndToEnd

/-!
# The log stream

`log_file` is one variable: each thread puts a stream of its own there after it has taken
`log_file_mutex` (`open_log_file`), and closes it before it gives the mutex back (`close_log_file`). A
ledger beside the state says which stream `log_file` is, who opened each stream and how often it was
closed; `free_resources` of the main thread is a step of its own, since it closes `log_file` without the
mutex.

If every `fopen` succeeds and `free_resources` finds `log_file` empty, each call on the stream is made by
the holder of the mutex on its own open stream, and every stream is closed once (`log_safe`). The threads
do not look at the result of `open_log_file`, so after a failed `fopen` the next call is made on `NULL`
(`failed_fopen`, `failed_fopen_run`).
-/

namespace Aesd.Server.LogStream

open Aesd.Lib.Alloc Aesd.Lib.Handles Aesd.Lib.Lock Aesd.Lib.Lts
open Aesd.Driver.Device Aesd.Server.Packet Aesd.Server.Clients Aesd.Server.Serving
open Aesd.Server.Clients.State

/-- The streams opened so far: the one in `log_file`, how often each was closed, and who opened it. -/
structure Ledger (ι : Type*) where
  streams : Table Unit
  opener : ℕ → Option ι

variable {ι : Type*} [DecidableEq ι]

namespace Ledger

/-- No stream was opened. -/
def init : Ledger ι := ⟨Table.empty, fun _ => none⟩

/-- `open_log_file` in the thread `i`; without a stream `log_file` is `NULL`. -/
def openLogFile (l : Ledger ι) (i : ι) (ok : Bool) : Ledger ι :=
  if ok = true then
    ⟨l.streams.give (), Function.update l.opener l.streams.next (some i)⟩
  else ⟨{ l.streams with object := fun _ => none }, l.opener⟩

/-- `close_log_file` -/
def closeLogFile (l : Ledger ι) : Ledger ι :=
  match l.streams.object () with
  | none => l
  | some m => ⟨l.streams.close () m, l.opener⟩

/-- The ledger after a call of the thread `i`. -/
def record (l : Ledger ι) (i : ι) : Act → Ledger ι
  | .fopen ok => l.openLogFile i ok
  | .fclose => l.closeLogFile
  | _ => l

end Ledger

/-- A call of a client thread, or `free_resources` of the main thread. -/
inductive Event (ι : Type*)
  | client (i : ι) (act : Act)
  | freeResources

/-- **One step**, with the ledger. -/
def tracedStep (t : State ι × Ledger ι) : Event ι → Option (State ι × Ledger ι)
  | .client i act => (step t.1 (i, act)).map fun s => (s, t.2.record i act)
  | .freeResources =>
    if t.1.fault then none else some ({ t.1 with log := none }, t.2.closeLogFile)

/-- The calls on `log_file`: `fwrite`, `fflush`, `fileno` with `ioctl`, `fseek`, `fread`. -/
def onLogFile : Act → Bool
  | .write _ _ | .fflush | .ioctl _ _ | .fseek _ | .fill _ _ | .fread _ => true
  | _ => false

/-- The thread `i` holds `log_file_mutex`, and `log_file` is a stream that it opened and nobody
closed. -/
structure OpenBy (t : State ι × Ledger ι) (i : ι) : Prop where
  holder : t.1.holder.map Session.client = some i
  notNull : t.1.log ≠ none
  stream : ∃ m, t.2.streams.object () = some m ∧ t.2.opener m = some i ∧ t.2.streams.closes m = 0

/-- **The stream is only used while it is open**: each call on `log_file` that can be made is made on
an open stream of the holder, a free mutex leaves `NULL`, and every stream that was opened is in
`log_file` or was closed exactly once. -/
structure LogSafe (t : State ι × Ledger ι) : Prop where
  used : ∀ i act, onLogFile act = true → (step t.1 (i, act)).isSome = true → OpenBy t i
  free : t.1.holder = none → t.1.log = none ∧ t.2.streams.object () = none
  closed : ∀ m < t.2.streams.next,
    t.2.streams.closes m = if t.2.streams.object () = some m then 0 else 1

/-- Every `fopen` succeeds, and `free_resources` comes while `log_file` is `NULL`. -/
def Opens (t : State ι × Ledger ι) : Event ι → Prop
  | .client _ (.fopen ok) => ok = true
  | .client _ _ => True
  | .freeResources => t.1.log = none

/-! ### What a step does to the stream -/

/-- The thread is between `open_log_file` and `close_log_file`. -/
def inside : Pc → Bool
  | .write _ _ | .ioctl _ | .llseek _ | .seekSet _ | .read _ | .send _ _ _ | .seekEnd _
  | .fclose _ => true
  | _ => false

theorem critical_of_inside {pc : Pc} (h : inside pc = true) : critical pc = true := by
  cases pc <;> first | rfl | cases h

/-- The step of the thread `i` leaves the mutex and `log_file` as they were. -/
structure Kept (s s' : State ι) (i : ι) : Prop where
  holder : s'.holder.map Session.client = s.holder.map Session.client
  log : s'.log.isSome = s.log.isSome
  others : ∀ j, j ≠ i → s'.client j = s.client j
  critical_eq : critical (s'.client i).pc = critical (s.client i).pc
  inside_eq : inside (s'.client i).pc = inside (s.client i).pc

/-- What a call of the thread `i` does to the mutex and to `log_file`. -/
inductive Effect (s s' : State ι) (i : ι) : Act → Prop
  | keep {act : Act} (record : ∀ l : Ledger ι, l.record i act = l) (kept : Kept s s' i) :
      Effect s s' i act
  | lock {verdict : Option Seekto} (free : s.holder = none)
      (holder : s'.holder.map Session.client = some i) (log : s'.log = s.log)
      (others : ∀ j, j ≠ i → s'.client j = s.client j)
      (before : (s.client i).pc = .lock verdict) (after : (s'.client i).pc = .fopen verdict) :
      Effect s s' i .lock
  | fopen {ok : Bool} {verdict : Option Seekto} (holder : s'.holder = s.holder)
      (log : s'.log.isSome = ok) (others : ∀ j, j ≠ i → s'.client j = s.client j)
      (before : (s.client i).pc = .fopen verdict)
      (after : inside (s'.client i).pc = true) : Effect s s' i (.fopen ok)
  | fclose {ret : Bool} (holder : s'.holder = s.holder) (log : s'.log = none)
      (others : ∀ j, j ≠ i → s'.client j = s.client j)
      (before : (s.client i).pc = .fclose ret) (after : (s'.client i).pc = .unlock ret) :
      Effect s s' i .fclose
  | unlock {ret : Bool} (holder : s'.holder = none) (log : s'.log = s.log)
      (others : ∀ j, j ≠ i → s'.client j = s.client j)
      (before : (s.client i).pc = .unlock ret) (after : (s'.client i).pc = .returned ret) :
      Effect s s' i .unlock

section Step
variable {s s' : State ι} {i : ι}

omit [DecidableEq ι] in
theorem kept_crash (s : State ι) (i : ι) : Kept s s.crash i :=
  ⟨rfl, rfl, fun _ _ => rfl, rfl, rfl⟩

/-- The thread goes on from `pc`, without taking the mutex or giving it back. -/
theorem kept_put {pc : Pc} (hpc : (s.client i).pc = pc) {c : Client}
    (hclient : s'.client = Function.update s.client i c)
    (hholder : s'.holder.map Session.client = s.holder.map Session.client)
    (hlog : s'.log.isSome = s.log.isSome) (hcrit : critical c.pc = critical pc)
    (hin : inside c.pc = inside pc) : Kept s s' i := by
  refine ⟨hholder, hlog, fun j hj => ?_, ?_, ?_⟩
  · rw [hclient, Function.update_of_ne hj]
  · rw [hclient, Function.update_self, hcrit, hpc]
  · rw [hclient, Function.update_self, hin, hpc]

omit [DecidableEq ι] in
theorem kept_onLog {k : LogFile → Option (State ι)} (h : s.onLog k = some s')
    (hk : ∀ f, s.log = some f → k f = some s' → Kept s s' i) : Kept s s' i := by
  unfold State.onLog at h
  rcases hf : s.log with _ | f
  · rw [hf] at h
    exact Option.some.inj h ▸ kept_crash s i
  · rw [hf] at h
    exact hk f hf h

theorem kept_goto {pc pc' : Pc} (hpc : (s.client i).pc = pc) (hcrit : critical pc' = critical pc)
    (hin : inside pc' = inside pc) : Kept s (s.goto i pc') i :=
  kept_put hpc rfl rfl rfl hcrit hin

theorem kept_recv (hpc : (s.client i).pc = .recv) {received : Option Bytes}
    (hs : s.recv i received = some s') : Kept s s' i := by
  unfold State.recv at hs
  rcases received with _ | _ | ⟨a, buffer⟩
  · exact Option.some.inj hs ▸ kept_goto hpc rfl rfl
  · exact Option.some.inj hs ▸ kept_goto hpc rfl rfl
  · dsimp only at hs
    split_ifs at hs
    exact Option.some.inj hs ▸ kept_put hpc rfl rfl rfl rfl rfl

theorem kept_byte (hpc : (s.client i).pc = .bytes) {alloc : Outcome UInt8}
    {verdict : Option Seekto} (hs : s.byte i alloc verdict = some s') : Kept s s' i := by
  unfold State.byte at hs
  rcases htodo : (s.client i).todo with _ | ⟨a, todo⟩
  · simp [htodo] at hs
  simp only [htodo] at hs
  rcases hcap : ensurePacketCapacity (s.client i).buf alloc with ⟨_ | _, buf⟩
  · simp only [hcap] at hs
    exact Option.some.inj hs ▸ kept_put hpc rfl rfl rfl rfl rfl
  · simp only [hcap] at hs
    rcases hstore : storeByte buf a with _ | buf'
    · simp only [hstore] at hs
      exact Option.some.inj hs ▸ kept_crash s i
    · simp only [hstore] at hs
      refine Option.some.inj hs ▸ kept_put hpc rfl rfl rfl ?_ ?_
      · split_ifs <;> rfl
      · split_ifs <;> rfl

theorem kept_write {left : Bytes} {failed : Bool} (hpc : (s.client i).pc = .write left failed)
    {count : ℕ} {env : WriteEnv} (hs : s.write i left count env = some s') : Kept s s' i := by
  refine kept_onLog hs fun f hf h => ?_
  split_ifs at h
  rcases hw : aesdWrite s.dev (left.take count) env with _ | ⟨r, dev⟩
  · rw [hw] at h
    exact Option.some.inj h ▸ kept_crash s i
  · rw [hw] at h
    exact Option.some.inj h ▸ kept_put hpc rfl rfl rfl rfl rfl

theorem kept_ioctlReturned (hpc : inside (s.client i).pc = true) (r : ℤ) {log : Option LogFile}
    (hlog : log.isSome = s.log.isSome) : Kept s { s.ioctlReturned i r with log } i := by
  refine kept_put rfl rfl rfl hlog ?_ ?_
  · rw [critical_of_inside hpc]
    split_ifs <;> rfl
  · rw [hpc]
    split_ifs <;> rfl

theorem kept_ioctl {seekto : Seekto} (hpc : (s.client i).pc = .ioctl seekto)
    {copyFails semKilled : Bool} (hs : s.ioctl i seekto copyFails semKilled = some s') :
    Kept s s' i := by
  have hin : inside (s.client i).pc = true := by rw [hpc]; rfl
  refine kept_onLog hs fun f hf h => ?_
  rcases hl : ioctlLookup s.dev.buffer ⟨copyFails, semKilled, false⟩ aesdcharIocseekto seekto with
    r | absoluteOffset
  · rw [hl] at h
    exact Option.some.inj h ▸ kept_ioctlReturned hin r rfl
  · rw [hl] at h
    exact Option.some.inj h ▸ kept_goto hpc rfl rfl

theorem kept_llseek {absoluteOffset : ℤ} (hpc : (s.client i).pc = .llseek absoluteOffset)
    {semKilled : Bool} (hs : s.llseek i absoluteOffset semKilled = some s') : Kept s s' i := by
  have hin : inside (s.client i).pc = true := by rw [hpc]; rfl
  refine kept_onLog hs fun f hf h => ?_
  exact Option.some.inj h ▸ kept_ioctlReturned hin _ (by rw [hf]; rfl)

theorem kept_seekSet {pos : ℤ} (hpc : (s.client i).pc = .seekSet pos) {semKilled : Bool}
    (hs : s.seekSet i pos semKilled = some s') : Kept s s' i := by
  refine kept_onLog hs fun f hf h => ?_
  dsimp only at h
  split_ifs at h
  · exact Option.some.inj h ▸ kept_goto hpc rfl rfl
  · exact Option.some.inj h ▸ kept_put hpc rfl rfl (by rw [hf]; rfl) rfl rfl

omit [DecidableEq ι] in
theorem kept_fill {count : ℕ} {env : ReadEnv} (hs : s.fill count env = some s') :
    Kept s s' i := by
  refine kept_onLog hs fun f hf h => ?_
  split_ifs at h
  rcases hr : aesdRead s.dev env count f.fpos.toNat (List.replicate count 0) with
    _ | ⟨r, fpos, ubuf⟩
  · rw [hr] at h
    exact Option.some.inj h ▸ kept_crash s i
  · rw [hr] at h
    exact Option.some.inj h ▸ ⟨rfl, by rw [hf]; rfl, fun _ _ => rfl, rfl, rfl⟩

theorem kept_fread {ret : Bool} (hpc : (s.client i).pc = .read ret) {n : ℕ}
    (hs : s.fread i ret n = some s') : Kept s s' i := by
  refine kept_onLog hs fun f hf h => ?_
  dsimp only at h
  split_ifs at h
  · exact Option.some.inj h ▸ kept_goto hpc rfl rfl
  · exact Option.some.inj h ▸ kept_put hpc rfl rfl (by rw [hf]; rfl) rfl rfl

theorem kept_send {ret : Bool} {bytesRead total : ℕ}
    (hpc : (s.client i).pc = .send ret bytesRead total) {sent : Option ℕ}
    (hs : s.send i ret bytesRead total sent = some s') : Kept s s' i := by
  unfold State.send at hs
  rcases sent with _ | k
  · exact Option.some.inj hs ▸ kept_goto hpc rfl rfl
  · dsimp only at hs
    split_ifs at hs with hk hmore
    · refine Option.some.inj hs ▸ kept_put hpc rfl ?_ rfl rfl rfl
      rw [Option.map_map]
      rfl
    · refine Option.some.inj hs ▸ kept_put hpc rfl ?_ rfl rfl rfl
      rw [Option.map_map]
      rfl

theorem kept_seekEnd {ret : Bool} (hpc : (s.client i).pc = .seekEnd ret) {semKilled : Bool}
    (hs : s.seekEnd i ret semKilled = some s') : Kept s s' i := by
  refine kept_onLog hs fun f hf h => ?_
  exact Option.some.inj h ▸ kept_put hpc rfl rfl (by rw [hf]; rfl) rfl rfl

theorem kept_back {ret : Bool} (hpc : (s.client i).pc = .returned ret) :
    Kept s (s.back i ret) i := by
  cases ret with
  | true => exact kept_put hpc rfl rfl rfl rfl rfl
  | false => exact kept_put hpc rfl rfl rfl rfl rfl

/-- After undefined behaviour there is no step. -/
theorem sane_of_step {a : ι × Act} (hs : step s a ≠ none) : s.fault = false := by
  by_contra hfault
  exact hs (if_pos (by simpa using hfault))

/-- **One step, told by what it does to the mutex and to `log_file`.** -/
theorem step_effect {act : Act} (hs : step s (i, act) = some s') : Effect s s' i act := by
  have hsane : s.fault = false := sane_of_step (by rw [hs]; simp)
  simp only [step, hsane, Bool.false_eq_true, if_false] at hs
  cases hpc : (s.client i).pc <;> cases act <;> simp only [hpc, reduceCtorEq] at hs
  case recv.recv => exact .keep (fun _ => rfl) (kept_recv hpc hs)
  case bytes.byte => exact .keep (fun _ => rfl) (kept_byte hpc hs)
  case bytes.chunkEnd running =>
    split_ifs at hs
    · exact Option.some.inj hs ▸ .keep (fun _ => rfl) (kept_goto hpc rfl rfl)
    · exact Option.some.inj hs ▸ .keep (fun _ => rfl) (kept_goto hpc rfl rfl)
  case lock.lock =>
    unfold State.lock at hs
    rcases hh : s.holder with _ | cur
    swap
    · simp [hh] at hs
    simp only [hh, Option.some.injEq] at hs
    rw [← hs]
    exact .lock hh rfl rfl (fun j hj => Function.update_of_ne hj _ _) hpc (pc_goto _ _ _)
  case fopen.fopen verdict ok =>
    rw [← Option.some.inj hs]
    refine .fopen rfl ?_ (fun j hj => Function.update_of_ne hj _ _) hpc ?_
    · cases ok <;> rfl
    · unfold State.fopen
      rcases verdict with _ | seekto <;> simp [goto, put, inside]
  case write.write => exact .keep (fun _ => rfl) (kept_write hpc hs)
  case write.fflush =>
    refine .keep (fun _ => rfl) (kept_onLog hs fun f hf h => ?_)
    split_ifs at h
    exact Option.some.inj h ▸ kept_goto hpc rfl rfl
  case ioctl.ioctl => exact .keep (fun _ => rfl) (kept_ioctl hpc hs)
  case llseek.fseek => exact .keep (fun _ => rfl) (kept_llseek hpc hs)
  case seekSet.fseek => exact .keep (fun _ => rfl) (kept_seekSet hpc hs)
  case read.fill => exact .keep (fun _ => rfl) (kept_fill hs)
  case read.fread => exact .keep (fun _ => rfl) (kept_fread hpc hs)
  case send.send => exact .keep (fun _ => rfl) (kept_send hpc hs)
  case seekEnd.fseek => exact .keep (fun _ => rfl) (kept_seekEnd hpc hs)
  case fclose.fclose =>
    rw [← Option.some.inj hs]
    exact .fclose rfl rfl (fun j hj => Function.update_of_ne hj _ _) hpc (pc_goto _ _ _)
  case unlock.unlock =>
    rw [← Option.some.inj hs]
    exact .unlock rfl rfl (fun j hj => Function.update_of_ne hj _ _) hpc (pc_goto _ _ _)
  case returned.back => exact Option.some.inj hs ▸ .keep (fun _ => rfl) (kept_back hpc)

end Step

/-! ### The invariant -/

/-- The threads inside the mutex are the one that holds it; between `open_log_file` and
`close_log_file` the stream in `log_file` is the thread's own, and when no thread is there `log_file` is
`NULL`. -/
structure Inv (t : State ι × Ledger ι) : Prop where
  locked : Excl (t.1.holder.map Session.client) fun i => critical (t.1.client i).pc = true
  counted : Counted t.2.streams
  tracked : t.1.log.isSome = (t.2.streams.object ()).isSome
  own : ∀ i, inside (t.1.client i).pc = true →
    ∃ m, t.2.streams.object () = some m ∧ t.2.opener m = some i
  idle : (∀ i, inside (t.1.client i).pc = false) → t.1.log = none

omit [DecidableEq ι] in
theorem inv_init {s : State ι} (h : Init s) : Inv (s, (Ledger.init : Ledger ι)) := by
  have hpc : ∀ i, (s.client i).pc = .recv := by
    intro i
    obtain ⟨fill, hc⟩ := h.client i
    rw [hc]
    rfl
  refine ⟨fun i => ?_, Counted.empty, ?_, fun i hi => ?_, fun _ => h.log⟩
  · dsimp only
    rw [hpc, h.holder]
    simp [critical]
  · dsimp only
    rw [h.log]
    rfl
  · dsimp only at hi
    rw [hpc] at hi
    cases hi

section Inv
variable {s s' : State ι} {l : Ledger ι} {i : ι} (h : Inv (s, l))
include h

omit [DecidableEq ι] in
/-- A thread inside the mutex keeps the others from using the stream. -/
theorem Inv.outside (hi : critical (s.client i).pc = true) {j : ι} (hj : j ≠ i) :
    inside (s.client j).pc = false := by
  by_contra hin
  rw [Bool.not_eq_false] at hin
  exact hj (h.locked.unique (critical_of_inside hin) hi)

omit [DecidableEq ι] in
theorem Inv.object_none (hlog : s.log = none) : l.streams.object () = none := by
  have htracked := h.tracked
  dsimp only at htracked
  rw [hlog] at htracked
  exact Option.not_isSome_iff_eq_none.mp (by rw [← htracked]; exact Bool.false_ne_true)

omit [DecidableEq ι] in
/-- A step after which the same threads are between `open_log_file` and `close_log_file`. -/
theorem Inv.congr
    (hlocked : Excl (s'.holder.map Session.client) fun j => critical (s'.client j).pc = true)
    (hlog : s'.log.isSome = s.log.isSome)
    (hin : ∀ j, inside (s'.client j).pc = inside (s.client j).pc) : Inv (s', l) := by
  refine ⟨hlocked, h.counted, hlog.trans h.tracked,
    fun j hj => h.own j ((hin j).symm.trans hj), fun hnone => ?_⟩
  have hnull : s.log = none := h.idle fun j => (hin j).symm.trans (hnone j)
  refine Option.not_isSome_iff_eq_none.mp ?_
  rw [hlog, hnull]
  exact Bool.false_ne_true

theorem Inv.keep (hk : Kept s s' i) : Inv (s', l) := by
  refine h.congr ?_ hk.log fun j => ?_
  · rw [hk.holder]
    exact h.locked.keep (fun j hj => by rw [hk.others j hj]) (by rw [hk.critical_eq])
  · by_cases hj : j = i
    · rw [hj, hk.inside_eq]
    · rw [hk.others j hj]

theorem Inv.lock {verdict : Option Seekto} (hfree : s.holder = none)
    (hholder : s'.holder.map Session.client = some i) (hlog : s'.log = s.log)
    (hothers : ∀ j, j ≠ i → s'.client j = s.client j) (hbefore : (s.client i).pc = .lock verdict)
    (hafter : (s'.client i).pc = .fopen verdict) : Inv (s', l) := by
  refine h.congr ?_ (by rw [hlog]) fun j => ?_
  · have hlocked : Excl none fun j => critical (s.client j).pc = true := by
      have hlocked := h.locked
      dsimp only at hlocked
      rwa [hfree] at hlocked
    rw [hholder]
    exact hlocked.take (fun j hj => by rw [hothers j hj]) (by rw [hafter]; rfl)
  · by_cases hj : j = i
    · rw [hj, hbefore, hafter]
      rfl
    · rw [hothers j hj]

theorem Inv.unlock {ret : Bool} (hholder : s'.holder = none) (hlog : s'.log = s.log)
    (hothers : ∀ j, j ≠ i → s'.client j = s.client j) (hbefore : (s.client i).pc = .unlock ret)
    (hafter : (s'.client i).pc = .returned ret) : Inv (s', l) := by
  refine h.congr ?_ (by rw [hlog]) fun j => ?_
  · rw [hholder]
    exact h.locked.give (fun j hj => by rw [hothers j hj]) (by rw [hbefore]; rfl)
      (by rw [hafter]; exact Bool.false_ne_true)
  · by_cases hj : j = i
    · rw [hj, hbefore, hafter]
      rfl
    · rw [hothers j hj]

theorem Inv.fopen {verdict : Option Seekto} (hholder : s'.holder = s.holder)
    (hlog : s'.log.isSome = true) (hothers : ∀ j, j ≠ i → s'.client j = s.client j)
    (hbefore : (s.client i).pc = .fopen verdict) (hafter : inside (s'.client i).pc = true) :
    Inv (s', l.openLogFile i true) := by
  have hcrit : critical (s.client i).pc = true := by rw [hbefore]; rfl
  have hnone : ∀ j, inside (s.client j).pc = false := by
    intro j
    by_cases hj : j = i
    · rw [hj, hbefore]
      rfl
    · exact h.outside hcrit hj
  have hobject : l.streams.object () = none := h.object_none (h.idle hnone)
  refine ⟨?_, h.counted.give hobject, ?_, fun j hj => ?_, fun hall => ?_⟩
  · dsimp only
    rw [hholder]
    refine h.locked.keep (fun j hj => by rw [hothers j hj]) ?_
    rw [critical_of_inside hafter, hcrit]
  · simp [Ledger.openLogFile, Table.give, hlog]
  · by_cases hji : j = i
    · exact ⟨l.streams.next, by simp [Ledger.openLogFile, Table.give, hji]⟩
    · dsimp only at hj
      rw [hothers j hji, hnone j] at hj
      cases hj
  · have hi := hall i
    dsimp only at hi
    rw [hafter] at hi
    cases hi

theorem Inv.fclose {ret : Bool} (hholder : s'.holder = s.holder) (hlog : s'.log = none)
    (hothers : ∀ j, j ≠ i → s'.client j = s.client j) (hbefore : (s.client i).pc = .fclose ret)
    (hafter : (s'.client i).pc = .unlock ret) : Inv (s', l.closeLogFile) := by
  have hcrit : critical (s.client i).pc = true := by rw [hbefore]; rfl
  obtain ⟨m, hm, -⟩ := h.own i (by dsimp only; rw [hbefore]; rfl)
  dsimp only at hm
  unfold Ledger.closeLogFile
  rw [hm]
  refine ⟨?_, h.counted.close hm, ?_, fun j hj => ?_, fun _ => hlog⟩
  · dsimp only
    rw [hholder]
    refine h.locked.keep (fun j hj => by rw [hothers j hj]) ?_
    rw [hcrit, hafter]
    rfl
  · simp [Table.close, hlog]
  · dsimp only at hj
    by_cases hji : j = i
    · rw [hji, hafter] at hj
      cases hj
    · rw [hothers j hji, h.outside hcrit hji] at hj
      cases hj

end Inv

/-- **The invariant is kept** by every step in which `fopen` succeeds and `free_resources` has nothing to
close. -/
theorem inv_step (t : State ι × Ledger ι) (e : Event ι) (t' : State ι × Ledger ι) (h : Inv t)
    (ho : Opens t e) (hs : tracedStep t e = some t') : Inv t' := by
  obtain ⟨s, l⟩ := t
  cases e with
  | client i act =>
    obtain ⟨s', hs', rfl⟩ := Option.map_eq_some_iff.mp hs
    cases step_effect hs' with
    | keep hrecord hk =>
      dsimp only
      rw [hrecord]
      exact h.keep hk
    | lock hfree hholder hlog hothers hbefore hafter =>
      exact h.lock hfree hholder hlog hothers hbefore hafter
    | fopen hholder hlog hothers hbefore hafter =>
      obtain rfl : _ = true := ho
      exact h.fopen hholder hlog hothers hbefore hafter
    | fclose hholder hlog hothers hbefore hafter =>
      exact h.fclose hholder hlog hothers hbefore hafter
    | unlock hholder hlog hothers hbefore hafter =>
      exact h.unlock hholder hlog hothers hbefore hafter
  | freeResources =>
    have hlog : s.log = none := ho
    unfold tracedStep at hs
    split_ifs at hs
    rw [← Option.some.inj hs]
    have hclose : l.closeLogFile = l := by
      unfold Ledger.closeLogFile
      rw [h.object_none hlog]
    dsimp only
    rw [hclose, ← hlog]
    exact h

theorem inside_of_onLogFile {s : State ι} {i : ι} {act : Act} (ha : onLogFile act = true)
    (hs : (step s (i, act)).isSome = true) : inside (s.client i).pc = true := by
  have hsane : s.fault = false := sane_of_step (Option.isSome_iff_ne_none.mp hs)
  simp only [step, hsane, Bool.false_eq_true, if_false] at hs
  by_contra hout
  cases act <;> simp only [onLogFile, Bool.false_eq_true] at ha
  all_goals cases hpc : (s.client i).pc <;> simp [hpc, inside] at hs hout

omit [DecidableEq ι] in
theorem Inv.openBy {t : State ι × Ledger ι} (h : Inv t) {i : ι}
    (hi : inside (t.1.client i).pc = true) : OpenBy t i := by
  obtain ⟨m, hm, hopener⟩ := h.own i hi
  refine ⟨(h.locked i).mp (critical_of_inside hi), fun hnone => ?_, m, hm, hopener,
    h.counted.opened hm⟩
  have htracked := h.tracked
  rw [hnone, hm] at htracked
  cases htracked

theorem Inv.safe {t : State ι × Ledger ι} (h : Inv t) : LogSafe t := by
  refine ⟨fun i act ha hs => h.openBy (inside_of_onLogFile ha hs), fun hfree => ?_,
    fun m hm => ?_⟩
  · have hnone : t.1.log = none := by
      refine h.idle fun i => ?_
      by_contra hin
      have hholder := (h.openBy (by simpa using hin)).holder
      rw [hfree] at hholder
      cases hholder
    exact ⟨hnone, h.object_none hnone⟩
  · split_ifs with hobject
    · exact h.counted.opened hobject
    · exact h.counted.closed m hm fun _ => hobject

/-- **The log stream is only used while it is open**, in every run in which each `fopen` succeeds and
`free_resources` finds `log_file` empty. -/
theorem log_safe {s₀ : State ι} (h₀ : Init s₀) {es : List (Event ι)} {t : State ι × Ledger ι}
    (hm : Meets tracedStep Opens (s₀, Ledger.init) es)
    (hr : run tracedStep (s₀, Ledger.init) es = some t) : LogSafe t :=
  (Meets.invariant inv_step (inv_init h₀) hm hr).safe

theorem step_fopen {s s' : State ι} {i : ι} {ok : Bool} (hs : step s (i, .fopen ok) = some s') :
    s.fault = false ∧ ∃ verdict, s' = s.fopen i verdict ok := by
  have hsane : s.fault = false := sane_of_step (by rw [hs]; simp)
  simp only [step, hsane, Bool.false_eq_true, if_false] at hs
  cases hpc : (s.client i).pc <;> simp only [hpc, reduceCtorEq] at hs
  exact ⟨hsane, _, (Option.some.inj hs).symm⟩

/-- **After a failed `fopen`** the thread's next call is made on `NULL`, in whatever state it was. -/
theorem failed_fopen {t t' : State ι × Ledger ι} {i : ι}
    (hs : tracedStep t (.client i (.fopen false)) = some t') : ¬ LogSafe t' := by
  obtain ⟨s', hs', rfl⟩ := Option.map_eq_some_iff.mp hs
  obtain ⟨hfault, verdict, rfl⟩ := step_fopen hs'
  intro hsafe
  rcases verdict with _ | seekto
  · have hcall : (step (t.1.fopen i none false) (i, .fflush)).isSome = true := by
      simp [step, State.fopen, goto, put, State.onLog, hfault]
    exact (hsafe.used i .fflush rfl hcall).notNull rfl
  · have hcall : (step (t.1.fopen i (some seekto) false) (i, .ioctl false false)).isSome = true := by
      simp [step, State.fopen, goto, put, State.ioctl, State.onLog, hfault]
    exact (hsafe.used i (.ioctl false false) rfl hcall).notNull rfl

/-! ### Runs -/

/-- The ledger only watches: a run of the threads is one with the ledger. -/
theorem run_traced {s s' : State ι} {as : List (ι × Act)} (hr : run step s as = some s')
    (l : Ledger ι) :
    ∃ l', run tracedStep (s, l) (as.map fun a => Event.client a.1 a.2) = some (s', l') := by
  induction as generalizing s l with
  | nil =>
    rw [run_nil, Option.some.injEq] at hr
    exact ⟨l, by rw [hr]; rfl⟩
  | cons a as ih =>
    obtain ⟨s₁, h₁, h₂⟩ := run_cons_some.mp hr
    obtain ⟨l', hl'⟩ := ih h₂ (l.record a.1 a.2)
    exact ⟨l', run_cons_some.mpr ⟨_, by simp [tracedStep, h₁], hl'⟩⟩

/-- While only client threads run, the condition is that every `fopen` succeeds. -/
theorem meets_traced {as : List (ι × Act)} (ha : ∀ a ∈ as, Smooth a.2) (t : State ι × Ledger ι) :
    Meets tracedStep Opens t (as.map fun a => Event.client a.1 a.2) := by
  induction as generalizing t with
  | nil => trivial
  | cons a as ih =>
    refine ⟨?_, fun t' _ => ih (fun b hb => ha b (List.mem_cons_of_mem a hb)) t'⟩
    obtain ⟨i, act⟩ := a
    have hsmooth : Smooth act := ha (i, act) List.mem_cons_self
    cases act <;> trivial

/-- A whole session of one client. -/
theorem log_safe_line :
    ∃ es t, run tracedStep (EndToEnd.start, Ledger.init) es = some t ∧ t.1.done ≠ [] ∧
      LogSafe t := by
  obtain ⟨as, s₁, hall, hrun, -, hcur, -⟩ := EndToEnd.run_start_line
  have hgood : Good s₁ :=
    Meets.invariant Refinement.good_step (good_init EndToEnd.init_start) (Meets.of_forall hall) hrun
  obtain ⟨bs, s₂, sent, ret, hbs, hrun', -, hdone⟩ := EndToEnd.finishes hgood hcur
  have hrun₂ : run step EndToEnd.start (as ++ bs) = some s₂ := by
    rw [run_append, hrun]
    exact hrun'
  have hall₂ : ∀ a ∈ as ++ bs, Smooth a.2 :=
    List.forall_mem_append.mpr ⟨hall, fun a hm => (hbs a hm).2⟩
  obtain ⟨l, hl⟩ := run_traced hrun₂ Ledger.init
  exact ⟨_, _, hl, by simp [hdone],
    log_safe EndToEnd.init_start (meets_traced hall₂ (EndToEnd.start, Ledger.init)) hl⟩

/-- **The descriptors run out**: a client sends the line `"a\n"`, and `fopen` fails; `fwrite` is called
with `NULL`. -/
theorem failed_fopen_run :
    ∃ es t, run tracedStep (EndToEnd.start, Ledger.init) es = some t ∧
      t.1.holder = some ⟨0, [97, newline], none, []⟩ ∧ t.1.log = none ∧
      (∃ t', tracedStep t (.client 0 (.write 2 EndToEnd.writeEnv)) = some t' ∧
        t'.1.fault = true) ∧ ¬ LogSafe t := by
  obtain ⟨as, s₁, hall, hrun, -, hcur, hpc⟩ := EndToEnd.run_start_line
  have hgood : Good s₁ :=
    Meets.invariant Refinement.good_step (good_init EndToEnd.init_start) (Meets.of_forall hall) hrun
  have hs : step s₁ (0, .fopen false) = some (s₁.fopen 0 none false) := by
    simp [step, hgood.sane, hpc]
  obtain ⟨l, hl⟩ := run_traced hrun Ledger.init
  have hfail : tracedStep (s₁, l) (.client 0 (.fopen false)) =
      some (s₁.fopen 0 none false, l.openLogFile 0 false) := by
    simp [tracedStep, hs, Ledger.record]
  have hwrite : tracedStep (s₁.fopen 0 none false, l.openLogFile 0 false)
      (.client 0 (.write 2 EndToEnd.writeEnv)) =
        some ((s₁.fopen 0 none false).crash, l.openLogFile 0 false) := by
    simp [tracedStep, Ledger.record, step, State.fopen, goto, put, State.write, State.onLog,
      hgood.sane]
  refine ⟨as.map (fun a => Event.client a.1 a.2) ++ [.client 0 (.fopen false)], _, ?_, hcur, rfl,
    ⟨_, hwrite, rfl⟩, failed_fopen hfail⟩
  rw [run_append, hl]
  exact run_cons_some.mpr ⟨_, hfail, rfl⟩

end Aesd.Server.LogStream
