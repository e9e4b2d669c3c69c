import Aesd.Driver.Device
import Aesd.Lib.Files
import Aesd.Lib.Lock
import Aesd.Lib.Lts

/-!
# The log in a file

Built with `USE_AESD_CHAR_DEVICE = 0`, the server opens `LOG_FILE_NAME` once, and all threads share the
stream `log_file` and its position: the client threads in `flush_packet_to_client`, and the timestamp
thread in `add_time_stamp_to_log_file`. Both write where the last user left the position.

`send_file` moves the position to the start and reads on. Whichever way it ends (the first seek fails, a
`send` fails, the last seek fails), it has either not moved the position or read the file to its end. So
the log is append-only (`append_only`): a free `log_file_mutex` leaves the position at the end, the file
is the records in the order of the lock, and a packet whose flush succeeds is answered with the file up
to its own record.
-/

namespace Aesd.Server.FileLog

open Aesd.Lib.Files Aesd.Lib.Lock Aesd.Lib.Lts
open Aesd.Driver.Device

/-- `"timestamp:"` -/
def timestampPrefix : Bytes := [116, 105, 109, 101, 115, 116, 97, 109, 112, 58]

/-- What a thread does with the log: `flush_packet_to_client` with `send_buffer_size`, or
`add_time_stamp_to_log_file` with what `strftime` wrote. -/
inductive Job
  | flush (packet : Bytes) (sendBufferSize : ℕ+)
  | stamp (timestampBuffer : Bytes)
  deriving DecidableEq

/-- What `fwrite` or `fprintf` is given. -/
def Job.record : Job → Bytes
  | .flush packet _ => packet
  | .stamp timestampBuffer => timestampPrefix ++ timestampBuffer ++ [newline]

/-- Where a thread is; `ret` is whether `ret_val` is `EXIT_SUCCESS`. -/
inductive Pc
  | outside
  /-- before `pthread_mutex_lock` -/
  | lock (job : Job)
  /-- before `fwrite` or `fprintf`, and `fflush` -/
  | write (job : Job)
  /-- before the first `fseek` of `send_file` -/
  | seekSet (bufferSize : ℕ+)
  /-- before `fread` -/
  | read (bufferSize : ℕ+) (ret : Bool)
  /-- in the loop over `send`, with what is left of the block -/
  | send (bufferSize : ℕ+) (ret : Bool) (left : Bytes)
  /-- before the second `fseek` of `send_file` -/
  | seekEnd (ret : Bool)
  /-- before `pthread_mutex_unlock` -/
  | unlock (ret : Bool)

/-- A stay under `log_file_mutex`: the thread, its job, and what its client was sent. -/
structure Session (ι : Type*) where
  thread : ι
  job : Job
  sent : Bytes
  deriving DecidableEq

/-- `log_file`, the holder of `log_file_mutex` with its session, the threads, and the sessions that are
over, in the order of the lock, with what they returned. -/
structure State (ι : Type*) where
  logFile : OpenFile UInt8
  holder : Option (Session ι)
  pc : ι → Pc
  done : List (Session ι × Bool)

/-- The outcome of a thread's next call; `none` in `send` is `-1`. -/
inductive Act
  | call (job : Job)
  | lock
  | write
  | fseek (ok : Bool)
  | fread (n : ℕ)
  | send (sent : Option ℕ)
  | unlock

/-- The state after `open_log_file` in `main`. -/
def init (ι : Type*) : State ι := ⟨OpenFile.empty, none, fun _ => .outside, []⟩

variable {ι : Type*} [DecidableEq ι]

namespace State

def goto (s : State ι) (i : ι) (pc : Pc) : State ι := { s with pc := Function.update s.pc i pc }

/-- `pthread_mutex_lock` -/
def lock (s : State ι) (i : ι) (job : Job) : Option (State ι) :=
  match s.holder with
  | some _ => none
  | none => some ({ s with holder := some ⟨i, job, []⟩ }.goto i (.write job))

/-- `fwrite` or `fprintf`, and `fflush`: the record goes where the position is. -/
def write (s : State ι) (i : ι) (job : Job) : State ι :=
  { s with logFile := s.logFile.write 0 job.record }.goto i
    (match job with
      | .flush _ sendBufferSize => .seekSet sendBufferSize
      | .stamp _ => .unlock true)

/-- The first `fseek`; one that fails ends `send_file`. -/
def seekSet (s : State ι) (i : ι) (bufferSize : ℕ+) (ok : Bool) : State ι :=
  if ok then { s with logFile := s.logFile.seekSet 0 }.goto i (.read bufferSize true)
  else s.goto i (.unlock false)

/-- `fread`, which returns `0` at the end of the file only: then the loop over the file is over. -/
def fread (s : State ι) (i : ι) (bufferSize : ℕ+) (ret : Bool) (n : ℕ) : Option (State ι) :=
  if n = 0 then if s.logFile.left = 0 then some (s.goto i (.seekEnd ret)) else none
  else if n ≤ bufferSize ∧ n ≤ s.logFile.left then
    let r := s.logFile.read n
    some ({ s with logFile := r.2 }.goto i (.send bufferSize ret r.1))
  else none

/-- `send`; one that fails ends the loop over the block, and the loop over the file goes on. -/
def send (s : State ι) (i : ι) (bufferSize : ℕ+) (ret : Bool) (left : Bytes) :
    Option ℕ → Option (State ι)
  | none => some (s.goto i (.read bufferSize false))
  | some k =>
    if k ≤ left.length then
      let holder := s.holder.map fun cur => { cur with sent := cur.sent ++ left.take k }
      some ({ s with holder }.goto i
        (if left.drop k = [] then .read bufferSize ret else .send bufferSize ret (left.drop k)))
    else none

/-- The second `fseek`. -/
def seekEnd (s : State ι) (i : ι) (ret ok : Bool) : State ι :=
  if ok then { s with logFile := s.logFile.seekEnd }.goto i (.unlock ret)
  else s.goto i (.unlock false)

/-- `pthread_mutex_unlock` -/
def unlock (s : State ι) (i : ι) (ret : Bool) : State ι :=
  { s with holder := none, done := s.done ++ s.holder.toList.map fun cur => (cur, ret) }.goto i .outside

end State

/-- **One step**: the next call of the thread. -/
def step (s : State ι) : ι × Act → Option (State ι)
  | (i, act) =>
    match s.pc i, act with
    | .outside, .call job => some (s.goto i (.lock job))
    | .lock job, .lock => s.lock i job
    | .write job, .write => some (s.write i job)
    | .seekSet bufferSize, .fseek ok => some (s.seekSet i bufferSize ok)
    | .read bufferSize ret, .fread n => s.fread i bufferSize ret n
    | .send bufferSize ret left, .send sent => s.send i bufferSize ret left sent
    | .seekEnd ret, .fseek ok => some (s.seekEnd i ret ok)
    | .unlock ret, .unlock => some (s.unlock i ret)
    | _, _ => none

/-! ### What the log is for -/

/-- The records of sessions that are over. -/
def recordsOf (done : List (Session ι × Bool)) : List Bytes := done.map fun e => e.1.job.record

/-- The thread that holds the mutex has written its record. -/
def wrote : Pc → Bool
  | .write _ => false
  | _ => true

/-- The records written so far, in the order of the lock. -/
def records (s : State ι) : List Bytes :=
  recordsOf s.done ++
    (s.holder.toList.filter fun cur => wrote (s.pc cur.thread)).map fun cur => cur.job.record

/-- **The log is append-only**: a free mutex leaves the position at the end, the file is the records in
the order of the lock, and a packet whose flush succeeded was answered with the file as it was after
it. -/
structure AppendOnly (s : State ι) : Prop where
  atEnd : s.holder = none → s.logFile.AtEnd
  file : s.logFile.file = (records s).flatten
  answered : ∀ earlier cur later, s.done = earlier ++ (cur, true) :: later →
    ∀ packet sendBufferSize, cur.job = .flush packet sendBufferSize →
      cur.sent = (recordsOf earlier).flatten ++ packet

/-! ### The invariant -/

/-- The thread holds the mutex. -/
def critical : Pc → Bool
  | .outside | .lock _ => false
  | _ => true

/-- How far the session is: until the record is written the position is the end; then what was sent is
the file before the position, if no `send` failed, and the file is left at its end. -/
def Phase (f : OpenFile UInt8) (cur : Session ι) : Pc → Prop
  | .write job => f.AtEnd ∧ cur.job = job ∧ cur.sent = []
  | .seekSet _ => f.AtEnd ∧ cur.sent = []
  | .read _ ret => f.pos ≤ f.file.length ∧ (ret = true → cur.sent = f.before)
  | .send _ ret left => f.pos ≤ f.file.length ∧ (ret = true → cur.sent ++ left = f.before)
  | .seekEnd ret | .unlock ret => f.AtEnd ∧
      (ret = true → ∀ packet sendBufferSize, cur.job = .flush packet sendBufferSize →
        cur.sent = f.file)
  | _ => False

structure Good (s : State ι) : Prop where
  appendOnly : AppendOnly s
  exclusive : Excl (s.holder.map Session.thread) fun i => critical (s.pc i) = true
  phase : ∀ cur, s.holder = some cur → Phase s.logFile cur (s.pc cur.thread)

omit [DecidableEq ι] in
theorem records_free {s : State ι} (h : s.holder = none) : records s = recordsOf s.done := by
  simp [records, h]

omit [DecidableEq ι] in
theorem records_held {s : State ι} {cur : Session ι} (h : s.holder = some cur) :
    records s = recordsOf s.done ++ if wrote (s.pc cur.thread) then [cur.job.record] else [] := by
  unfold records
  rw [h]
  split_ifs with hw <;> simp [hw]

omit [DecidableEq ι] in
theorem good_init : Good (init ι) := by
  refine ⟨⟨fun _ => OpenFile.atEnd_empty, rfl, fun earlier cur later h => ?_⟩, fun i => ?_,
    fun cur h => by cases h⟩
  · exact absurd h (by simp [init])
  · simp [init, critical]

section Good
variable {s s' : State ι} {i : ι} (h : Good s)
include h

omit [DecidableEq ι] in
theorem Good.held (hc : critical (s.pc i) = true) : ∃ cur, s.holder = some cur ∧ cur.thread = i :=
  Option.map_eq_some_iff.mp ((h.exclusive i).mp hc)

omit [DecidableEq ι] in
/-- After the write the file ends with the record of the session. -/
theorem Good.file_of_wrote {cur : Session ι} (hcur : s.holder = some cur)
    (hw : wrote (s.pc cur.thread) = true) :
    s.logFile.file = (recordsOf s.done).flatten ++ cur.job.record := by
  rw [h.appendOnly.file, records_held hcur, if_pos hw]
  simp

theorem Good.outside {pc : Pc} (hpc : critical (s.pc i) = false) (hpc' : critical pc = false) :
    Good (s.goto i pc) := by
  have hne : ∀ cur, s.holder = some cur → cur.thread ≠ i := by
    rintro cur hcur rfl
    have hin : critical (s.pc cur.thread) = true := (h.exclusive _).mpr (by rw [hcur]; rfl)
    rw [hpc] at hin
    cases hin
  have hsame : ∀ cur, s.holder = some cur → (s.goto i pc).pc cur.thread = s.pc cur.thread :=
    fun cur hcur => Function.update_of_ne (hne cur hcur) _ _
  have hrecords : records (s.goto i pc) = records s := by
    rcases hh : s.holder with _ | cur
    · rw [records_free hh, records_free (show (s.goto i pc).holder = none from hh)]
      rfl
    · rw [records_held hh, records_held (show (s.goto i pc).holder = some cur from hh), hsame cur hh]
      rfl
  refine ⟨⟨h.appendOnly.atEnd, hrecords ▸ h.appendOnly.file, h.appendOnly.answered⟩, ?_,
    fun cur hcur => ?_⟩
  · refine h.exclusive.keep (u := i) (fun j hj => ?_) ?_
    · simp only [State.goto, Function.update_of_ne hj]
    · simp [State.goto, hpc, hpc']
  · rw [hsame cur hcur]
    exact h.phase cur hcur

theorem Good.lock {job : Job} (hs : s.lock i job = some s') : Good s' := by
  unfold State.lock at hs
  rcases hh : s.holder with _ | cur
  swap
  · simp [hh] at hs
  simp only [hh, Option.some.injEq] at hs
  subst hs
  have hfree : Excl none fun j => critical (s.pc j) = true := by simpa [hh] using h.exclusive
  refine ⟨⟨fun hn => (by cases hn), ?_, h.appendOnly.answered⟩, ?_, fun cur hcur => ?_⟩
  · rw [records_held rfl]
    simpa [State.goto, wrote, records_free hh] using h.appendOnly.file
  · refine hfree.take (u := i) (fun j hj => ?_) ?_
    · simp only [State.goto, Function.update_of_ne hj]
    · simp [State.goto, critical]
  · rw [← Option.some.inj hcur]
    simp only [State.goto, Function.update_self]
    exact ⟨h.appendOnly.atEnd hh, rfl, rfl⟩

theorem Good.inside {cur cur' : Session ι} {pc : Pc} (hcur : s.holder = some cur)
    (hpc : s'.pc = Function.update s.pc cur.thread pc) (hdone : s'.done = s.done)
    (hholder : s'.holder = some cur') (hthread : cur'.thread = cur.thread)
    (hjob : cur'.job = cur.job) (hcrit : critical pc = true) (hwrote : wrote pc = true)
    (hfile : s'.logFile.file = (recordsOf s.done).flatten ++ cur.job.record)
    (hphase : Phase s'.logFile cur' pc) : Good s' := by
  have hself : s'.pc cur.thread = pc := by rw [hpc, Function.update_self]
  have hin : critical (s.pc cur.thread) = true := (h.exclusive _).mpr (by rw [hcur]; rfl)
  refine ⟨⟨fun hn => ?_, ?_, ?_⟩, ?_, fun e he => ?_⟩
  · rw [hholder] at hn
    cases hn
  · rw [records_held hholder, hthread, hself, if_pos hwrote, hdone, hjob, hfile]
    simp
  · rw [hdone]
    exact h.appendOnly.answered
  · rw [hholder, Option.map_some, hthread]
    have hexcl := h.exclusive
    rw [hcur, Option.map_some] at hexcl
    refine hexcl.keep (u := cur.thread) (fun j hj => ?_) ?_
    · rw [hpc, Function.update_of_ne hj]
    · rw [hself, hcrit, hin]
  · rw [hholder, Option.some.injEq] at he
    rw [← he, hthread, hself]
    exact hphase

theorem Good.unlock {ret : Bool} (hpc : s.pc i = .unlock ret) : Good (s.unlock i ret) := by
  obtain ⟨cur, hcur, rfl⟩ := h.held (i := i) (by rw [hpc]; rfl)
  obtain ⟨hend, hsent⟩ : Phase s.logFile cur (.unlock ret) := hpc ▸ h.phase cur hcur
  have hfile := h.file_of_wrote hcur (by rw [hpc]; rfl)
  have hdone : (s.unlock cur.thread ret).done = s.done ++ [(cur, ret)] := by
    simp [State.unlock, State.goto, hcur]
  refine ⟨⟨fun _ => hend, ?_, fun earlier e later he => ?_⟩, ?_, fun e he => by cases he⟩
  · rw [records_free rfl, hdone, show (s.unlock cur.thread ret).logFile = s.logFile from rfl, hfile]
    simp [recordsOf]
  · rw [hdone] at he
    intro packet sendBufferSize hjob
    rcases List.eq_nil_or_concat later with rfl | ⟨later, x, rfl⟩
    · -- the session that is over now
      obtain ⟨rfl, hlast⟩ := List.append_inj' he rfl
      obtain ⟨rfl, rfl⟩ := Prod.mk.inj (List.singleton_inj.mp hlast)
      rw [hsent rfl packet sendBufferSize hjob, hfile, hjob]
      rfl
    · rw [List.concat_eq_append, ← List.cons_append, ← List.append_assoc] at he
      obtain ⟨he, -⟩ := List.append_inj' he rfl
      exact h.appendOnly.answered earlier e later he packet sendBufferSize hjob
  · have hexcl := h.exclusive
    rw [hcur, Option.map_some] at hexcl
    refine hexcl.give (u := cur.thread) (fun j hj => ?_) ?_ ?_
    · simp [State.unlock, State.goto, Function.update_of_ne hj]
    · rw [hpc]
      rfl
    · simp [State.unlock, State.goto, critical]

/-! ### The steps of a session -/

theorem Good.write {job : Job} (hpc : s.pc i = .write job) : Good (s.write i job) := by
  obtain ⟨cur, hcur, rfl⟩ := h.held (i := i) (by rw [hpc]; rfl)
  obtain ⟨hend, rfl, hsent⟩ : Phase s.logFile cur (.write job) := hpc ▸ h.phase cur hcur
  have hbefore : s.logFile.file = (recordsOf s.done).flatten := by
    rw [h.appendOnly.file, records_held hcur, hpc]
    simp [wrote]
  have hfile := OpenFile.file_write hend 0 cur.job.record
  have hend' := OpenFile.atEnd_write hend 0 cur.job.record
  rw [hbefore] at hfile
  rcases hjob : cur.job with ⟨packet, sendBufferSize⟩ | timestampBuffer
  · rw [hjob] at hfile hend'
    exact h.inside hcur rfl rfl hcur rfl rfl rfl rfl (by rw [hjob]; exact hfile) ⟨hend', hsent⟩
  · rw [hjob] at hfile hend'
    refine h.inside hcur rfl rfl hcur rfl rfl rfl rfl (by rw [hjob]; exact hfile)
      ⟨hend', fun _ packet n hflush => ?_⟩
    rw [hjob] at hflush
    cases hflush

theorem Good.seekSet {bufferSize : ℕ+} (hpc : s.pc i = .seekSet bufferSize) (ok : Bool) :
    Good (s.seekSet i bufferSize ok) := by
  obtain ⟨cur, hcur, rfl⟩ := h.held (i := i) (by rw [hpc]; rfl)
  obtain ⟨hend, hsent⟩ : Phase s.logFile cur (.seekSet bufferSize) := hpc ▸ h.phase cur hcur
  have hfile := h.file_of_wrote hcur (by rw [hpc]; rfl)
  cases ok with
  | true =>
    exact h.inside hcur rfl rfl hcur rfl rfl rfl rfl hfile
      ⟨Nat.zero_le _, fun _ => hsent.trans (OpenFile.before_seekSet_zero s.logFile).symm⟩
  | false =>
    exact h.inside hcur rfl rfl hcur rfl rfl rfl rfl hfile ⟨hend, fun hret => by cases hret⟩

theorem Good.fread {bufferSize : ℕ+} {ret : Bool} (hpc : s.pc i = .read bufferSize ret) {n : ℕ}
    (hs : s.fread i bufferSize ret n = some s') : Good s' := by
  obtain ⟨cur, hcur, rfl⟩ := h.held (i := i) (by rw [hpc]; rfl)
  obtain ⟨hle, hsent⟩ : Phase s.logFile cur (.read bufferSize ret) := hpc ▸ h.phase cur hcur
  have hfile := h.file_of_wrote hcur (by rw [hpc]; rfl)
  unfold State.fread at hs
  split_ifs at hs with hn hleft
  · -- the end of the file, and of the loop
    rw [← Option.some.inj hs]
    have hend := OpenFile.atEnd_of_left hle hleft
    exact h.inside hcur rfl rfl hcur rfl rfl rfl rfl hfile
      ⟨hend, fun hret _ _ _ => (hsent hret).trans hend.before_eq⟩
  · rw [← Option.some.inj hs]
    refine h.inside hcur rfl rfl hcur rfl rfl rfl rfl hfile
      ⟨OpenFile.pos_read_le hle n, fun hret => ?_⟩
    rw [hsent hret]
    exact (OpenFile.before_read s.logFile n).symm

theorem Good.send {bufferSize : ℕ+} {ret : Bool} {left : Bytes}
    (hpc : s.pc i = .send bufferSize ret left) {sent : Option ℕ}
    (hs : s.send i bufferSize ret left sent = some s') : Good s' := by
  obtain ⟨cur, hcur, rfl⟩ := h.held (i := i) (by rw [hpc]; rfl)
  obtain ⟨hle, hsent⟩ : Phase s.logFile cur (.send bufferSize ret left) := hpc ▸ h.phase cur hcur
  have hfile := h.file_of_wrote hcur (by rw [hpc]; rfl)
  rcases sent with _ | k
  · rw [← Option.some.inj hs]
    exact h.inside hcur rfl rfl hcur rfl rfl rfl rfl hfile ⟨hle, fun hret => by cases hret⟩
  · simp only [State.send] at hs
    have hheld : (s.holder.map fun cur => { cur with sent := cur.sent ++ left.take k }) =
        some { cur with sent := cur.sent ++ left.take k } := by
      rw [hcur]
      rfl
    split_ifs at hs with hk hdrop
    · rw [← Option.some.inj hs]
      refine h.inside hcur rfl rfl hheld rfl rfl rfl rfl hfile ⟨hle, fun hret => ?_⟩
      have htake := List.take_append_drop k left
      rw [hdrop, List.append_nil] at htake
      show cur.sent ++ left.take k = _
      rw [htake]
      exact hsent hret
    · rw [← Option.some.inj hs]
      refine h.inside hcur rfl rfl hheld rfl rfl rfl rfl hfile ⟨hle, fun hret => ?_⟩
      show cur.sent ++ left.take k ++ left.drop k = _
      rw [List.append_assoc, List.take_append_drop]
      exact hsent hret

theorem Good.seekEnd {ret : Bool} (hpc : s.pc i = .seekEnd ret) (ok : Bool) :
    Good (s.seekEnd i ret ok) := by
  obtain ⟨cur, hcur, rfl⟩ := h.held (i := i) (by rw [hpc]; rfl)
  obtain ⟨hend, hsent⟩ : Phase s.logFile cur (.seekEnd ret) := hpc ▸ h.phase cur hcur
  have hfile := h.file_of_wrote hcur (by rw [hpc]; rfl)
  cases ok with
  | true =>
    exact h.inside hcur rfl rfl hcur rfl rfl rfl rfl hfile
      ⟨OpenFile.atEnd_seekEnd s.logFile, hsent⟩
  | false =>
    exact h.inside hcur rfl rfl hcur rfl rfl rfl rfl hfile ⟨hend, fun hret => by cases hret⟩

end Good

theorem good_step (s : State ι) (a : ι × Act) (s' : State ι) (h : Good s) (hs : step s a = some s') :
    Good s' := by
  obtain ⟨i, act⟩ := a
  cases hpc : s.pc i <;> cases act <;> simp only [step, hpc, reduceCtorEq] at hs
  case outside.call job => exact Option.some.inj hs ▸ h.outside (by rw [hpc]; rfl) rfl
  case lock.lock job => exact h.lock hs
  case write.write job => exact Option.some.inj hs ▸ h.write hpc
  case seekSet.fseek bufferSize ok => exact Option.some.inj hs ▸ h.seekSet hpc ok
  case read.fread bufferSize ret n => exact h.fread hpc hs
  case send.send bufferSize ret left sent => exact h.send hpc hs
  case seekEnd.fseek ret ok => exact Option.some.inj hs ▸ h.seekEnd hpc ok
  case unlock.unlock ret => exact Option.some.inj hs ▸ h.unlock hpc

/-- **The log in a file is append-only**, whichever threads use it and however the seeks and the `send`s
come out. -/
theorem append_only {s : State ι} (h : Reachable step (· = init ι) s) : AppendOnly s :=
  (h.invariant (fun _ h₀ => h₀ ▸ good_init) good_step).appendOnly

/-- The `send` of the first session fails, and so does its last seek; the second client is sent both
packets. -/
theorem append_only_after_failure :
    ∃ s, Reachable step (· = init ℕ) s ∧ AppendOnly s ∧
      s.done = [(⟨0, .flush [97, newline] 1024, []⟩, false),
        (⟨1, .flush [98, newline] 1024, [97, newline, 98, newline]⟩, true)] := by
  have hrun : (run step (init ℕ)
      [(0, .call (.flush [97, newline] 1024)), (1, .call (.flush [98, newline] 1024)), (0, .lock),
        (0, .write), (0, .fseek true), (0, .fread 1), (0, .send none), (0, .fread 1),
        (0, .send none), (0, .fread 0), (0, .fseek false), (0, .unlock), (1, .lock), (1, .write),
        (1, .fseek true), (1, .fread 4), (1, .send (some 3)), (1, .send (some 1)), (1, .fread 0),
        (1, .fseek true), (1, .unlock)]).map State.done =
          some [(⟨0, .flush [97, newline] 1024, []⟩, false),
            (⟨1, .flush [98, newline] 1024, [97, newline, 98, newline]⟩, true)] := by
    decide
  obtain ⟨s, hs, hdone⟩ := Option.map_eq_some_iff.mp hrun
  have hreach : Reachable step (· = init ℕ) s := ⟨_, _, rfl, hs⟩
  exact ⟨s, hreach, append_only hreach, hdone⟩

end Aesd.Server.FileLog
