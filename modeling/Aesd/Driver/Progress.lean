import Aesd.Lib.Progress
import Aesd.Driver.Linearize

/-!
# The calls of the driver return

`work` bounds the steps a call still has to make; the loop of `aesd_read` makes it smaller because a round
copies at least one byte. Among openers of which none can go on without a lock, nobody holds the semaphore,
and who holds `temp_entry_mutex` waits for the semaphore (`unaided_step`). So whoever is let run, and
whatever fails, the calls under way return (`calls_return`).
-/

namespace Aesd.Driver.Progress

open Aesd.Lib.Lts Aesd.Lib.Objects Aesd.Lib.SharedLock Aesd.Lib.Progress
open Aesd.Driver.Ring.CircularBuffer hiding init
open Aesd.Driver.Device Aesd.Driver.Traversal
open Aesd.Driver.Calls Aesd.Driver.Atomic Aesd.Driver.Beside Aesd.Driver.Linearize

/-- How many steps an opener is away from having returned, at most. -/
def work : Pc → ℕ
  | .idle => 0
  | .ret _ => 1
  | .setPos .. | .seek .. | .unlockTemp _ => 2
  | .upRead .. | .upSeek .. | .upWrite _ | .giveUp .. => 3
  | .clear _ | .findEOF .. => 4
  | .free .. | .downSeek .. => 5
  | .add _ | .upIoctl _ => 6
  | .downWrite _ | .findAbsolute _ => 7
  | .test _ | .downIoctl _ => 8
  | .count _ | .copyCmd _ => 9
  | .copyIn _ => 10
  | .grow _ => 11
  | .lockTemp _ => 12
  | .copyOut _ _ _ count .. => 2 * count + 3
  | .find count .. => 2 * count + 4
  | .downRead _ ubuf => 2 * ubuf.length + 5
  | .enter (.write _) => 13
  | .enter (.read ubuf) => 2 * ubuf.length + 6
  | .enter (.llseek ..) => 6
  | .enter (.ioctl ..) => 10

/-- A step of a call under way. -/
def onward : Act → Bool
  | .call _ => false
  | _ => true

/-- Such a step that no fatal signal helps. -/
def unaided : Act → Bool
  | .call _ | .lock true => false
  | _ => true

/-- What an opener can do next without a lock. -/
def ready : Pc → Option Act
  | .idle | .lockTemp _ | .downWrite _ | .downRead .. | .downSeek .. | .downIoctl _ => none
  | .grow _ => some (.alloc (.ok false fun _ => 0))
  | .copyIn _ | .copyOut .. | .copyCmd _ => some (.copy none)
  | .ret _ => some .ret
  | _ => some .go

variable {ι : Type*} [DecidableEq ι] {s s' : State ι} {m : Atomic ι (Files ι) Call Result} {i : ι}
  {act : Act}

/-! ### The work gets less -/

/-- The opener `i` has gone on, and is nearer to its return. -/
def Nearer (s s' : State ι) (i : ι) : Prop :=
  ∃ pc, s'.pc = Function.update s.pc i pc ∧ work pc < work (s.pc i)

theorem Nearer.goto {pc : Pc} (h : work pc < work (s.pc i)) (hs : s'.pc = s.pc) :
    Nearer s (s'.goto i pc) i := ⟨pc, by rw [State.goto, hs], h⟩

theorem nearer_enter {c : Call} (hpc : s.pc i = .enter c) : Nearer s (s.enter i c) i := by
  cases c with
  | write buf =>
    refine .goto ?_ rfl
    rw [hpc]
    split_ifs <;> simp [work]
  | read ubuf => exact .goto (by rw [hpc]; simp [work]) rfl
  | llseek offset whence => exact .goto (by rw [hpc]; simp [work]) rfl
  | ioctl cmd seekto =>
    refine .goto ?_ rfl
    rw [hpc]
    split_ifs <;> simp [work]

theorem nearer_find {count retval charOffset : ℕ} {ubuf : Bytes}
    (hpc : s.pc i = .find count retval charOffset ubuf) :
    Nearer s (s.find i count retval charOffset ubuf) i := by
  unfold State.find
  split_ifs
  · exact .goto (by rw [hpc]; simp [work]) rfl
  split
  · exact .goto (by rw [hpc]; simp [work]) rfl
  · exact .goto (by rw [hpc]; simp [work]) rfl

theorem nearer_copyOut (h : Rel s m)
    {entry entryOffset copySize count retval charOffset : ℕ} {ubuf : Bytes}
    (hpc : s.pc i = .copyOut entry entryOffset copySize count retval charOffset ubuf)
    {fault : Option ℕ}
    (hs : s.copyOut i entry entryOffset copySize count retval charOffset ubuf fault = some s') :
    Nearer s s' i := by
  have hc := h.caller i
  rw [hpc] at hc
  obtain ⟨-, -, -, -, hzero, hf, hsize⟩ := hc
  have hlt := findEntryOffsetForFpos_lt hf
  obtain ⟨src, -, rfl⟩ := Option.map_eq_some_iff.mp hs
  refine .goto ?_ rfl
  rw [hpc]
  rcases fault with _ | copied
  · simp only [work]
    omega
  · simp only [work]
    omega

theorem nearer_downRead {killed : Bool} {failed pc : Pc} (hfailed : work failed < work (s.pc i))
    (hpc : work pc < work (s.pc i)) (hs : s.downRead i killed failed pc = some s') :
    Nearer s s' i := by
  unfold State.downRead at hs
  split_ifs at hs
  · exact Option.some.inj hs ▸ .goto hfailed rfl
  · obtain ⟨l, -, rfl⟩ := Option.map_eq_some_iff.mp hs
    exact .goto hpc rfl

/-- **Every step of a call under way brings its return nearer.** -/
theorem nearer_step (h : Rel s m) (hact : onward act = true) (hs : step s (i, act) = some s')
    (hsane : s'.fault = false) : Nearer s s' i := by
  have hcrash : ∀ {o : Option (State ι)}, some (o.getD s.crash) = some s' → o = some s' := by
    intro o ho
    cases o with
    | none =>
      rw [← Option.some.inj ho] at hsane
      cases hsane
    | some s₁ => exact ho
  simp only [step, h.sane, Bool.false_eq_true, if_false] at hs
  split at hs
  · cases hact
  · next hpc => exact Option.some.inj hs ▸ nearer_enter hpc
  · next hpc =>
    unfold State.lockTemp at hs
    split_ifs at hs <;> exact Option.some.inj hs ▸ .goto (by rw [hpc]; simp [work]) rfl
  · next hpc =>
    obtain ⟨⟨p, heap⟩, -, rfl⟩ := Option.map_eq_some_iff.mp (hcrash hs)
    refine .goto ?_ rfl
    rw [hpc]
    split_ifs <;> simp [work]
  · next hpc =>
    obtain ⟨heap, -, rfl⟩ := Option.map_eq_some_iff.mp (hcrash hs)
    exact .goto (by rw [hpc]; simp [work]) rfl
  · next buf fault hpc =>
    obtain ⟨q, -, hq⟩ := Option.bind_eq_some_iff.mp (hcrash hs)
    cases fault <;> obtain ⟨heap, -, rfl⟩ := Option.map_eq_some_iff.mp hq
    · exact .goto (by rw [hpc]; simp [work]) rfl
    · exact .goto (by rw [hpc]; simp [work]) rfl
  · next hpc => exact Option.some.inj hs ▸ .goto (by rw [hpc]; simp [work]) rfl
  · next hpc =>
    obtain ⟨q, -, hq⟩ := Option.bind_eq_some_iff.mp (hcrash hs)
    obtain ⟨last, -, rfl⟩ := Option.map_eq_some_iff.mp hq
    refine .goto ?_ rfl
    rw [hpc]
    split_ifs <;> simp [work]
  · next hpc =>
    unfold State.downWrite at hs
    split_ifs at hs
    · exact Option.some.inj hs ▸ .goto (by rw [hpc]; simp [work]) rfl
    · obtain ⟨l, -, rfl⟩ := Option.map_eq_some_iff.mp hs
      exact .goto (by rw [hpc]; simp [work]) rfl
  · next hpc => exact Option.some.inj hs ▸ .goto (by rw [hpc]; simp [work]) rfl
  · next hpc =>
    obtain ⟨heap, -, rfl⟩ := Option.map_eq_some_iff.mp (hcrash hs)
    exact .goto (by rw [hpc]; simp [work]) rfl
  · next hpc => exact Option.some.inj hs ▸ .goto (by rw [hpc]; simp [work]) rfl
  · next hpc => exact Option.some.inj hs ▸ .goto (by rw [hpc]; simp [work]) rfl
  · next hpc => exact Option.some.inj hs ▸ .goto (by rw [hpc]; simp [work]) rfl
  · next hpc =>
    exact nearer_downRead (by rw [hpc]; simp [work]) (by rw [hpc]; simp [work]) hs
  · next hpc => exact Option.some.inj hs ▸ nearer_find hpc
  · next hpc => exact nearer_copyOut h hpc (hcrash hs)
  · next hpc => exact Option.some.inj hs ▸ .goto (by rw [hpc]; simp [work]) rfl
  · next hpc => exact Option.some.inj hs ▸ .goto (by rw [hpc]; simp [work]) rfl
  · next hpc =>
    exact nearer_downRead (by rw [hpc]; simp [work]) (by rw [hpc]; simp [work]) hs
  · next hpc => exact Option.some.inj hs ▸ .goto (by rw [hpc]; simp [work]) rfl
  · next hpc => exact Option.some.inj hs ▸ .goto (by rw [hpc]; simp [work]) rfl
  · next hpc => exact Option.some.inj hs ▸ .goto (by rw [hpc]; simp [work]) rfl
  · next hpc =>
    refine Option.some.inj hs ▸ .goto ?_ rfl
    rw [hpc]
    split_ifs <;> simp [work]
  · next hpc =>
    exact nearer_downRead (by rw [hpc]; simp [work]) (by rw [hpc]; simp [work]) hs
  · next hpc => exact Option.some.inj hs ▸ .goto (by rw [hpc]; simp [work]) rfl
  · next hpc =>
    refine Option.some.inj hs ▸ .goto ?_ rfl
    rw [hpc]
    split_ifs <;> simp [work]
  · next hpc => exact Option.some.inj hs ▸ .goto (by rw [hpc]; simp [work]) rfl
  · cases hs

/-! ### Somebody can go on -/

theorem step_ready (hsane : s.fault = false) (hr : ready (s.pc i) = some act) :
    unaided act = true ∧ ∃ s', step s (i, act) = some s' := by
  simp only [step, hsane, Bool.false_eq_true, if_false]
  cases hpc : s.pc i <;> rw [hpc] at hr <;> cases hr <;> exact ⟨rfl, _, rfl⟩

/-- With `temp_entry_mutex` an opener waits for nothing but the semaphore. -/
theorem downWrite_of_locked {pc : Pc} (hl : locked pc = true) (hr : ready pc = none) :
    ∃ buf, pc = .downWrite buf := by
  cases pc <;> first | exact ⟨_, rfl⟩ | (cases hl; done) | cases hr

/-- **No deadlock**: while a call is under way, somebody can go on that no signal helps. -/
theorem unaided_step (h : Rel s m) (hidle : ¬ ∀ i, s.pc i = .idle) :
    ∃ a s', unaided a.2 = true ∧ step s a = some s' := by
  by_cases hready : ∃ i act, ready (s.pc i) = some act
  · obtain ⟨i, act, hr⟩ := hready
    obtain ⟨hu, s', hs'⟩ := step_ready h.sane hr
    exact ⟨(i, act), s', hu, hs'⟩
  -- everybody waits for a lock, so nobody holds the semaphore
  have hwait : ∀ i, ready (s.pc i) = none := by
    intro i
    by_contra hne
    obtain ⟨act, hact⟩ := Option.ne_none_iff_exists'.mp hne
    exact hready ⟨i, act, hact⟩
  have hout : ∀ i, reading (s.pc i) = false ∧ writing (s.pc i) = false := by
    intro i
    have hw := hwait i
    cases hpc : s.pc i <;> rw [hpc] at hw <;> first | exact ⟨rfl, rfl⟩ | cases hw
  have hfree : s.circularBufferSemaphore = RwLock.free :=
    h.sem.eq_free (fun i => by simp [(hout i).1]) fun i => by simp [(hout i).2]
  have hread : ∀ i failed pc, ∃ s', s.downRead i false failed pc = some s' := by
    intro i failed pc
    simp [State.downRead, hfree, RwLock.downRead, RwLock.free]
  have hwrite : ∀ i buf, s.pc i = .downWrite buf → ∃ s', step s (i, .lock false) = some s' := by
    intro i buf hpc
    simp [step, h.sane, hpc, State.downWrite, hfree, RwLock.downWrite, RwLock.free]
  push Not at hidle
  obtain ⟨i, hi⟩ := hidle
  have hw := hwait i
  cases hpc : s.pc i with
  | idle => exact absurd hpc hi
  | downWrite buf =>
    obtain ⟨s', hs'⟩ := hwrite i buf hpc
    exact ⟨(i, .lock false), s', rfl, hs'⟩
  | downRead charOffset ubuf =>
    obtain ⟨s', hs'⟩ := hread i (.ret ⟨-eintr, ubuf⟩) (.find ubuf.length 0 charOffset ubuf)
    exact ⟨(i, .lock false), s', rfl, by simp [step, h.sane, hpc, hs']⟩
  | downSeek offset whence =>
    obtain ⟨s', hs'⟩ := hread i (.ret ⟨-eintr, []⟩) (.findEOF offset whence)
    exact ⟨(i, .lock false), s', rfl, by simp [step, h.sane, hpc, hs']⟩
  | downIoctl seekto =>
    obtain ⟨s', hs'⟩ := hread i (.ret ⟨-eintr, []⟩) (.findAbsolute seekto)
    exact ⟨(i, .lock false), s', rfl, by simp [step, h.sane, hpc, hs']⟩
  | lockTemp buf =>
    rcases hm : s.tempEntryMutex with _ | j
    · exact ⟨(i, .lock false), _, rfl, by simp [step, h.sane, hpc, State.lockTemp, hm]; rfl⟩
    · -- the holder waits for the semaphore
      have hl : locked (s.pc j) = true := (h.mutex j).mpr hm
      obtain ⟨buf', hpcj⟩ := downWrite_of_locked hl (hwait j)
      obtain ⟨s', hs'⟩ := hwrite j buf' hpcj
      exact ⟨(j, .lock false), s', rfl, hs'⟩
  | _ =>
    rw [hpc] at hw
    cases hw

/-! ### Every call -/

theorem sum_work_lt [Fintype ι] (h : Nearer s s' i) :
    ∑ j, work (s'.pc j) < ∑ j, work (s.pc j) := by
  obtain ⟨pc, hpc, hlt⟩ := h
  have hsum := sum_update s.pc work (Finset.mem_univ i) pc
  rw [hpc]
  omega

/-- **Every call returns.** From every state the driver gets into, whoever of the openers that are in a
call is let run, and whatever the kernel decides, all of them return; there is no deadlock on the way. -/
theorem calls_return [Finite ι] {as : List (ι × Act)} (hr : run step (init ι) as = some s) :
    Inevitable step (fun a => onward a.2 = true) (fun a => unaided a.2 = true)
      (fun s => ∀ i, s.pc i = .idle) s := by
  have := Fintype.ofFinite ι
  have hkeep : ∀ (s : State ι) a s', (∃ m, Rel s m) → step s a = some s' → ∃ m, Rel s' m := by
    rintro s a s' ⟨m, hm⟩ hs
    obtain ⟨-, m', -, -, hm'⟩ := rel_step s a s' m hm hs
    exact ⟨m', hm'⟩
  refine inevitable_of_measure (P := fun s => ∃ m, Rel s m) (fun s => ∑ i, work (s.pc i))
    (fun s a s' h _ hs => hkeep s a s' h hs) ?_ ?_ (run_invariant hkeep ⟨_, rel_init⟩ hr)
  · rintro s a s' ⟨m, hm⟩ ha hs
    obtain ⟨m', hm'⟩ := hkeep s a s' ⟨m, hm⟩ hs
    exact sum_work_lt (nearer_step hm ha hs hm'.sane)
  · rintro s ⟨m, hm⟩ hidle
    exact unaided_step hm hidle

/-- The writer waits for the semaphore while the reader is in its call. -/
theorem calls_return_twoOpeners : ∃ s, run step (init Bool) (twoOpeners.take 10) = some s ∧
    s.circularBufferSemaphore.readers = {true} ∧
    Inevitable step (fun a => onward a.2 = true) (fun a => unaided a.2 = true)
      (fun s => ∀ i, s.pc i = .idle) s := by
  have hrun : (run step (init Bool) (twoOpeners.take 10)).any
      (fun s => decide (s.circularBufferSemaphore.readers = {true})) = true := by decide +kernel
  obtain ⟨s, hs, hreaders⟩ := (Option.any_eq_true _ _).mp hrun
  exact ⟨s, hs, of_decide_eq_true hreaders, calls_return hs⟩

end Aesd.Driver.Progress
