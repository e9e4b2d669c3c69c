import Aesd.Lib.Lock
import Aesd.Lib.Progress

/-!
# Threads that obtain a mutex

`start_thread_obtaining_mutex`, called any number of times for any mutexes, and the threads it starts. A
thread goes through `threadfunc` in four steps, each of which is a wait or a call on its mutex; between two
steps the other threads run, and more are started. Nothing else locks the mutexes. A mutex may be `checked`:
then `pthread_mutex_unlock` fails in a thread that does not hold it, which is undefined behaviour for other
mutexes.

In a run in which nothing is undefined for want of memory, by an overflow or by an unlock after a lock that
failed, at most one thread is between the lock and the unlock of a mutex, and each thread returns the data
that it was started with and whether it had the mutex (`threads_report`). Whoever is let run, all of them
return, and the mutexes are free (`threads_return`).
-/

namespace Aesd.Examples.Threading

open Aesd.Lib.Lock Aesd.Lib.Lts Aesd.Lib.Progress

/-- `struct thread_data` -/
structure ThreadData (μ : Type*) where
  mutex : μ
  waitToObtainMs : ℤ
  waitToReleaseMs : ℤ
  threadCompleteSuccess : Bool
  deriving DecidableEq

/-- Where a thread is: before `pthread_create`, before one of the four steps of `threadfunc`, or after its
`return`. -/
inductive Pc (μ : Type*)
  | unstarted
  | obtain (threadParam : ThreadData μ)
  | lock (threadParam : ThreadData μ)
  | release (threadParam : ThreadData μ)
  | unlock (threadParam : ThreadData μ)
  | returned (threadParam : ThreadData μ)
  deriving DecidableEq

structure State (μ τ : Type*) where
  pc : τ → Pc μ
  holder : μ → Option τ
  fault : Bool

/-- What happens: a thread is started, where `malloc` returns memory with some value in
`thread_complete_success` or `NULL`, and `pthread_create` succeeds or not; or it goes on, where
`pthread_mutex_lock` succeeds or not. -/
inductive Act (μ : Type*)
  | start (mutex : μ) (waitToObtainMs waitToReleaseMs : ℤ) (malloc : Option Bool) (create : Bool)
  | usleep
  | lock (ok : Bool)
  | unlock
  deriving DecidableEq

variable {μ τ : Type*}

def init (μ τ : Type*) : State μ τ := ⟨fun _ => .unstarted, fun _ => none, false⟩

/-- The product with 1000 that is passed to `usleep` is an `int`. -/
def Fits (waitMs : ℤ) : Prop := -2 ^ 31 ≤ waitMs * 1000 ∧ waitMs * 1000 < 2 ^ 31

instance (waitMs : ℤ) : Decidable (Fits waitMs) := inferInstanceAs (Decidable (_ ∧ _))

section Step
variable [DecidableEq μ] [DecidableEq τ]

namespace State

def goto (s : State μ τ) (i : τ) (pc : Pc μ) : State μ τ := { s with pc := Function.update s.pc i pc }

/-- Undefined behaviour. -/
def crash (s : State μ τ) : State μ τ := { s with fault := true }

/-- `start_thread_obtaining_mutex`, where the new thread is `i`. -/
def startThreadObtainingMutex (s : State μ τ) (i : τ) (mutex : μ) (waitToObtainMs waitToReleaseMs : ℤ)
    (malloc : Option Bool) (create : Bool) : State μ τ :=
  match malloc with
  | none => s.crash
  | some fill =>
    if create then s.goto i (.obtain ⟨mutex, waitToObtainMs, waitToReleaseMs, fill⟩) else s

/-- `usleep(waitMs * 1000)` -/
def usleep (s : State μ τ) (i : τ) (waitMs : ℤ) (pc : Pc μ) : State μ τ :=
  if Fits waitMs then s.goto i pc else s.crash

/-- `pthread_mutex_lock`, which a thread does not come back from while another one holds the mutex. -/
def lock (s : State μ τ) (i : τ) (d : ThreadData μ) (ok : Bool) : Option (State μ τ) :=
  if ok then
    match s.holder d.mutex with
    | some _ => none
    | none => some ({ s with holder := Function.update s.holder d.mutex (some i) }.goto i (.release d))
  else some (s.goto i (.release { d with threadCompleteSuccess := false }))

/-- `pthread_mutex_unlock` -/
def unlock (checked : μ → Bool) (s : State μ τ) (i : τ) (d : ThreadData μ) : State μ τ :=
  if s.holder d.mutex = some i then
    { s with holder := Function.update s.holder d.mutex none }.goto i (.returned d)
  else if checked d.mutex then s.goto i (.returned { d with threadCompleteSuccess := false })
  else s.crash

end State

/-- **One step** of a thread, or of whoever starts it; none after undefined behaviour. -/
def step (checked : μ → Bool) (s : State μ τ) : τ × Act μ → Option (State μ τ)
  | (i, act) =>
    if s.fault then none
    else match s.pc i, act with
    | .unstarted, .start mutex waitToObtainMs waitToReleaseMs malloc create =>
      some (s.startThreadObtainingMutex i mutex waitToObtainMs waitToReleaseMs malloc create)
    | .obtain d, .usleep =>
      some (s.usleep i d.waitToObtainMs (.lock { d with threadCompleteSuccess := true }))
    | .lock d, .lock ok => s.lock i d ok
    | .release d, .usleep => some (s.usleep i d.waitToReleaseMs (.unlock d))
    | .unlock d, .unlock => some (s.unlock checked i d)
    | _, _ => none

end Step

/-- What the run has to provide: memory, waits that are not too long, and locks that do not fail unless the
mutex is checked. -/
def Sound (checked : μ → Bool) (s : State μ τ) : τ × Act μ → Prop
  | (_, .start _ waitToObtainMs waitToReleaseMs malloc _) =>
    malloc ≠ none ∧ Fits waitToObtainMs ∧ Fits waitToReleaseMs
  | (i, .lock false) =>
    match s.pc i with
    | .lock d => checked d.mutex = true
    | _ => True
  | _ => True

instance (checked : μ → Bool) (s : State μ τ) (a : τ × Act μ) : Decidable (Sound checked s a) := by
  unfold Sound
  split
  · infer_instance
  · split <;> infer_instance
  · infer_instance

/-- The thread is between the lock and the unlock of the mutex. -/
def Inside (m : μ) : Pc μ → Prop
  | .release d | .unlock d => d.mutex = m ∧ d.threadCompleteSuccess = true
  | _ => False

/-- What is known of the data of a thread by where it is. -/
def DataOk (checked : μ → Bool) : Pc μ → Prop
  | .unstarted | .returned _ => True
  | .obtain d => Fits d.waitToObtainMs ∧ Fits d.waitToReleaseMs
  | .lock d => Fits d.waitToReleaseMs ∧ d.threadCompleteSuccess = true
  | .release d => Fits d.waitToReleaseMs ∧ (d.threadCompleteSuccess = false → checked d.mutex = true)
  | .unlock d => d.threadCompleteSuccess = false → checked d.mutex = true

structure Good (checked : μ → Bool) (s : State μ τ) : Prop where
  sane : s.fault = false
  exclusive : ∀ m, Excl (s.holder m) fun i => Inside m (s.pc i)
  data : ∀ i, DataOk checked (s.pc i)

/-- The data is that which the thread was started with. -/
def StartedWith (as : List (τ × Act μ)) (i : τ) (d : ThreadData μ) : Prop :=
  ∃ fill, (i, .start d.mutex d.waitToObtainMs d.waitToReleaseMs (some fill) true) ∈ as

/-- What the steps so far tell of a thread by where it is. -/
def Told (as : List (τ × Act μ)) (i : τ) : Pc μ → Prop
  | .unstarted => (i, .lock true) ∉ as
  | .obtain d | .lock d => (i, .lock true) ∉ as ∧ StartedWith as i d
  | .release d | .unlock d | .returned d =>
    (d.threadCompleteSuccess = true ↔ (i, .lock true) ∈ as) ∧ StartedWith as i d

/-- How a thread goes on when nothing is undefined: where it is then, and who holds the mutexes. -/
inductive Move [DecidableEq μ] (checked : μ → Bool) (s : State μ τ) (i : τ) :
    Act μ → Pc μ → (μ → Option τ) → Prop
  | started {m o r fill} (h : s.pc i = .unstarted) (ho : Fits o) (hr : Fits r) :
      Move checked s i (.start m o r (some fill) true) (.obtain ⟨m, o, r, fill⟩) s.holder
  | failed {m o r fill} (h : s.pc i = .unstarted) :
      Move checked s i (.start m o r (some fill) false) .unstarted s.holder
  | obtain {d} (h : s.pc i = .obtain d) :
      Move checked s i .usleep (.lock { d with threadCompleteSuccess := true }) s.holder
  | take {d} (h : s.pc i = .lock d) (hfree : s.holder d.mutex = none) :
      Move checked s i (.lock true) (.release d) (Function.update s.holder d.mutex (some i))
  | refused {d} (h : s.pc i = .lock d) (hc : checked d.mutex = true) :
      Move checked s i (.lock false) (.release { d with threadCompleteSuccess := false }) s.holder
  | release {d} (h : s.pc i = .release d) : Move checked s i .usleep (.unlock d) s.holder
  | give {d} (h : s.pc i = .unlock d) (hd : d.threadCompleteSuccess = true) :
      Move checked s i .unlock (.returned d) (Function.update s.holder d.mutex none)
  | leave {d} (h : s.pc i = .unlock d) (hd : d.threadCompleteSuccess = false) :
      Move checked s i .unlock (.returned d) s.holder

variable {checked : μ → Bool} {s s' : State μ τ} {i : τ} {act : Act μ} {pc : Pc μ}
  {holder : μ → Option τ}

theorem good_init : Good checked (init μ τ) := by
  refine ⟨rfl, fun m i => ?_, fun _ => trivial⟩
  simp [init, Inside]

section Step
variable [DecidableEq μ] [DecidableEq τ]

/-- **What a step does** in a run in which nothing is undefined. -/
theorem step_move (h : Good checked s) (hG : Sound checked s (i, act))
    (hs : step checked s (i, act) = some s') :
    ∃ pc holder, Move checked s i act pc holder ∧ s' = ⟨Function.update s.pc i pc, holder, false⟩ := by
  obtain ⟨threads, holders, fault⟩ := s
  obtain rfl : fault = false := h.sane
  have hdata := h.data i
  simp only [step, Bool.false_eq_true, if_false] at hs
  split at hs
  · rename_i m o r malloc create hpc
    cases hs
    obtain ⟨hm, ho, hr⟩ := hG
    obtain ⟨fill, rfl⟩ := Option.ne_none_iff_exists'.mp hm
    cases create
    · exact ⟨_, _, .failed hpc, by rw [← hpc, Function.update_eq_self]; rfl⟩
    · exact ⟨_, _, .started hpc ho hr, rfl⟩
  · rename_i d hpc
    cases hs
    simp only [hpc, DataOk] at hdata
    exact ⟨_, _, .obtain hpc, if_pos hdata.1⟩
  · rename_i d ok hpc
    cases ok
    · cases hs
      simp only [Sound, hpc] at hG
      exact ⟨_, _, .refused hpc hG, rfl⟩
    · simp only [State.lock, if_true] at hs
      split at hs
      · cases hs
      · rename_i hfree
        cases hs
        exact ⟨_, _, .take hpc hfree, rfl⟩
  · rename_i d hpc
    cases hs
    simp only [hpc, DataOk] at hdata
    exact ⟨_, _, .release hpc, if_pos hdata.1⟩
  · rename_i d hpc
    cases hs
    have hheld := h.exclusive d.mutex i
    simp only [hpc, DataOk, Inside, true_and] at hdata hheld
    rcases hd : d.threadCompleteSuccess with _ | _
    · have hnot : holders d.mutex ≠ some i := fun hi => by simp [hheld.mpr hi] at hd
      refine ⟨_, _, .leave hpc hd, ?_⟩
      rw [State.unlock, if_neg hnot, if_pos (hdata hd), ← hd]
      rfl
    · exact ⟨_, _, .give hpc hd, if_pos (hheld.mp hd)⟩
  · cases hs

omit [DecidableEq μ] in
theorem Good.data_update (h : Good checked s) (hd : DataOk checked pc) (t : τ) :
    DataOk checked (Function.update s.pc i pc t) := by
  rcases eq_or_ne t i with rfl | ht
  · rwa [Function.update_self]
  · rw [Function.update_of_ne ht]
    exact h.data t

omit [DecidableEq μ] in
theorem Good.keep (h : Good checked s) {m : μ} (hin : Inside m pc ↔ Inside m (s.pc i)) :
    Excl (s.holder m) fun t => Inside m (Function.update s.pc i pc t) :=
  (h.exclusive m).keep (u := i) (fun t ht => by simp only [Function.update_of_ne ht])
    (by simp only [Function.update_self, hin])

omit [DecidableEq μ] in
theorem Good.stay (h : Good checked s) (hin : ∀ m, Inside m pc ↔ Inside m (s.pc i))
    (hd : DataOk checked pc) : Good checked ⟨Function.update s.pc i pc, s.holder, false⟩ :=
  ⟨rfl, fun m => h.keep (hin m), h.data_update hd⟩

/-- A step that takes or gives the mutex `m₀`. -/
theorem Good.pass (h : Good checked s) {m₀ : μ} {o : Option τ}
    (hin : ∀ m, m ≠ m₀ → (Inside m pc ↔ Inside m (s.pc i)))
    (hex : Excl o fun t => Inside m₀ (Function.update s.pc i pc t)) (hd : DataOk checked pc) :
    Good checked ⟨Function.update s.pc i pc, Function.update s.holder m₀ o, false⟩ := by
  refine ⟨rfl, fun m => ?_, h.data_update hd⟩
  rcases eq_or_ne m m₀ with rfl | hm
  · simpa only [Function.update_self] using hex
  · simpa only [Function.update_of_ne hm] using h.keep (hin m hm)

theorem Good.move (h : Good checked s) (hm : Move checked s i act pc holder) :
    Good checked ⟨Function.update s.pc i pc, holder, false⟩ := by
  have hdata := h.data i
  cases hm with
  | started hpc ho hr => exact h.stay (by simp [hpc, Inside]) ⟨ho, hr⟩
  | failed hpc => exact h.stay (by simp [hpc, Inside]) trivial
  | obtain hpc =>
    simp only [hpc, DataOk] at hdata
    exact h.stay (by simp [hpc, Inside]) ⟨hdata.2, rfl⟩
  | @take d hpc hfree =>
    simp only [hpc, DataOk] at hdata
    refine h.pass (fun m hm => ?_) ?_ ⟨hdata.1, fun hd => by simp [hdata.2] at hd⟩
    · simp [hpc, Inside, hm.symm]
    · have hex := h.exclusive d.mutex
      rw [hfree] at hex
      exact hex.take (fun t ht => by simp only [Function.update_of_ne ht]) (by simp [Inside, hdata.2])
  | refused hpc hc =>
    simp only [hpc, DataOk] at hdata
    exact h.stay (by simp [hpc, Inside]) ⟨hdata.1, fun _ => hc⟩
  | release hpc =>
    simp only [hpc, DataOk] at hdata
    exact h.stay (by simp [hpc, Inside]) hdata.2
  | @give d hpc hd =>
    refine h.pass (fun m hm => ?_) ?_ trivial
    · simp [hpc, Inside, hm.symm]
    · exact (h.exclusive d.mutex).give (u := i) (fun t ht => by simp only [Function.update_of_ne ht])
        (by simp [hpc, Inside, hd]) (by simp [Inside])
  | leave hpc hd => exact h.stay (by simp [hpc, hd, Inside]) trivial

omit [DecidableEq μ] [DecidableEq τ] in
theorem Told.other {as : List (τ × Act μ)} {j : τ} (h : Told as j pc) (hj : j ≠ i) :
    Told (as ++ [(i, act)]) j pc := by
  have hmem : ∀ act', (j, act') ∈ as ++ [(i, act)] ↔ (j, act') ∈ as := by
    simp [hj]
  cases pc <;> simpa only [Told, StartedWith, hmem] using h

omit [DecidableEq τ] in
theorem Told.own {as : List (τ × Act μ)} (h : Told as i (s.pc i)) (hd : DataOk checked (s.pc i))
    (hm : Move checked s i act pc holder) : Told (as ++ [(i, act)]) i pc := by
  have hlock : (i, Act.lock true) ∈ as ++ [(i, act)] ↔ (i, .lock true) ∈ as ∨ act = .lock true := by
    simp [eq_comm]
  have hstart : ∀ d, StartedWith as i d → StartedWith (as ++ [(i, act)]) i d :=
    fun d ⟨fill, hf⟩ => ⟨fill, List.mem_append_left _ hf⟩
  cases hm with
  | started hpc =>
    simp only [hpc, Told] at h
    exact ⟨by simpa using h, _, List.mem_append_right _ (List.mem_singleton_self _)⟩
  | failed hpc =>
    simp only [hpc, Told] at h
    simpa [Told] using h
  | obtain hpc =>
    simp only [hpc, Told] at h
    exact ⟨by simpa using h.1, hstart _ h.2⟩
  | take hpc =>
    simp only [hpc, Told] at h
    simp only [hpc, DataOk] at hd
    exact ⟨by simp [hlock, hd.2], hstart _ h.2⟩
  | refused hpc =>
    simp only [hpc, Told] at h
    exact ⟨by simp [hlock, h.1], hstart _ h.2⟩
  | release hpc =>
    simp only [hpc, Told] at h
    exact ⟨by simp [hlock, h.1], hstart _ h.2⟩
  | give hpc =>
    simp only [hpc, Told] at h
    exact ⟨by simp [hlock, h.1], hstart _ h.2⟩
  | leave hpc =>
    simp only [hpc, Told] at h
    exact ⟨by simp [hlock, h.1], hstart _ h.2⟩

/-- What is known after the steps `as`. -/
structure Known (checked : μ → Bool) (as : List (τ × Act μ)) (s : State μ τ) : Prop where
  good : Good checked s
  told : ∀ i, Told as i (s.pc i)

theorem known_step {as : List (τ × Act μ)} {a : τ × Act μ} (h : Known checked as s)
    (hG : Sound checked s a) (hs : step checked s a = some s') : Known checked (as ++ [a]) s' := by
  obtain ⟨i, act⟩ := a
  obtain ⟨pc, holder, hm, rfl⟩ := step_move h.good hG hs
  refine ⟨h.good.move hm, fun j => ?_⟩
  rcases eq_or_ne j i with rfl | hj
  · simpa only [Function.update_self] using (h.told j).own (h.good.data j) hm
  · simpa only [Function.update_of_ne hj] using (h.told j).other hj

theorem known_run {as : List (τ × Act μ)} (hm : Meets (step checked) (Sound checked) (init μ τ) as)
    (hr : run (step checked) (init μ τ) as = some s) : Known checked as s :=
  Meets.history (fun _ _ _ _ => known_step) []
    ⟨good_init, fun i => by simp [init, Told]⟩ hm hr

/-- **What the threads return.** In a run that has memory, in which the waits are not too long and no lock
fails but of a checked mutex, nothing is undefined; no two threads are at once between the lock and the
unlock of a mutex; and a thread that has returned does so with the data it was started with, holds no
mutex, and reports success if and only if it did hold its own. -/
theorem threads_report {as : List (τ × Act μ)}
    (hm : Meets (step checked) (Sound checked) (init μ τ) as)
    (hr : run (step checked) (init μ τ) as = some s) :
    s.fault = false ∧ (∀ m i j, Inside m (s.pc i) → Inside m (s.pc j) → i = j) ∧
      ∀ i d, s.pc i = .returned d →
        StartedWith as i d ∧ (d.threadCompleteSuccess = true ↔ (i, .lock true) ∈ as) ∧
          ∀ m, s.holder m ≠ some i := by
  have h := known_run hm hr
  refine ⟨h.good.sane, fun m i j hi hj => (h.good.exclusive m).unique hi hj, fun i d hpc => ?_⟩
  have htold := h.told i
  simp only [hpc, Told] at htold
  refine ⟨htold.2, htold.1, fun m hh => ?_⟩
  have hin := (h.good.exclusive m i).mpr hh
  simp [hpc, Inside] at hin

/-- Two threads and a checked mutex, whose lock fails for the second one. -/
def twoThreads : List (Bool × Act Unit) :=
  [(false, .start () 10 20 (some false) true), (false, .usleep), (true, .start () 0 5 (some false) true),
    (false, .lock true), (true, .usleep), (true, .lock false), (true, .usleep), (false, .usleep),
    (true, .unlock), (false, .unlock)]

theorem threads_report_twoThreads : ∃ s, run (step fun _ => true) (init Unit Bool) twoThreads = some s ∧
    s.fault = false ∧ (∀ m i j, Inside m (s.pc i) → Inside m (s.pc j) → i = j) ∧
      ∀ i d, s.pc i = .returned d → StartedWith twoThreads i d ∧
        (d.threadCompleteSuccess = true ↔ (i, .lock true) ∈ twoThreads) ∧ ∀ m, s.holder m ≠ some i := by
  have hm : Meets (step fun _ => true) (Sound fun _ => true) (init Unit Bool) twoThreads := by
    decide +kernel
  have hr : (run (step fun _ => true) (init Unit Bool) twoThreads).isSome = true := by decide +kernel
  obtain ⟨s, hs⟩ := Option.isSome_iff_exists.mp hr
  exact ⟨s, hs, threads_report hm hs⟩

/-! ### Progress -/

/-- The steps that a thread has yet to take. -/
def work : Pc μ → ℕ
  | .unstarted | .returned _ => 0
  | .unlock _ => 1
  | .release _ => 2
  | .lock _ => 3
  | .obtain _ => 4

/-- A step of a thread that was started. -/
def Onward : Act μ → Prop
  | .start .. => False
  | _ => True

/-- A step that the thread takes by itself. -/
def unaided : Act μ → Bool
  | .usleep | .unlock | .lock true => true
  | _ => false

omit [DecidableEq μ] [DecidableEq τ] in
theorem sound_of_unaided (s : State μ τ) (h : unaided act = true) : Sound checked s (i, act) := by
  unfold Sound
  split <;> simp_all [unaided]

omit [DecidableEq τ] in
theorem work_lt (hm : Move checked s i act pc holder) (ho : Onward act) :
    work pc < work (s.pc i) := by
  cases hm with
  | started | failed => exact ho.elim
  | obtain hpc | take hpc | refused hpc | release hpc | give hpc | leave hpc => simp [hpc, work]

theorem unaided_inside {m : μ} (h : Good checked s) (hin : Inside m (s.pc i)) :
    ∃ a s', unaided a.2 = true ∧ step checked s a = some s' := by
  unfold Inside at hin
  split at hin
  · rename_i d hpc
    exact ⟨(i, .usleep), _, rfl, by simp only [step, h.sane, hpc]; rfl⟩
  · rename_i d hpc
    exact ⟨(i, .unlock), _, rfl, by simp only [step, h.sane, hpc]; rfl⟩
  · exact hin.elim

/-- While one thread has not returned, some thread can go on without another one: if the first one waits
for a mutex, the one that holds it. -/
theorem exists_unaided (h : Good checked s) (hi : work (s.pc i) ≠ 0) :
    ∃ a s', unaided a.2 = true ∧ step checked s a = some s' := by
  rcases hpc : s.pc i with _ | d | d | d | d | d
  · simp [hpc, work] at hi
  · exact ⟨(i, .usleep), _, rfl, by simp only [step, h.sane, hpc]; rfl⟩
  · rcases hh : s.holder d.mutex with _ | j
    · exact ⟨(i, .lock true), _, rfl, by simp only [step, h.sane, hpc, State.lock, hh]; rfl⟩
    · exact unaided_inside h ((h.exclusive d.mutex j).mpr hh)
  · exact ⟨(i, .usleep), _, rfl, by simp only [step, h.sane, hpc]; rfl⟩
  · exact ⟨(i, .unlock), _, rfl, by simp only [step, h.sane, hpc]; rfl⟩
  · simp [hpc, work] at hi

omit [DecidableEq μ] [DecidableEq τ] in
theorem Good.free (h : Good checked s) (hw : ∀ i, work (s.pc i) = 0) (m : μ) : s.holder m = none := by
  by_contra hne
  obtain ⟨i, hi⟩ := Option.ne_none_iff_exists'.mp hne
  have hin := (h.exclusive m i).mpr hi
  have hzero := hw i
  dsimp only at hin
  rcases hpc : s.pc i <;> simp [hpc, Inside, work] at hin hzero

/-- **Every thread returns.** After any such run, whoever is let run, all threads that were started return,
as long as no lock fails of a mutex that is not checked; and then all mutexes are free. No other thread
locks them. -/
theorem threads_return [Finite τ] {as : List (τ × Act μ)}
    (hm : Meets (step checked) (Sound checked) (init μ τ) as)
    (hr : run (step checked) (init μ τ) as = some s) :
    Inevitable (restrict (step checked) (Sound checked)) (fun a => Onward a.2)
      (fun a => unaided a.2 = true)
      (fun s => (∀ i, s.pc i = .unstarted ∨ ∃ d, s.pc i = .returned d) ∧ ∀ m, s.holder m = none) s := by
  have := Fintype.ofFinite τ
  have hkeep : ∀ (s : State μ τ) a s', Good checked s → Onward a.2 →
      restrict (step checked) (Sound checked) s a = some s' →
        Good checked s' ∧ ∑ j, work (s'.pc j) < ∑ j, work (s.pc j) := by
    rintro s ⟨i, act⟩ s' h ho hs
    obtain ⟨hsound, hstep⟩ := restrict_some.mp hs
    obtain ⟨pc, holder, hmove, rfl⟩ := step_move h hsound hstep
    have hsum := sum_update s.pc work (Finset.mem_univ i) pc
    have hlt := work_lt hmove ho
    exact ⟨h.move hmove, by dsimp only; omega⟩
  refine inevitable_of_measure (P := Good checked) (fun s => ∑ j, work (s.pc j))
    (fun s a s' h ho hs => (hkeep s a s' h ho hs).1) (fun s a s' h ho hs => (hkeep s a s' h ho hs).2)
    (fun s h hgoal => ?_) (known_run hm hr).good
  by_contra hnone
  have hw : ∀ i, work (s.pc i) = 0 := fun i => by_contra fun hi => by
    obtain ⟨a, s', ha, hs⟩ := exists_unaided h hi
    exact hnone ⟨a, s', ha, restrict_some.mpr ⟨sound_of_unaided s ha, hs⟩⟩
  refine hgoal ⟨fun i => ?_, h.free hw⟩
  have hi := hw i
  rcases hpc : s.pc i with _ | d | d | d | d | d <;> simp [hpc, work] at hi ⊢

/-- Three threads, and a mutex of each kind: one holds the unchecked mutex, another waits for it, and the
lock of the checked mutex has failed. -/
def twoMutexes : List (Fin 3 × Act Bool) :=
  [(0, .start false 10 20 (some false) true), (1, .start false 10 0 (some false) true), (0, .usleep),
    (2, .start true 0 5 (some false) true), (1, .usleep), (2, .usleep), (0, .lock true), (2, .lock false)]

theorem threads_return_twoMutexes :
    ∃ s, run (step id) (init Bool (Fin 3)) twoMutexes = some s ∧ s.holder false = some 0 ∧
      Inevitable (restrict (step id) (Sound id)) (fun a => Onward a.2) (fun a => unaided a.2 = true)
        (fun s => (∀ i, s.pc i = .unstarted ∨ ∃ d, s.pc i = .returned d) ∧ ∀ m, s.holder m = none) s := by
  have hm : Meets (step id) (Sound id) (init Bool (Fin 3)) twoMutexes := by decide +kernel
  have hr : (run (step id) (init Bool (Fin 3)) twoMutexes).map (fun s => s.holder false) =
      some (some 0) := by decide +kernel
  obtain ⟨s, hs, hh⟩ := Option.map_eq_some_iff.mp hr
  exact ⟨s, hs, hh, threads_return hm hs⟩

end Step

end Aesd.Examples.Threading
