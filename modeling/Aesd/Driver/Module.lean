import Aesd.Driver.Cleanup
import Aesd.Driver.Progress

/-!
# The module, loaded and unloaded

The module is loaded, files of its device are opened, used by any number of openers at once and released,
and the module is unloaded, any number of times, while other drivers come and go. Loading may fail at the
region of device numbers or at `cdev_add`. The kernel does not unload a module while a file of it is open;
`aesd_cleanup_module` takes the locks of the device, so it would wait for whoever held them.

Whatever comes of the calls, unloading does not wait, frees every allocation of the session, and gives
back the device number; a load that fails leaves nothing (`sessions_clean`).
-/

namespace Aesd.Driver.Module

open Aesd.Lib.Alloc Aesd.Lib.Lts Aesd.Lib.SharedLock Aesd.Lib.Objects
open Aesd.Driver.Ring Aesd.Driver.Device Aesd.Driver.Store Aesd.Driver.Cleanup
open Aesd.Driver.Atomic Aesd.Driver.Beside Aesd.Driver.Linearize Aesd.Driver.Progress

/-- `dev_t` -/
structure DevT where
  major : ℕ
  minor : ℕ
  deriving DecidableEq

abbrev aesdMinor : ℕ := 0

/-- The device numbers that are registered, and the one `aesd_device.cdev` is added under. -/
structure Kernel where
  regions : Finset DevT
  cdev : Option DevT

/-- What the kernel decides while the module is loaded: what `alloc_chrdev_region` returns, with the major
number it gives, and what `cdev_add` returns. -/
structure LoadEnv where
  result : ℤ
  major : ℕ
  err : ℤ

/-- `aesd_setup_cdev` -/
def aesdSetupCdev (k : Kernel) (devno : DevT) (err : ℤ) : ℤ × Kernel :=
  (err, if err = 0 then { k with cdev := some devno } else k)

/-- `aesd_init_module`, which leaves the device of `initModule`. -/
def aesdInitModule (k : Kernel) (env : LoadEnv) : ℤ × Kernel :=
  if env.result < 0 then (env.result, k)
  else
    let dev : DevT := ⟨env.major, aesdMinor⟩
    let r := aesdSetupCdev { k with regions := insert dev k.regions } dev env.err
    if r.1 ≠ 0 then (r.1, { r.2 with regions := r.2.regions.erase dev }) else r

/-- The module while it is loaded, with the openers that have a file of the device open. -/
structure Session (ι : Type*) where
  aesdMajor : ℕ
  driver : Calls.State ι
  opened : Finset ι

variable {ι : Type*}

/-- The device number of a session. -/
def Session.devno (l : Session ι) : DevT := ⟨l.aesdMajor, aesdMinor⟩

variable [DecidableEq ι]

/-- `aesd_cleanup_module`, once the locks are free; `none` inside is undefined behaviour. -/
def aesdCleanupModule (k : Kernel) (l : Session ι) : Option (Kernel × Option AesdDev) :=
  if l.driver.circularBufferSemaphore.writer = none ∧ l.driver.circularBufferSemaphore.readers = ∅ ∧
      l.driver.tempEntryMutex = none then
    some (⟨k.regions.erase l.devno, none⟩, cleanupModule l.driver.dev)
  else none

/-- The kernel, the device numbers of other drivers, the module if it is loaded, and what was left of the
devices of the sessions before. -/
structure State (ι : Type*) where
  kernel : Kernel
  others : Finset DevT
  live : Option (Session ι)
  gone : List AesdDev
  fault : Bool

inductive Act (ι : Type*)
  | load (env : LoadEnv)
  | unload
  | openFile (i : ι)
  | release (i : ι)
  | call (i : ι) (act : Calls.Act)
  | register (dev : DevT)
  | unregister (dev : DevT)

def init (ι : Type*) : State ι := ⟨⟨∅, none⟩, ∅, none, [], false⟩

namespace State

/-- A load that succeeds; `alloc_chrdev_region` gives a number that nobody has. -/
def load (s : State ι) (env : LoadEnv) : Option (State ι) :=
  if env.err ≤ 0 ∧ (0 ≤ env.result → (⟨env.major, aesdMinor⟩ : DevT) ∉ s.kernel.regions) then
    let r := aesdInitModule s.kernel env
    some { s with
      kernel := r.2
      live := if r.1 < 0 then none else some ⟨env.major, Calls.init ι, ∅⟩ }
  else none

/-- The module goes, if no file of the device is open. -/
def unload (s : State ι) (l : Session ι) : Option (State ι) :=
  if l.opened = ∅ then
    (aesdCleanupModule s.kernel l).map fun (kernel, dev) =>
      match dev with
      | none => { s with fault := true }
      | some dev => { s with kernel, live := none, gone := s.gone ++ [dev] }
  else none

/-- `aesd_open`; a file that is opened is at its start. -/
def openFile (s : State ι) (l : Session ι) (i : ι) : Option (State ι) :=
  if i ∈ l.opened then none
  else some { s with live := some { l with
    opened := insert i l.opened
    driver := { l.driver with fpos := Function.update l.driver.fpos i 0 } } }

/-- `aesd_release` -/
def release (s : State ι) (l : Session ι) (i : ι) : Option (State ι) :=
  if i ∈ l.opened ∧ l.driver.pc i = .idle then
    some { s with live := some { l with opened := l.opened.erase i } }
  else none

/-- A step of a call on an open file. -/
def call (s : State ι) (l : Session ι) (i : ι) (act : Calls.Act) : Option (State ι) :=
  if i ∈ l.opened then
    (Calls.step l.driver (i, act)).map fun driver =>
      { s with live := some { l with driver }, fault := driver.fault }
  else none

/-- Another driver registers a number that nobody has. -/
def register (s : State ι) (dev : DevT) : Option (State ι) :=
  if dev ∈ s.kernel.regions then none
  else some { s with
    kernel := { s.kernel with regions := insert dev s.kernel.regions }
    others := insert dev s.others }

/-- Another driver gives its number back. -/
def unregister (s : State ι) (dev : DevT) : Option (State ι) :=
  if dev ∈ s.others then
    some { s with
      kernel := { s.kernel with regions := s.kernel.regions.erase dev }
      others := s.others.erase dev }
  else none

end State

/-- **One step** of the kernel; none after undefined behaviour. -/
def step (s : State ι) (act : Act ι) : Option (State ι) :=
  if s.fault then none
  else
    match act, s.live with
    | .load env, none => s.load env
    | .unload, some l => s.unload l
    | .openFile i, some l => s.openFile l i
    | .release i, some l => s.release l i
    | .call i act, some l => s.call l i act
    | .register dev, _ => s.register dev
    | .unregister dev, _ => s.unregister dev
    | _, _ => none

/-! ### What holds of every session -/

/-- The numbers registered are those of the other drivers and of the module, if it is loaded; the sessions
that are over left no allocation; and the module can be unloaded once no file is open. -/
structure Clean (s : State ι) : Prop where
  sane : s.fault = false
  unloaded : s.live = none → s.kernel = ⟨s.others, none⟩
  loaded : ∀ l, s.live = some l →
    l.devno ∉ s.others ∧ s.kernel = ⟨insert l.devno s.others, some l.devno⟩
  freed : ∀ d ∈ s.gone, ∀ p, d.heap.block p = none
  unloads : ∀ l, s.live = some l → l.opened = ∅ → ∃ s', step s .unload = some s' ∧ s'.live = none

/-- An opener without a file is in no call, and the calls keep the device. -/
structure Used (l : Session ι) : Prop where
  idle : ∀ i ∉ l.opened, l.driver.pc i = .idle
  rel : ∃ m, Rel l.driver m

/-- **The invariant.** -/
structure Inv (s : State ι) : Prop where
  sane : s.fault = false
  unloaded : s.live = none → s.kernel = ⟨s.others, none⟩
  loaded : ∀ l, s.live = some l →
    l.devno ∉ s.others ∧ s.kernel = ⟨insert l.devno s.others, some l.devno⟩
  freed : ∀ d ∈ s.gone, ∀ p, d.heap.block p = none
  used : ∀ l, s.live = some l → Used l

omit [DecidableEq ι] in
theorem inv_init : Inv (init ι) where
  sane := rfl
  unloaded _ := rfl
  loaded l h := by cases h
  freed d h := by cases h
  used l h := by cases h

/-- A load registers the number and adds the device, or changes nothing. -/
theorem aesdInitModule_eq {k : Kernel} {env : LoadEnv}
    (hnew : 0 ≤ env.result → (⟨env.major, aesdMinor⟩ : DevT) ∉ k.regions) :
    aesdInitModule k env =
      if env.result < 0 then (env.result, k)
      else if env.err = 0 then
        (0, ⟨insert ⟨env.major, aesdMinor⟩ k.regions, some ⟨env.major, aesdMinor⟩⟩)
      else (env.err, k) := by
  unfold aesdInitModule aesdSetupCdev
  by_cases hr : env.result < 0
  · rw [if_pos hr, if_pos hr]
  rw [if_neg hr, if_neg hr]
  by_cases he : env.err = 0
  · simp [he]
  · simp [he, Finset.erase_insert (hnew (not_lt.mp hr))]

/-- Unloading a module whose calls are over. -/
theorem Used.cleanup {l : Session ι} (h : Used l) (hopen : l.opened = ∅) (k : Kernel) :
    ∃ d, aesdCleanupModule k l = some (⟨k.regions.erase l.devno, none⟩, some d) ∧
      ∀ p, d.heap.block p = none := by
  have hidle : ∀ i, l.driver.pc i = .idle := fun i => h.idle i (by simp [hopen])
  obtain ⟨m, hrel⟩ := h.rel
  have hsem : l.driver.circularBufferSemaphore = RwLock.free := hrel.sem.eq_free
    (fun i => by simp [hidle i, reading]) fun i => by simp [hidle i, writing]
  have hmutex : l.driver.tempEntryMutex = none := by
    by_contra hne
    obtain ⟨i, hi⟩ := Option.ne_none_iff_exists'.mp hne
    have hl : locked (l.driver.pc i) = true := (hrel.mutex i).mpr hi
    rw [hidle i] at hl
    cases hl
  obtain ⟨d, hd, hnone, -⟩ := cleanupModule_ok (ownsMemory_of_owned (hrel.free hmutex).1)
  refine ⟨d, ?_, hnone⟩
  simp [aesdCleanupModule, hsem, hmutex, hd, RwLock.free]

/-- Opening a file of an opener that has none. -/
theorem Used.openFile {l : Session ι} (h : Used l) {i : ι} (hi : i ∉ l.opened) :
    Used { l with
      opened := insert i l.opened
      driver := { l.driver with fpos := Function.update l.driver.fpos i 0 } } := by
  have hidle := h.idle i hi
  obtain ⟨m, hrel⟩ := h.rel
  refine ⟨fun j hj => h.idle j fun hm => hj (Finset.mem_insert_of_mem hm),
    ⟨m.state.move i 0, m.status⟩, ?_⟩
  have hc := hrel.caller i
  rw [hidle] at hc
  refine hrel.outside (i := i) hrel.sane (fun _ _ => rfl)
    (fun j hj => Function.update_of_ne hj _ _) (fun j hj => Function.update_of_ne hj _ _)
    (fun _ _ => rfl) rfl rfl rfl (by rw [hidle]; rfl) (by rw [hidle]; rfl) hrel.sem ?_
  rw [hidle]
  exact ⟨by simp [Files.move], hc.2⟩

theorem pc_step {s s' : Calls.State ι} {m : Atomic ι (Files ι) Calls.Call Calls.Result} (h : Rel s m)
    {i j : ι} {act : Calls.Act} (hs : Calls.step s (i, act) = some s') (hsane : s'.fault = false)
    (hj : j ≠ i) : s'.pc j = s.pc j := by
  by_cases hact : onward act = true
  · obtain ⟨pc, hpc, -⟩ := nearer_step h hact hs hsane
    rw [hpc, Function.update_of_ne hj]
  · cases act with
    | call c =>
      simp only [Calls.step, h.sane, Bool.false_eq_true, if_false] at hs
      cases hpc : s.pc i <;> simp only [hpc, reduceCtorEq] at hs
      rw [← Option.some.inj hs]
      exact Function.update_of_ne hj _ _
    | _ => exact (hact rfl).elim

theorem Used.call {l : Session ι} (h : Used l) {i : ι} (hi : i ∈ l.opened) {act : Calls.Act}
    {driver : Calls.State ι} (hs : Calls.step l.driver (i, act) = some driver) :
    Used { l with driver } ∧ driver.fault = false := by
  obtain ⟨m, hrel⟩ := h.rel
  obtain ⟨-, m', -, -, hrel'⟩ := rel_step _ _ _ m hrel hs
  refine ⟨⟨fun j hj => ?_, m', hrel'⟩, hrel'.sane⟩
  have hji : j ≠ i := fun he => hj (he ▸ hi)
  exact (pc_step hrel hs hrel'.sane hji).trans (h.idle j hj)

/-! ### The steps -/

section Inv
variable {s s' : State ι} (h : Inv s)
include h

omit [DecidableEq ι] in
theorem Inv.load (hlive : s.live = none) {env : LoadEnv} (hs : s.load env = some s') : Inv s' := by
  have hk := h.unloaded hlive
  unfold State.load at hs
  split_ifs at hs with hguard
  obtain ⟨herr, hnew⟩ := hguard
  rw [aesdInitModule_eq hnew, hk] at hs
  rw [← Option.some.inj hs]
  rw [hk] at hnew
  by_cases hr : env.result < 0
  · simp only [if_pos hr]
    exact { h with
      unloaded := fun _ => rfl
      loaded := fun l hl => by cases hl
      used := fun l hl => by cases hl }
  simp only [if_neg hr]
  by_cases he : env.err = 0
  · simp only [if_pos he, lt_irrefl, if_false]
    exact { h with
      unloaded := fun hl => by cases hl
      loaded := fun l hl => by cases hl; exact ⟨hnew (not_lt.mp hr), rfl⟩
      used := fun l hl => by cases hl; exact ⟨fun _ _ => rfl, _, rel_init⟩ }
  · simp only [if_neg he, if_pos (lt_of_le_of_ne herr he)]
    exact { h with
      unloaded := fun _ => rfl
      loaded := fun l hl => by cases hl
      used := fun l hl => by cases hl }

theorem Inv.unload {l : Session ι} (hlive : s.live = some l) (hopen : l.opened = ∅) :
    ∃ s', s.unload l = some s' ∧ s'.live = none ∧ Inv s' := by
  obtain ⟨hown, hk⟩ := h.loaded l hlive
  obtain ⟨d, hd, hnone⟩ := (h.used l hlive).cleanup hopen s.kernel
  refine ⟨{ s with kernel := ⟨s.others, none⟩, live := none, gone := s.gone ++ [d] }, ?_, rfl, ?_⟩
  · rw [State.unload, if_pos hopen, hd, hk, Finset.erase_insert hown]
    rfl
  · exact { h with
      unloaded := fun _ => rfl
      loaded := fun l hl => by cases hl
      freed := List.forall_mem_append.mpr ⟨h.freed, by simpa using hnone⟩
      used := fun l hl => by cases hl }

omit [DecidableEq ι] in
theorem Inv.session {l l' : Session ι} (hlive : s.live = some l) (hused : Used l') {fault : Bool}
    (hf : fault = false) (hmajor : l'.aesdMajor = l.aesdMajor) :
    Inv { s with live := some l', fault } := by
  refine { h with
    sane := hf
    unloaded := fun hl => by cases hl
    loaded := fun m hm => ?_
    used := fun m hm => ?_ }
  · cases hm
    have hdev : l'.devno = l.devno := by rw [Session.devno, hmajor, Session.devno]
    rw [hdev]
    exact h.loaded l hlive
  · cases hm
    exact hused

omit [DecidableEq ι] in
theorem Inv.register {dev : DevT} (hs : s.register dev = some s') : Inv s' := by
  unfold State.register at hs
  split_ifs at hs with hdev
  rw [← Option.some.inj hs]
  refine { h with unloaded := fun hl => ?_, loaded := fun l hl => ⟨fun hm => ?_, ?_⟩ }
  · show Kernel.mk _ _ = _
    rw [h.unloaded hl]
  · have hk := (h.loaded l hl).2
    rcases Finset.mem_insert.mp hm with he | hm
    · rw [hk, he] at hdev
      exact hdev (Finset.mem_insert_self _ _)
    · exact (h.loaded l hl).1 hm
  · show Kernel.mk _ _ = _
    rw [(h.loaded l hl).2, Finset.insert_comm]

omit [DecidableEq ι] in
theorem Inv.unregister {dev : DevT} (hs : s.unregister dev = some s') : Inv s' := by
  unfold State.unregister at hs
  split_ifs at hs with hdev
  rw [← Option.some.inj hs]
  refine { h with
    unloaded := fun hl => ?_
    loaded := fun l hl => ⟨fun hm => (h.loaded l hl).1 (Finset.mem_of_mem_erase hm), ?_⟩ }
  · show Kernel.mk _ _ = _
    rw [h.unloaded hl]
  · obtain ⟨hown, hk⟩ := h.loaded l hl
    have hne : dev ≠ l.devno := fun he => hown (he ▸ hdev)
    show Kernel.mk _ _ = _
    rw [hk, Finset.erase_insert_of_ne hne.symm]

end Inv

theorem inv_step {s s' : State ι} (h : Inv s) {act : Act ι} (hs : step s act = some s') : Inv s' := by
  simp only [step, h.sane, Bool.false_eq_true, if_false] at hs
  split at hs
  · next env hlive => exact h.load hlive hs
  · next l hlive =>
    unfold State.unload at hs
    split_ifs at hs with hopen
    obtain ⟨s₁, hs₁, -, hinv⟩ := h.unload hlive hopen
    rw [State.unload, if_pos hopen, hs, Option.some.injEq] at hs₁
    exact hs₁ ▸ hinv
  · next i l hlive =>
    unfold State.openFile at hs
    split_ifs at hs with hi
    rw [← Option.some.inj hs]
    exact h.session hlive ((h.used l hlive).openFile hi) h.sane rfl
  · next i l hlive =>
    unfold State.release at hs
    split_ifs at hs with hi
    rw [← Option.some.inj hs]
    have hidle : ∀ j ∉ l.opened.erase i, l.driver.pc j = .idle := by
      intro j hj
      by_cases hji : j = i
      · rw [hji]
        exact hi.2
      · exact (h.used l hlive).idle j fun hm => hj (Finset.mem_erase.mpr ⟨hji, hm⟩)
    have hused : Used { l with opened := l.opened.erase i } := ⟨hidle, (h.used l hlive).rel⟩
    exact h.session hlive hused h.sane rfl
  · next i act l hlive =>
    unfold State.call at hs
    split_ifs at hs with hi
    obtain ⟨driver, hstep, rfl⟩ := Option.map_eq_some_iff.mp hs
    obtain ⟨hused, hsane⟩ := (h.used l hlive).call hi hstep
    exact h.session hlive hused hsane rfl
  · exact h.register hs
  · exact h.unregister hs
  · cases hs

/-- **Every session is clean.** Whatever comes of the calls, however they are interleaved, and whichever
loads fail: no step is undefined, the module holds its device number exactly while it is loaded, unloading
it waits for nobody once its files are closed, and leaves no allocation. -/
theorem sessions_clean {as : List (Act ι)} {s : State ι} (hr : run step (init ι) as = some s) :
    Clean s := by
  have h : Inv s := run_invariant (fun _ _ _ h hs => inv_step h hs) inv_init hr
  refine { h with unloads := fun l hlive hopen => ?_ }
  obtain ⟨s', hs', hnone, -⟩ := h.unload hlive hopen
  exact ⟨s', by simp [step, h.sane, hlive, hs'], hnone⟩

/-- The first load fails at `cdev_add`; after the second one a line is written, and while the file is open
the module cannot be unloaded. -/
def oneSession : List (Act Unit) :=
  [.load ⟨0, 240, -enomem⟩, .load ⟨0, 240, 0⟩, .openFile (), .call () (.call (.write [newline])),
    .call () .go, .call () (.lock false), .call () (.alloc (.ok false fun _ => 0)),
    .call () (.copy none), .call () .go, .call () .go, .call () (.lock false), .call () .go,
    .call () .go, .call () .go, .call () .go, .call () .go, .call () .ret]

theorem sessions_clean_oneSession : ∃ s l, run step (init Unit) oneSession = some s ∧
    s.live = some l ∧ (view l.driver.dev).entries = [[newline]] ∧ step s .unload = none ∧ Clean s := by
  have hrun : (run step (init Unit) oneSession).any (fun s => s.live.any fun l =>
      decide ((view l.driver.dev).entries = [[newline]]) && (step s .unload).isNone) = true := by
    decide +kernel
  obtain ⟨s, hs, hany⟩ := (Option.any_eq_true _ _).mp hrun
  obtain ⟨l, hl, hboth⟩ := (Option.any_eq_true _ _).mp hany
  rw [Bool.and_eq_true, decide_eq_true_eq, Option.isNone_iff_eq_none] at hboth
  exact ⟨s, l, hs, hl, hboth.1, hboth.2, sessions_clean hs⟩

end Aesd.Driver.Module
