import Aesd.Lib.Lock
import Aesd.Threads.Steps

/-!
# One thread inside

The thread that holds `thread_list_mutex` is the one that is between a `pthread_mutex_lock` and the
`pthread_mutex_unlock` or `pthread_cond_wait` after it.
-/

namespace Aesd.Threads.Exclusion

open Aesd.Lib.Lock
open Aesd.Threads.Model Aesd.Threads.Steps

/-- The thread `t` is at a place where it must hold the mutex. -/
def Inside (s : State) : Thread → Prop
  | .main => s.main.inside = true
  | .handler => s.handler.inside = true
  | .client n => ∃ pc, s.books.client n = some pc ∧ pc.inside = true

/-- The threads inside are those that hold the mutex. -/
def Locked (s : State) : Prop := Excl s.mutex (Inside s)

variable {s s' : State} {act : Act} {n : ℕ}

@[simp] theorem inside_notified (pc : HandlerPc) : pc.notified.inside = pc.inside := by
  cases pc <;> rfl

@[simp] theorem inside_woken (forced : Bool) : (HandlerPc.woken forced).inside = true := by
  cases forced <;> rfl

@[simp] theorem inside_back (forced : Bool) : (HandlerPc.back forced).inside = true := by
  cases forced <;> rfl

/-! ### What follows -/

theorem Locked.free (h : Locked s) (hm : s.mutex = none) : Excl none (Inside s) := by
  have h' : Excl s.mutex (Inside s) := h
  rwa [hm] at h'

theorem Locked.main_outside (h : Locked s) (hm : s.mutex = none) : s.main.inside = false := by
  simpa [Inside] using (h.free hm).outside .main

theorem Locked.handler_outside (h : Locked s) (hm : s.mutex = none) : s.handler.inside = false := by
  simpa [Inside] using (h.free hm).outside .handler

theorem Locked.unique (h : Locked s) {t u : Thread} (ht : Inside s t) (hu : Inside s u) : t = u :=
  Excl.unique h ht hu

/-- The main thread and the handler are not inside together. -/
theorem Locked.handler_of_main (h : Locked s) (hm : s.main.inside = true) :
    s.handler.inside = false := by
  by_contra hh
  have : Thread.main = .handler := h.unique hm (by simpa [Inside] using hh)
  cases this

theorem Locked.main_of_handler (h : Locked s) (hh : s.handler.inside = true) :
    s.main.inside = false := by
  by_contra hm
  have : Thread.main = .handler := h.unique (by simpa [Inside] using hm) hh
  cases this

/-- A client thread inside keeps the handler out. -/
theorem Locked.handler_of_client (h : Locked s) {pc : ClientPc} (hc : s.books.client n = some pc)
    (hp : pc.inside = true) : s.handler.inside = false := by
  by_contra hh
  have : Thread.client n = .handler := h.unique ⟨pc, hc, hp⟩ (by simpa [Inside] using hh)
  cases this

/-! ### The steps -/

theorem inside_of_main (hc : s'.books.client = s.books.client)
    (hh : s'.handler.inside = s.handler.inside) : ∀ t, t ≠ .main → (Inside s' t ↔ Inside s t)
  | .main, ht => absurd rfl ht
  | .handler, _ => by simp [Inside, hh]
  | .client n, _ => by simp [Inside, hc]

theorem inside_of_handler (hc : s'.books.client = s.books.client) (hm : s'.main = s.main) :
    ∀ t, t ≠ .handler → (Inside s' t ↔ Inside s t)
  | .main, _ => by simp [Inside, hm]
  | .handler, ht => absurd rfl ht
  | .client n, _ => by simp [Inside, hc]

theorem inside_of_client {pc : ClientPc}
    (hc : s'.books.client = Function.update s.books.client n (some pc)) (hm : s'.main = s.main)
    (hh : s'.handler.inside = s.handler.inside) : ∀ t, t ≠ .client n → (Inside s' t ↔ Inside s t)
  | .main, _ => by simp [Inside, hm]
  | .handler, _ => by simp [Inside, hh]
  | .client k, ht => by
    have hk : k ≠ n := fun e => ht (e ▸ rfl)
    simp [Inside, hc, hk]

theorem inside_client {pc : ClientPc}
    (hc : s'.books.client = Function.update s.books.client n (some pc)) :
    Inside s' (.client n) ↔ pc.inside = true := by
  simp [Inside, hc]

theorem Locked.mainStep (h : Locked s) (hm : MainStep s act s') : Locked s' := by
  cases hm with
  | testOn hp | testOff hp | acceptFailed hp | accepted hp | stop hp | close hp | join hp =>
    exact Excl.keep h (inside_of_main rfl rfl) (by simp [Inside, hp, MainPc.inside])
  | add hp | addFailed hp | spawnFailed hp | undo hp | release hp | setId hp =>
    exact Excl.keep h (inside_of_main rfl rfl) (by simp [Inside, hp, MainPc.inside])
  | lock hp hfree | wakeLock hp hfree => exact (h.free hfree).take (inside_of_main rfl rfl) rfl
  | unlock hp | unlockFailed hp | wakeUnlock hp =>
    exact Excl.give h (inside_of_main rfl rfl) (by simp [Inside, hp, MainPc.inside])
      (by simp [Inside, MainPc.inside])
  | broadcast hp =>
    exact Excl.keep h (inside_of_main rfl (inside_notified _)) (by simp [Inside, hp, MainPc.inside])
  | @spawn _ m _ hp =>
    -- the new thread is outside, and whatever was there is not inside while the main thread is
    have hin : Inside s .main := by simp [Inside, hp, MainPc.inside]
    refine Excl.keep h (u := .main) (fun t ht => ?_) (by simp [Inside, hp, MainPc.inside])
    refine ⟨fun hti => ?_, fun hti => absurd (h.unique hti hin) ht⟩
    rcases t with _ | _ | k
    · exact absurd rfl ht
    · exact hti
    · obtain ⟨pc, hk, hpc⟩ := hti
      by_cases hkn : k = m
      · rw [hkn] at hk
        simp only [Books.spawn, Function.update_self, Option.some.injEq] at hk
        subst hk
        cases hpc
      · exact ⟨pc, by simpa [Books.spawn, hkn] using hk, hpc⟩

theorem Locked.handlerStep (h : Locked s) (hh : HandlerStep s s') : Locked s' := by
  cases hh with
  | lock hp hfree | forceLock hp hfree =>
    exact (h.free hfree).take (inside_of_handler rfl rfl) rfl
  | wake hp hfree => exact (h.free hfree).take (inside_of_handler rfl rfl) (inside_woken _)
  | sleep hp | unlock hp | forceUnlock hp =>
    exact Excl.give h (inside_of_handler rfl rfl) (by simp [Inside, hp, HandlerPc.inside])
      (by simp [Inside, HandlerPc.inside])
  | outerOn hp | outerOff hp | innerOn hp | innerOff hp | scanFound hp | scanNone hp | testOn hp
  | testOff hp | visitCompleted hp | visitNext hp | join hp | remove hp | free hp
  | closeEnd hp | closeNone hp | closeSome hp | forcedOuterEnd hp | forcedOuter hp
  | forcedInnerEnd hp | forcedInner hp | forcedScanFound hp | forcedScanNone hp =>
    exact Excl.keep h (inside_of_handler rfl rfl) (by simp [Inside, hp, HandlerPc.inside])
  | visitEnd hp =>
    have hin : Inside s .handler := by simp [Inside, hp, HandlerPc.inside]
    exact Excl.keep h (inside_of_handler rfl rfl) (iff_of_true (inside_back _) hin)

theorem Locked.clientStep (h : Locked s) (hc : ClientStep s n s') : Locked s' := by
  cases hc with
  | lock hp hfree =>
    exact (h.free hfree).take (inside_of_client rfl rfl rfl) ((inside_client rfl).mpr rfl)
  | unlock hp =>
    exact Excl.give h (inside_of_client rfl rfl rfl) ⟨_, hp, rfl⟩
      (by rw [inside_client rfl]; simp [ClientPc.inside])
  | signal hp =>
    exact Excl.keep h (inside_of_client rfl rfl (inside_notified _))
      (by rw [inside_client rfl]; simp [Inside, hp, ClientPc.inside])
  | start hp | run hp | closeNone hp | closeSome hp | complete hp | exiting hp =>
    exact Excl.keep h (inside_of_client rfl rfl rfl)
      (by rw [inside_client rfl]; simp [Inside, hp, ClientPc.inside])

/-- **The mutex is exclusive.** -/
theorem Locked.step (h : Locked s) (hs : Step s act s') : Locked s' := by
  cases hs with
  | signal => exact Excl.keep h (u := .main) (inside_of_main rfl rfl) Iff.rfl
  | spurious hp =>
    exact Excl.keep h (inside_of_handler rfl rfl) (by simp [Inside, hp, HandlerPc.inside])
  | main hm => exact h.mainStep hm
  | handler hh => exact h.handlerStep hh
  | client hc => exact h.clientStep hc

theorem locked_init : Locked init := by
  intro t
  cases t <;> simp [Inside, init, MainPc.inside, HandlerPc.inside]

end Aesd.Threads.Exclusion
