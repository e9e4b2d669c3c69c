import Aesd.Driver.WriteSteps
import Aesd.Driver.ReadSteps

/-!
# The driver is linearizable

The calls, interleaved step by step, show only histories of the atomic device (`linearizable`), never run
into undefined behaviour, and leave what a sequential run of the calls leaves (`quiescent`).
-/

namespace Aesd.Driver.Linearize

open Aesd.Lib.Alloc Aesd.Lib.Alloc.Heap Aesd.Lib.Lock Aesd.Lib.Lts Aesd.Lib.Objects
open Aesd.Lib.SharedLock
open Aesd.Driver.Ring
open Aesd.Driver.Ring.CircularBuffer hiding init
open Aesd.Driver.Device Aesd.Driver.Store Aesd.Driver.Traversal
open Aesd.Driver.Write Aesd.Driver.Read Aesd.Driver.Calls Aesd.Driver.Atomic
open Aesd.Driver.SeekRace (ValidIn positionIn)
open Aesd.Driver.Beside Aesd.Driver.WriteSteps Aesd.Driver.ReadSteps

variable {ι : Type*}

section Steps
variable [DecidableEq ι] {s s' : State ι} {m : Atomic ι (Files ι) Call Result} {i : ι} (h : Rel s m)
include h

theorem matched_call (hpc : s.pc i = .idle) (c : Call) :
    Matched lineStore Rel m (some (.call i c)) (s.goto i (.enter c)) := by
  have hc := h.caller i
  rw [hpc] at hc
  obtain ⟨hpos, hst⟩ := hc
  exact .call hst (h.goto_outside (by rw [hpc]; rfl) rfl (by rw [hpc]; rfl) (by rw [hpc]; rfl)
    (fun j hj => m.put_status_of_ne hj _) rfl (fun _ _ => rfl) ⟨hpos, m.put_status i _⟩)

theorem matched_enter {c : Call} (hpc : s.pc i = .enter c) :
    Matched lineStore Rel m none (s.enter i c) := by
  have hc := h.caller i
  rw [hpc] at hc
  obtain ⟨hpos, hst⟩ := hc
  cases c with
  | write buf =>
    by_cases hlen : buf.length = 0
    · have hw : m.state.store.write buf smoothEnv = (0, m.state.store) := by
        simp [LineStore.write, hlen]
      refine write_takes_effect hst smoothEnv ?_
      rw [hw, State.enter, if_pos hlen]
      exact h.goto_over (by rw [hpc]; rfl) (by rw [hpc]; rfl) (by rw [hpc]; rfl) hpos
    · rw [State.enter, if_neg hlen]
      exact .silent (h.goto_outside (by rw [hpc]; rfl) rfl (by rw [hpc]; rfl) (by rw [hpc]; rfl)
        (fun _ _ => rfl) rfl (fun _ _ => rfl) ⟨hpos, hst, by simpa using hlen⟩)
  | read ubuf =>
    exact .silent (h.goto_outside (by rw [hpc]; rfl) rfl (by rw [hpc]; rfl) (by rw [hpc]; rfl)
      (fun _ _ => rfl) rfl (fun _ _ => rfl) ⟨hpos, hst, by simp [hpos]⟩)
  | llseek offset whence =>
    exact .silent (h.goto_outside (by rw [hpc]; rfl) rfl (by rw [hpc]; rfl) (by rw [hpc]; rfl)
      (fun _ _ => rfl) rfl (fun _ _ => rfl) ⟨hpos, hst⟩)
  | ioctl cmd seekto =>
    by_cases hcmd : cmd = aesdcharIocseekto
    · rw [State.enter, if_pos hcmd]
      exact .silent (h.goto_outside (by rw [hpc]; rfl) rfl (by rw [hpc]; rfl) (by rw [hpc]; rfl)
        (fun _ _ => rfl) rfl (fun _ _ => rfl) ⟨hpos, hcmd ▸ hst⟩)
    · rw [State.enter, if_neg hcmd]
      exact .effect hst (.ioctlCmd seekto hcmd)
        (h.goto_over (by rw [hpc]; rfl) (by rw [hpc]; rfl) (by rw [hpc]; rfl) hpos)

theorem matched_ret {r : Result} (hpc : s.pc i = .ret r) :
    Matched lineStore Rel m (some (.ret i r)) (s.goto i .idle) := by
  have hc := h.caller i
  rw [hpc] at hc
  obtain ⟨hpos, hst⟩ := hc
  exact .ret hst (h.goto_outside (by rw [hpc]; rfl) rfl (by rw [hpc]; rfl) (by rw [hpc]; rfl)
    (fun j hj => m.put_status_of_ne hj _) rfl (fun _ _ => rfl) ⟨hpos, m.put_status i _⟩)

end Steps

/-- **Every step is matched.** -/
theorem rel_step [DecidableEq ι] (s : State ι) (a : ι × Act) (s' : State ι)
    (m : Atomic ι (Files ι) Call Result) (h : Rel s m) (hs : step s a = some s') :
    Matched lineStore Rel m (event s a) s' := by
  obtain ⟨i, act⟩ := a
  simp only [step, h.sane, Bool.false_eq_true, if_false] at hs
  split at hs
  · next c hpc => exact Option.some.inj hs ▸ matched_call h hpc c
  · next hpc => exact Option.some.inj hs ▸ matched_enter h hpc
  · next hpc => exact matched_lockTemp h hpc hs
  · next o hpc => exact Option.some.inj hs ▸ matched_grow h hpc o
  · next hpc => exact Option.some.inj hs ▸ matched_giveUp h hpc
  · next fault hpc => exact Option.some.inj hs ▸ matched_copyIn h hpc fault
  · next hpc => exact Option.some.inj hs ▸ matched_count h hpc
  · next hpc => exact Option.some.inj hs ▸ matched_test h hpc
  · next hpc => exact matched_downWrite h hpc hs
  · next hpc => exact Option.some.inj hs ▸ matched_add h hpc
  · next hpc => exact Option.some.inj hs ▸ matched_free h hpc
  · next hpc => exact Option.some.inj hs ▸ matched_clear h hpc
  · next hpc => exact Option.some.inj hs ▸ matched_upWrite h hpc
  · next hpc => exact Option.some.inj hs ▸ matched_unlockTemp h hpc
  · next hpc => exact matched_downRead h hpc hs
  · next hpc => exact Option.some.inj hs ▸ matched_find h hpc
  · next fault hpc => exact Option.some.inj hs ▸ matched_copyOut h hpc fault
  · next hpc => exact Option.some.inj hs ▸ matched_upRead h hpc
  · next hpc => exact Option.some.inj hs ▸ matched_setPos h hpc
  · next hpc => exact matched_downSeek h hpc hs
  · next hpc => exact Option.some.inj hs ▸ matched_findEOF h hpc
  · next hpc => exact Option.some.inj hs ▸ matched_upSeek h hpc
  · next hpc => exact Option.some.inj hs ▸ matched_seek h hpc
  · next fault hpc => exact Option.some.inj hs ▸ matched_copyCmd h hpc fault
  · next hpc => exact matched_downIoctl h hpc hs
  · next hpc => exact Option.some.inj hs ▸ matched_findAbsolute h hpc
  · next hpc => exact Option.some.inj hs ▸ matched_upIoctl h hpc
  · next r hpc =>
    have hevent : event s (i, .ret) = some (.ret i r) := by simp only [event, hpc]
    rw [hevent]
    exact Option.some.inj hs ▸ matched_ret h hpc
  · cases hs

/-! ### Every run -/

section Runs
variable [DecidableEq ι] {as : List (ι × Act)} {s : State ι}

/-- **The driver is linearizable.** However the openers' calls are interleaved, and whatever the kernel
decides, what they see is a history of the atomic device. -/
theorem linearizable (hr : run step (init ι) as = some s) :
    Linearizable lineStore (Files.init ι) (history step event (init ι) as) :=
  linearizable_of_simulates rel_step rel_init hr

/-- One opener writes a line while the other one reads, finds no line yet, and reads again. The first
read holds the semaphore when the writer wants it. -/
def twoOpeners : List (Bool × Act) :=
  [(false, .call (.write [newline])), (false, .go), (false, .lock false), (true, .call (.read [0])),
    (true, .go), (true, .lock false), (false, .alloc (.ok false fun _ => 0)), (false, .copy none),
    (false, .go), (false, .go), (true, .go), (true, .go), (true, .go), (true, .ret),
    (false, .lock false), (false, .go), (true, .call (.read [0])), (true, .go), (false, .go),
    (false, .go), (false, .go), (true, .lock false), (true, .go), (true, .copy none), (false, .go),
    (false, .ret), (true, .go), (true, .go), (true, .go), (true, .ret)]

theorem run_twoOpeners : ∃ s, run step (init Bool) twoOpeners = some s ∧ ∀ i, s.pc i = .idle := by
  have hrun : (run step (init Bool) twoOpeners).any (fun s => decide (∀ i, s.pc i = .idle)) = true := by
    decide +kernel
  obtain ⟨s, hs, hidle⟩ := (Option.any_eq_true _ _).mp hrun
  exact ⟨s, hs, of_decide_eq_true hidle⟩

theorem linearizable_twoOpeners : ∃ s, run step (init Bool) twoOpeners = some s ∧
    Linearizable lineStore (Files.init Bool) (history step event (init Bool) twoOpeners) := by
  obtain ⟨s, hs, -⟩ := run_twoOpeners
  exact ⟨s, hs, linearizable hs⟩

/-- What the two openers see. -/
example : history step event (init Bool) twoOpeners =
    [.call false (.write [newline]), .call true (.read [0]), .ret true ⟨0, [0]⟩,
      .call true (.read [0]), .ret false ⟨1, []⟩, .ret true ⟨1, [newline]⟩] := by rfl

/-- **The driver between the calls**: no run meets undefined behaviour; and when no call is under way, the
locks are free, the device owns its memory, and its lines and the positions of the openers are those that
the calls of the run leave one after the other, each at a moment between its call and its return. -/
theorem quiescent (hr : run step (init ι) as = some s) :
    s.fault = false ∧ ((∀ i, s.pc i = .idle) → s.tempEntryMutex = none ∧
      s.circularBufferSemaphore = RwLock.free ∧ Owned s.dev ∧
      ∃ t m, Moves lineStore (.start (Files.init ι)) t m ∧ visible t = history step event (init ι) as ∧
        Sequential lineStore (Files.init ι) (effects t) m.state ∧ view s.dev = m.state.store ∧
        ∀ i, s.fpos i = m.state.fpos i) := by
  obtain ⟨t, m, hmoves, hvisible, hrel⟩ := moves_of_simulates rel_step rel_init hr
  refine ⟨hrel.sane, fun hidle => ?_⟩
  have hmutex : s.tempEntryMutex = none := by
    rcases hm : s.tempEntryMutex with _ | i
    · rfl
    · have hl : locked (s.pc i) = true := (hrel.mutex i).mpr hm
      rw [hidle i] at hl
      cases hl
  have hsem : s.circularBufferSemaphore = RwLock.free := hrel.sem.eq_free
    (fun i => by simp [hidle i, reading]) fun i => by simp [hidle i, writing]
  obtain ⟨howned, hview⟩ := hrel.free hmutex
  refine ⟨hmutex, hsem, howned, t, m, hmoves, hvisible, hmoves.sequential, hview, fun i => ?_⟩
  have hc := hrel.caller i
  rw [hidle i] at hc
  exact hc.1

/-- The write and the two reads took effect in some order, and the line is stored. -/
theorem quiescent_twoOpeners : ∃ s, run step (init Bool) twoOpeners = some s ∧ s.fault = false ∧
    Owned s.dev ∧ (view s.dev).entries = [[newline]] ∧
    ∃ t m, Moves lineStore (.start (Files.init Bool)) t m ∧
      visible t = [.call false (.write [newline]), .call true (.read [0]), .ret true ⟨0, [0]⟩,
        .call true (.read [0]), .ret false ⟨1, []⟩, .ret true ⟨1, [newline]⟩] ∧
      Sequential lineStore (Files.init Bool) (effects t) m.state ∧ view s.dev = m.state.store := by
  obtain ⟨s, hs, hidle⟩ := run_twoOpeners
  have hline : (run step (init Bool) twoOpeners).map (fun s => (view s.dev).entries) =
      some [[newline]] := by decide +kernel
  rw [hs] at hline
  obtain ⟨hsane, hquiet⟩ := quiescent hs
  obtain ⟨-, -, howned, t, m, hmoves, hvisible, hseq, hview, -⟩ := hquiet hidle
  exact ⟨s, hs, hsane, howned, Option.some.inj hline, t, m, hmoves, hvisible, hseq, hview⟩

end Runs

end Aesd.Driver.Linearize
