import Aesd.Threads.Bookkeeping

/-!
# The thread handler is woken

While the handler sleeps, or is about to, a completed node in the list is that of a thread which is
before its `pthread_cond_signal` (`Alert.completed`). The broadcast of the main thread is made under the
mutex, after `process_running` is reset; so after it the handler neither waits in its loop nor is on the
way there with an old value of `process_running` (`Alert.woken`). In the forced join it waits for a node
in the list that has a thread, and only the handler takes such a node out (`Alert.awaited`).
-/

namespace Aesd.Threads.Wakeup

open Aesd.Lib.Lts
open Aesd.Threads.Model Aesd.Threads.Steps Aesd.Threads.Exclusion Aesd.Threads.Nodes
open Aesd.Threads.Accounting Aesd.Threads.Bookkeeping

/-- The handler waits and is not notified, or is about to wait. -/
def dozes : HandlerPc → Bool
  | .sleep _ | .wait _ false => true
  | _ => false

/-- The handler waits in its loop, or is on the way there. -/
def idles : HandlerPc → Bool
  | .scan | .sleep false | .wait false false => true
  | _ => false

/-- The handler waits in the forced join, or is on the way there. -/
def awaits : HandlerPc → Bool
  | .forcedScan | .sleep true | .wait true _ => true
  | _ => false

/-- The main thread is past `stop_server_process`. -/
def stopped : MainPc → Bool
  | .wakeLock | .broadcast | .wakeUnlock | .join | .done => true
  | _ => false

/-- The main thread is past `pthread_cond_broadcast`. -/
def broadcasted : MainPc → Bool
  | .wakeUnlock | .join | .done => true
  | _ => false

/-- **No wake-up of the handler is lost.** -/
structure Alert (s : State) : Prop where
  completed : dozes s.handler = true → ∀ n ∈ s.books.list, s.books.Completed n →
    s.books.client n = some .signal
  running : stopped s.main = true → s.running = false
  woken : broadcasted s.main = true → idles s.handler = false
  awaited : awaits s.handler = true → ∃ n ∈ s.books.list, s.books.client n ≠ none

variable {s s' : State} {act : Act} {as : List Act} {n : ℕ}

@[simp] theorem dozes_woken (forced : Bool) : dozes (.woken forced) = false := by
  cases forced <;> rfl

@[simp] theorem idles_woken (forced : Bool) : idles (.woken forced) = false := by
  cases forced <;> rfl

@[simp] theorem awaits_woken (forced : Bool) : awaits (.woken forced) = false := by
  cases forced <;> rfl

@[simp] theorem dozes_back (forced : Bool) : dozes (.back forced) = false := by
  cases forced <;> rfl

@[simp] theorem idles_back (forced : Bool) : idles (.back forced) = false := by
  cases forced <;> rfl

@[simp] theorem awaits_back (forced : Bool) : awaits (.back forced) = false := by
  cases forced <;> rfl

@[simp] theorem awaits_notified (pc : HandlerPc) : awaits pc.notified = awaits pc := by
  cases pc with
  | wait forced notified => cases forced <;> rfl
  | _ => rfl

/-- A handler outside the mutex that is notified does not doze. -/
theorem dozes_notified {pc : HandlerPc} (h : pc.inside = false) : dozes pc.notified = false := by
  cases pc <;> first | rfl | cases h

theorem idles_notified {pc : HandlerPc} (h : pc.inside = false) : idles pc.notified = false := by
  cases pc with
  | wait forced notified => cases forced <;> rfl
  | _ => first | rfl | cases h

theorem idles_of_notified {pc : HandlerPc} (h : idles pc = false) : idles pc.notified = false := by
  cases pc with
  | wait forced notified => cases forced <;> rfl
  | _ => exact h

theorem alert_init : Alert init := by
  constructor <;> intro h <;> cases h

namespace Alert

/-! ### The main thread -/

/-- A step of the main thread completes no node in the list, and takes none out that has a thread. -/
structure Frame (b b' : Books) : Prop where
  completed : ∀ n ∈ b'.list, b'.Completed n → n ∈ b.list ∧ b.Completed n ∧ b'.client n = b.client n
  threads : ∀ n ∈ b.list, b.client n ≠ none → n ∈ b'.list ∧ b'.client n ≠ none

theorem Frame.refl (b : Books) : Frame b b :=
  ⟨fun _ hn hc => ⟨hn, hc, rfl⟩, fun _ hn hc => ⟨hn, hc⟩⟩

/-- A step that touches the node `m` has to be looked at there only. -/
theorem Frame.of_same {b b' : Books} {m : ℕ} (hs : ∀ n, n ≠ m → Same b b' n)
    (hc : m ∈ b'.list → b'.Completed m → m ∈ b.list ∧ b.Completed m ∧ b'.client m = b.client m)
    (ht : m ∈ b.list → b.client m ≠ none → m ∈ b'.list ∧ b'.client m ≠ none) : Frame b b' := by
  constructor
  · intro n hn hcn
    by_cases hne : n = m
    · rw [hne] at hn hcn ⊢
      exact hc hn hcn
    · have hsame := hs n hne
      exact ⟨hsame.list.mp hn, hsame.completed.mp hcn, hsame.client⟩
  · intro n hn hcl
    by_cases hne : n = m
    · rw [hne] at hn hcl ⊢
      exact ht hn hcl
    · have hsame := hs n hne
      exact ⟨hsame.list.mpr hn, hsame.client ▸ hcl⟩

theorem not_completed_single {b : Books} {fd m : ℕ} (hb : Single b m fd) : ¬ b.Completed m := by
  rintro ⟨nd, hnd, hcomp⟩
  obtain rfl : nd = ⟨0, false, some fd⟩ := Option.some.inj (hnd.symm.trans hb.node)
  cases hcomp

theorem frame_add (b : Books) (fd : ℕ) : Frame b (b.add fd) := by
  refine .of_same (m := b.next) (fun n hne => same_add b fd hne) ?_
    fun hn hcl => ⟨List.mem_cons_of_mem _ hn, hcl⟩
  rintro - ⟨nd, hnd, hcomp⟩
  simp only [Books.add, Function.update_self, Option.some.injEq] at hnd
  subst hnd
  cases hcomp

theorem frame_spawn {b : Books} {fd m id : ℕ} (hb : Single b m fd) (hi : b.threads id = none) :
    Frame b (b.spawn m id) := by
  have hno := not_completed_single hb
  exact .of_same (fun n hne => same_spawn hi hne) (fun _ hc => absurd hc hno)
    fun hn _ => ⟨hn, by simp [Books.spawn]⟩

theorem frame_undo {b : Books} {fd m : ℕ} {l : List ℕ} (hb : Single b m fd) (hl : b.list = m :: l) :
    Frame b { b with list := l } := by
  have hno := not_completed_single hb
  exact .of_same (fun n hne => same_tail hl hne) (fun _ hc => absurd hc hno)
    fun _ hcl => absurd hb.client hcl

theorem frame_free {b : Books} {m : ℕ} (hm : m ∉ b.list) : Frame b (b.free m) :=
  .of_same (fun _ hne => same_free b hne) (fun hn => absurd hn hm) fun hn => absurd hn hm

theorem frame_setNode {b : Books} {m : ℕ} {nd nd' : ThreadNode} (hn : b.node m = some nd)
    (hc : nd'.threadCompleted = nd.threadCompleted) : Frame b (b.setNode m nd') := by
  refine .of_same (fun n hne => same_setNode b nd' hne) ?_ fun hin hcl => ⟨hin, hcl⟩
  rintro hin ⟨nd₁, hn₁, hc₁⟩
  simp only [Books.setNode, Function.update_self, Option.some.injEq] at hn₁
  exact ⟨hin, ⟨nd, hn, by rw [← hc, hn₁, hc₁]⟩, rfl⟩

/-- What the main thread establishes. -/
theorem of_main (h : Alert s) (hb : Frame s.books s'.books) (hh : s'.handler = s.handler)
    (hr : stopped s'.main = true → s'.running = false)
    (hw : broadcasted s'.main = true → broadcasted s.main = true) : Alert s' := by
  constructor
  · intro hd n hn hc
    obtain ⟨hn', hc', hcl⟩ := hb.completed n hn hc
    rw [hcl]
    exact h.completed (hh ▸ hd) n hn' hc'
  · exact hr
  · intro hm
    rw [hh]
    exact h.woken (hw hm)
  · intro ha
    obtain ⟨n, hn, hc⟩ := h.awaited (hh ▸ ha)
    exact ⟨n, hb.threads n hn hc⟩

theorem mainStep (h : Alert s) (hi : Inv s) (hm : MainStep s act s') : Alert s' := by
  cases hm with
  | testOn | testOff | acceptFailed | accepted | lock | addFailed | spawnFailed | unlock | unlockFailed
  | close => exact h.of_main (.refl _) rfl nofun nofun
  | stop => exact h.of_main (.refl _) rfl (fun _ => rfl) nofun
  | wakeLock hp =>
    exact h.of_main (.refl _) rfl (fun _ => h.running (by rw [hp]; rfl)) nofun
  | wakeUnlock hp | join hp =>
    exact h.of_main (.refl _) rfl (fun _ => h.running (by rw [hp]; rfl)) fun _ => by rw [hp]; rfl
  | @add fd hp =>
    exact h.of_main (frame_add _ fd) rfl nofun nofun
  | @spawn fd m id hp hid =>
    have ha := hi.kept.main_account (n := m) (by rw [hp]; rfl)
    exact h.of_main (frame_spawn ha.2 hid) rfl nofun nofun
  | @undo fd m l hp hl =>
    have ha := hi.kept.main_account (n := m) (by rw [hp]; rfl)
    exact h.of_main (frame_undo ha.2 hl) rfl nofun nofun
  | @release fd m hp =>
    have ha := hi.kept.main_account (n := m) (by rw [hp]; rfl)
    exact h.of_main (frame_free ha.1) rfl nofun nofun
  | setId hp hn =>
    exact h.of_main (frame_setNode hn rfl) rfl nofun nofun
  | broadcast hp =>
    -- the handler is outside: it is notified if it waits, and on the way to no wait
    have hout : s.handler.inside = false := hi.kept.locked.handler_of_main (by rw [hp]; rfl)
    constructor
    · intro hd
      have hd' : dozes s.handler.notified = true := hd
      rw [dozes_notified hout] at hd'
      cases hd'
    · intro _
      exact h.running (by rw [hp]; rfl)
    · intro _
      exact idles_notified hout
    · intro ha
      exact h.awaited (by rw [← awaits_notified]; exact ha)

/-! ### The thread handler -/

/-- A handler that neither dozes nor waits, nor is on the way there. -/
theorem of_awake (h : Alert s) (hd : dozes s'.handler = false) (hi : idles s'.handler = false)
    (ha : awaits s'.handler = false) (hm : s'.main = s.main) (hr : s'.running = s.running) :
    Alert s' := by
  constructor
  · intro hd'
    rw [hd] at hd'
    cases hd'
  · intro hs
    rw [hr]
    exact h.running (hm ▸ hs)
  · intro _
    exact hi
  · intro ha'
    rw [ha] at ha'
    cases ha'

theorem handlerStep (h : Alert s) (hi : Inv s) (hh : HandlerStep s s') : Alert s' := by
  cases hh with
  | lock | outerOn | outerOff | innerOff | scanFound | testOn | testOff | visitCompleted | visitNext
  | join | remove | free | unlock | forceLock | closeEnd | closeNone | closeSome | forcedOuterEnd
  | forcedOuter | forcedInnerEnd | forcedScanFound | forceUnlock =>
    exact h.of_awake rfl rfl rfl rfl rfl
  | wake => exact h.of_awake (dozes_woken _) (idles_woken _) (awaits_woken _) rfl rfl
  | visitEnd => exact h.of_awake (dozes_back _) (idles_back _) (awaits_back _) rfl rfl
  | innerOn hp hr =>
    refine ⟨nofun, h.running, fun hb => ?_, nofun⟩
    -- `process_running` was just read, and is reset before the broadcast
    have hstop : stopped s.main = true := by
      have hb' : broadcasted s.main = true := hb
      cases hm : s.main <;> simp_all [broadcasted, stopped]
    rw [h.running hstop] at hr
    cases hr
  | scanNone hp hc =>
    refine ⟨fun _ n hn hcn => absurd hcn (hc n hn), h.running, fun hb => ?_, nofun⟩
    have := h.woken hb
    rw [hp] at this
    cases this
  | forcedInner hp hl =>
    refine ⟨nofun, h.running, fun _ => rfl, fun _ => ?_⟩
    obtain ⟨m, l, hml⟩ := List.exists_cons_of_ne_nil hl
    have hm : m ∈ s.books.list := by rw [hml]; exact List.mem_cons_self
    have ha := hi.kept.accounts_of_handler (f := none) (by rw [hp]; rfl) (by rw [hp]; rfl)
    rcases ha.account m with ⟨-, nd, pc, hr, -⟩ | ⟨hout, -⟩
    · exact ⟨m, hm, by simp [hr.client]⟩
    · exact absurd hm hout
  | forcedScanNone hp hc =>
    exact ⟨fun _ n hn hcn => absurd hcn (hc n hn), h.running, fun _ => rfl,
      fun _ => h.awaited (by rw [hp]; rfl)⟩
  | @sleep forced hp =>
    refine ⟨fun _ => h.completed (by rw [hp]; rfl), h.running, fun hb => ?_, fun ha => ?_⟩
    · have := h.woken hb
      rw [hp] at this
      cases forced <;> first | rfl | exact this
    · refine h.awaited ?_
      rw [hp]
      cases forced <;> first | rfl | exact ha

/-! ### The client threads -/

/-- What a client thread establishes that does not signal. -/
theorem of_client (h : Alert s) {pc : ClientPc} (hm : s'.main = s.main) (hr : s'.running = s.running)
    (hh : s'.handler = s.handler) (hl : s'.books.list = s.books.list)
    (hc : s'.books.client = Function.update s.books.client n (some pc))
    (hn : s'.books.Completed n → pc = .signal ∨ s.books.Completed n ∧ s.books.client n ≠ some .signal)
    (hne : ∀ m, m ≠ n → s'.books.Completed m → s.books.Completed m) : Alert s' := by
  constructor
  · intro hd m hmem hcm
    rw [hl] at hmem
    rw [hh] at hd
    by_cases hmn : m = n
    · rw [hmn] at hmem hcm ⊢
      rcases hn hcm with hpc | ⟨hcn, hcl⟩
      · rw [hc, hpc, Function.update_self]
      · exact absurd (h.completed hd n hmem hcn) hcl
    · rw [hc, Function.update_of_ne hmn]
      exact h.completed hd m hmem (hne m hmn hcm)
  · intro hs
    rw [hr]
    exact h.running (hm ▸ hs)
  · intro hb
    rw [hh]
    exact h.woken (hm ▸ hb)
  · intro ha
    obtain ⟨m, hmem, hcm⟩ := h.awaited (hh ▸ ha)
    refine ⟨m, hl ▸ hmem, ?_⟩
    rw [hc]
    by_cases hmn : m = n
    · simp [hmn]
    · rwa [Function.update_of_ne hmn]

theorem clientStep (h : Alert s) (hi : Inv s) (hc : ClientStep s n s') : Alert s' := by
  cases hc with
  | start hp | run hp | lock hp | closeNone hp | unlock hp | exiting hp =>
    exact h.of_client rfl rfl rfl rfl rfl (fun hcn => Or.inr ⟨hcn, by simp [hp]⟩) fun _ _ hcm => hcm
  | @closeSome nd fd m hp hn =>
    refine h.of_client rfl rfl rfl rfl rfl (fun hcn => Or.inr ⟨?_, by simp [hp]⟩) fun k hk hck => ?_
    · obtain ⟨nd', hn', hc'⟩ := hcn
      simp only [Books.setClient, Books.setNode, Function.update_self, Option.some.injEq] at hn'
      exact ⟨nd, hn, by rw [← hn'] at hc'; exact hc'⟩
    · simpa [Books.Completed, Books.setClient, Books.setNode, hk] using hck
  | @complete nd hp hn =>
    refine h.of_client rfl rfl rfl rfl rfl (fun _ => Or.inl rfl) fun k hk hck => ?_
    simpa [Books.Completed, Books.setClient, Books.setNode, hk] using hck
  | signal hp =>
    -- the handler is outside, so it does not doze after the signal
    have hout : s.handler.inside = false := hi.kept.locked.handler_of_client hp rfl
    constructor
    · intro hd
      have hd' : dozes s.handler.notified = true := hd
      rw [dozes_notified hout] at hd'
      cases hd'
    · exact h.running
    · intro hb
      exact idles_of_notified (h.woken hb)
    · intro ha
      obtain ⟨m, hm, hcm⟩ := h.awaited (by rw [← awaits_notified]; exact ha)
      refine ⟨m, hm, ?_⟩
      by_cases hmn : m = n
      · simp [Books.setClient, hmn]
      · simpa [Books.setClient, hmn] using hcm

theorem step (h : Alert s) (hi : Inv s) (hs : Step s act s') : Alert s' := by
  cases hs with
  | signal => exact ⟨h.completed, fun _ => rfl, h.woken, h.awaited⟩
  | @spurious forced hp =>
    refine ⟨nofun, h.running, fun _ => (by cases forced <;> rfl), fun ha => ?_⟩
    refine h.awaited ?_
    rw [hp]
    cases forced <;> first | rfl | exact ha
  | main hm => exact h.mainStep hi hm
  | handler hh => exact h.handlerStep hi hh
  | client hc => exact h.clientStep hi hc

end Alert

theorem alert_of_run (hr : run step init as = some s) : Alert s := by
  have hboth : Inv s ∧ Alert s :=
    run_invariant (P := fun s => Inv s ∧ Alert s)
      (fun _ _ _ h hs => ⟨h.1.step hs, h.2.step h.1 (.of_step h.1.safe hs)⟩)
      ⟨inv_init, alert_init⟩ hr
  exact hboth.2

/-- **No lost wake-up.** If the mutex is free and the handler waits without being notified, then no
node in the list is completed; it waits in its loop only while the main thread is not through
`wake_thread_handler`, and in the forced join only while the list is not empty. -/
theorem no_lost_wakeup (as : List Act) {forced : Bool} (hr : run step init as = some s)
    (hm : s.mutex = none) (hw : s.handler = .wait forced false) :
    (∀ n ∈ s.books.list, ¬ s.books.Completed n) ∧
      (forced = false → s.main ≠ .wakeUnlock ∧ s.main ≠ .join ∧ s.main ≠ .done) ∧
      (forced = true → s.books.list ≠ []) := by
  have h := alert_of_run hr
  refine ⟨fun n hn hc => ?_, ?_, ?_⟩
  · -- its thread would be before `pthread_cond_signal`, inside the mutex
    have hsig := h.completed (by rw [hw]; rfl) n hn hc
    exact ((inv_of_run hr).kept.locked.free hm).outside (.client n) ⟨.signal, hsig, rfl⟩
  · rintro rfl
    have hno : ¬ broadcasted s.main = true := by
      intro hb
      have hidle := h.woken hb
      rw [hw] at hidle
      cases hidle
    refine ⟨?_, ?_, ?_⟩ <;> intro he <;> exact hno (by rw [he]; rfl)
  · rintro rfl
    obtain ⟨n, hn, -⟩ := h.awaited (by rw [hw]; rfl)
    exact List.ne_nil_of_mem hn

/-- A signal comes while a client is served: the handler closes its socket and waits for its thread. -/
def signalled : List Act :=
  connect ++ List.replicate 5 Act.handler ++ [Act.signal] ++ List.replicate 5 Act.main ++
    List.replicate 12 Act.handler

theorem no_lost_wakeup_signalled : ∃ s, run step init signalled = some s ∧
    s.handler = .wait true false ∧ s.books.list = [0] ∧ (∀ n ∈ s.books.list, ¬ s.books.Completed n) ∧
      (true = false → s.main ≠ .wakeUnlock ∧ s.main ≠ .join ∧ s.main ≠ .done) ∧
      (true = true → s.books.list ≠ []) := by
  have hrun : (run step init signalled).map (fun s => (s.mutex, s.handler, s.books.list)) =
      some (none, .wait true false, [0]) := by decide
  obtain ⟨s, hr, he⟩ := Option.map_eq_some_iff.mp hrun
  obtain ⟨hm, hw, hl⟩ : s.mutex = none ∧ s.handler = .wait true false ∧ s.books.list = [0] := by
    simpa using he
  exact ⟨s, hr, hw, hl, no_lost_wakeup signalled hr hm hw⟩

end Aesd.Threads.Wakeup
