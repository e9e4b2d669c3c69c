import Aesd.Threads.Model

/-!
# What a step does

`Safe` says that the next access of every thread is to something that is there. From a safe state each
step is one of the list below, which the invariants of the modules after this one go through case by
case; that every reachable state is safe is shown with them, in `Bookkeeping`.
-/

namespace Aesd.Threads.Steps

open Aesd.Lib.Handles
open Aesd.Threads.Model

/-- No thread is about to make a mistake. -/
structure Safe (s : State) : Prop where
  fault : s.fault = false
  listed : ∀ n ∈ s.books.list, s.books.Live n
  main : ∀ n, s.main.node = some n → s.books.Live n
  undo : ∀ fd n, s.main = .undo fd n → s.books.list.head? = some n
  mainFd : ∀ fd, s.main.fd = some fd → ∃ m, s.files.object fd = some m
  handler : ∀ n, s.handler.node = some n → s.books.Live n
  join : ∀ forced n rest nd, s.handler = .join forced n rest → s.books.node n = some nd →
    s.books.threads nd.threadId = some n
  remove : ∀ forced n rest, s.handler = .remove forced n rest → n ∈ s.books.list
  client : ∀ n pc, s.books.client n = some pc → pc ≠ .exited → s.books.Live n
  nodeFd : ∀ n nd fd, s.books.node n = some nd → nd.clientSockFd = some fd →
    ∃ m, s.files.object fd = some m

/-- The steps of the main thread from a safe state. -/
inductive MainStep (s : State) : Act → State → Prop
  | testOn (h : s.main = .test) (hr : s.running = true) : MainStep s .main { s with main := .accept }
  | testOff (h : s.main = .test) (hr : s.running = false) : MainStep s .main { s with main := .stop }
  | acceptFailed (h : s.main = .accept) : MainStep s (.accept none) { s with main := .stop }
  | accepted {fd : ℕ} (h : s.main = .accept) (hf : s.files.object fd = none) :
      MainStep s (.accept (some fd)) { s with files := s.files.give fd, main := .create fd }
  | lock {fd : ℕ} (h : s.main = .create fd) (hm : s.mutex = none) :
      MainStep s .main { s with mutex := some .main, main := .add fd }
  | add {fd : ℕ} (h : s.main = .add fd) :
      MainStep s (.malloc true) { s with books := s.books.add fd, main := .spawn fd s.books.next }
  | addFailed {fd : ℕ} (h : s.main = .add fd) :
      MainStep s (.malloc false) { s with main := .unlock (some fd) }
  | spawn {fd n id : ℕ} (h : s.main = .spawn fd n) (hi : s.books.threads id = none) :
      MainStep s (.create (some id)) { s with books := s.books.spawn n id, main := .setId n id }
  | spawnFailed {fd n : ℕ} (h : s.main = .spawn fd n) :
      MainStep s (.create none) { s with main := .undo fd n }
  | undo {fd n : ℕ} {l : List ℕ} (h : s.main = .undo fd n) (hl : s.books.list = n :: l) :
      MainStep s .main { s with books := { s.books with list := l }, main := .release fd n }
  | release {fd n : ℕ} (h : s.main = .release fd n) :
      MainStep s .main { s with books := s.books.free n, main := .unlock (some fd) }
  | setId {n id : ℕ} {nd : ThreadNode} (h : s.main = .setId n id) (hn : s.books.node n = some nd) :
      MainStep s .main
        { s with books := s.books.setNode n { nd with threadId := id }, main := .unlock none }
  | unlock (h : s.main = .unlock none) : MainStep s .main { s with mutex := none, main := .test }
  | unlockFailed {fd : ℕ} (h : s.main = .unlock (some fd)) :
      MainStep s .main { s with mutex := none, main := .close fd }
  | close {fd m : ℕ} (h : s.main = .close fd) (hf : s.files.object fd = some m) :
      MainStep s .main { s with files := s.files.close fd m, main := .stop }
  | stop (h : s.main = .stop) : MainStep s .main { s with running := false, main := .wakeLock }
  | wakeLock (h : s.main = .wakeLock) (hm : s.mutex = none) :
      MainStep s .main { s with mutex := some .main, main := .broadcast }
  | broadcast (h : s.main = .broadcast) :
      MainStep s .main { s with handler := s.handler.notified, main := .wakeUnlock }
  | wakeUnlock (h : s.main = .wakeUnlock) : MainStep s .main { s with mutex := none, main := .join }
  | join (h : s.main = .join) (hh : s.handler = .exit) : MainStep s .main { s with main := .done }

/-- The steps of the thread handler from a safe state. -/
inductive HandlerStep (s : State) : State → Prop
  | lock (h : s.handler = .lock) (hm : s.mutex = none) :
      HandlerStep s { s with mutex := some .handler, handler := .outer }
  | outerOn (h : s.handler = .outer) (hr : s.running = true) :
      HandlerStep s { s with handler := .inner }
  | outerOff (h : s.handler = .outer) (hr : s.running = false) :
      HandlerStep s { s with handler := .unlock }
  | innerOn (h : s.handler = .inner) (hr : s.running = true) :
      HandlerStep s { s with handler := .scan }
  | innerOff (h : s.handler = .inner) (hr : s.running = false) :
      HandlerStep s { s with handler := .test }
  | scanFound (h : s.handler = .scan) (hc : ∃ n ∈ s.books.list, s.books.Completed n) :
      HandlerStep s { s with handler := .test }
  | scanNone (h : s.handler = .scan) (hc : ∀ n ∈ s.books.list, ¬ s.books.Completed n) :
      HandlerStep s { s with handler := .sleep false }
  | sleep {forced : Bool} (h : s.handler = .sleep forced) :
      HandlerStep s { s with mutex := none, handler := .wait forced false }
  | wake {forced : Bool} (h : s.handler = .wait forced true) (hm : s.mutex = none) :
      HandlerStep s { s with mutex := some .handler, handler := .woken forced }
  | testOn (h : s.handler = .test) (hr : s.running = true) :
      HandlerStep s { s with handler := .visit false s.books.list }
  | testOff (h : s.handler = .test) (hr : s.running = false) :
      HandlerStep s { s with handler := .outer }
  | visitEnd {forced : Bool} (h : s.handler = .visit forced []) :
      HandlerStep s { s with handler := .back forced }
  | visitCompleted {forced : Bool} {n : ℕ} {rest : List ℕ} (h : s.handler = .visit forced (n :: rest))
      (hc : s.books.Completed n) : HandlerStep s { s with handler := .join forced n rest }
  | visitNext {forced : Bool} {n : ℕ} {rest : List ℕ} (h : s.handler = .visit forced (n :: rest))
      (hc : ¬ s.books.Completed n) : HandlerStep s { s with handler := .visit forced rest }
  | join {forced : Bool} {n : ℕ} {rest : List ℕ} {nd : ThreadNode}
      (h : s.handler = .join forced n rest) (hn : s.books.node n = some nd)
      (hc : s.books.client n = some .exited) :
      HandlerStep s { s with books := s.books.join n nd.threadId, handler := .remove forced n rest }
  | remove {forced : Bool} {n : ℕ} {rest : List ℕ} (h : s.handler = .remove forced n rest) :
      HandlerStep s { s with
        books := { s.books with list := s.books.list.erase n }, handler := .free forced n rest }
  | free {forced : Bool} {n : ℕ} {rest : List ℕ} (h : s.handler = .free forced n rest) :
      HandlerStep s { s with books := s.books.free n, handler := .visit forced rest }
  | unlock (h : s.handler = .unlock) : HandlerStep s { s with mutex := none, handler := .forceLock }
  | forceLock (h : s.handler = .forceLock) (hm : s.mutex = none) :
      HandlerStep s { s with mutex := some .handler, handler := .close s.books.list }
  | closeEnd (h : s.handler = .close []) : HandlerStep s { s with handler := .forcedOuter }
  | closeNone {n : ℕ} {rest : List ℕ} {nd : ThreadNode} (h : s.handler = .close (n :: rest))
      (hn : s.books.node n = some nd) (hf : nd.clientSockFd = none) :
      HandlerStep s { s with handler := .close rest }
  | closeSome {n fd m : ℕ} {rest : List ℕ} {nd : ThreadNode} (h : s.handler = .close (n :: rest))
      (hn : s.books.node n = some nd) (hf : nd.clientSockFd = some fd)
      (hm : s.files.object fd = some m) :
      HandlerStep s { s with
        files := s.files.close fd m
        books := s.books.setNode n { nd with clientSockFd := none }
        handler := .close rest }
  | forcedOuterEnd (h : s.handler = .forcedOuter) (hl : s.books.list = []) :
      HandlerStep s { s with handler := .forceUnlock }
  | forcedOuter (h : s.handler = .forcedOuter) (hl : s.books.list ≠ []) :
      HandlerStep s { s with handler := .forcedInner }
  | forcedInnerEnd (h : s.handler = .forcedInner) (hl : s.books.list = []) :
      HandlerStep s { s with handler := .visit true s.books.list }
  | forcedInner (h : s.handler = .forcedInner) (hl : s.books.list ≠ []) :
      HandlerStep s { s with handler := .forcedScan }
  | forcedScanFound (h : s.handler = .forcedScan) (hc : ∃ n ∈ s.books.list, s.books.Completed n) :
      HandlerStep s { s with handler := .visit true s.books.list }
  | forcedScanNone (h : s.handler = .forcedScan)
      (hc : ∀ n ∈ s.books.list, ¬ s.books.Completed n) :
      HandlerStep s { s with handler := .sleep true }
  | forceUnlock (h : s.handler = .forceUnlock) :
      HandlerStep s { s with mutex := none, handler := .exit }

/-- The steps of the client thread of node `n` from a safe state. -/
inductive ClientStep (s : State) (n : ℕ) : State → Prop
  | start (h : s.books.client n = some .start) :
      ClientStep s n { s with books := s.books.setClient n .run }
  | run (h : s.books.client n = some .run) :
      ClientStep s n { s with books := s.books.setClient n .lock }
  | lock (h : s.books.client n = some .lock) (hm : s.mutex = none) :
      ClientStep s n { s with mutex := some (.client n), books := s.books.setClient n .close }
  | closeNone {nd : ThreadNode} (h : s.books.client n = some .close) (hn : s.books.node n = some nd)
      (hf : nd.clientSockFd = none) :
      ClientStep s n { s with books := s.books.setClient n .complete }
  | closeSome {nd : ThreadNode} {fd m : ℕ} (h : s.books.client n = some .close)
      (hn : s.books.node n = some nd) (hf : nd.clientSockFd = some fd)
      (hm : s.files.object fd = some m) :
      ClientStep s n { s with
        files := s.files.close fd m
        books := (s.books.setNode n { nd with clientSockFd := none }).setClient n .complete }
  | complete {nd : ThreadNode} (h : s.books.client n = some .complete)
      (hn : s.books.node n = some nd) :
      ClientStep s n { s with
        books := (s.books.setNode n { nd with threadCompleted := true }).setClient n .signal }
  | signal (h : s.books.client n = some .signal) :
      ClientStep s n
        { s with handler := s.handler.notified, books := s.books.setClient n .unlock }
  | unlock (h : s.books.client n = some .unlock) :
      ClientStep s n { s with mutex := none, books := s.books.setClient n .exiting }
  | exiting (h : s.books.client n = some .exiting) :
      ClientStep s n { s with books := s.books.setClient n .exited }

/-- The steps of the server from a safe state. -/
inductive Step (s : State) : Act → State → Prop
  | signal : Step s .signal { s with running := false }
  | spurious {forced : Bool} (h : s.handler = .wait forced false) :
      Step s .spurious { s with handler := .wait forced true }
  | main {act : Act} {s' : State} (h : MainStep s act s') : Step s act s'
  | handler {s' : State} (h : HandlerStep s s') : Step s .handler s'
  | client {n : ℕ} {s' : State} (h : ClientStep s n s') : Step s (.client n) s'

/-! ### Every step is on the list -/

variable {s s' : State} {act : Act} {n : ℕ}

theorem lock_eq_some {t : Thread} :
    s.lock t = some s' ↔ s.mutex = none ∧ s' = { s with mutex := some t } := by
  unfold State.lock
  cases s.mutex <;> simp [eq_comm]

theorem deref_of_live {nd : ThreadNode} {k : ThreadNode → Option State}
    (hn : s.books.node n = some nd) : s.deref n k = k nd := by
  simp [State.deref, hn]

theorem freeNode_of_live (h : s.books.Live n) :
    s.freeNode n = some { s with books := s.books.free n } := by
  obtain ⟨nd, hn⟩ := h
  exact deref_of_live hn

theorem closeNode_of_none {nd : ThreadNode} (hn : s.books.node n = some nd)
    (hf : nd.clientSockFd = none) : s.closeNode n = some s := by
  rw [State.closeNode, deref_of_live hn, hf]

theorem closeNode_of_some {nd : ThreadNode} {fd m : ℕ} (hn : s.books.node n = some nd)
    (hf : nd.clientSockFd = some fd) (hm : s.files.object fd = some m) :
    s.closeNode n = some { s with
      files := s.files.close fd m
      books := s.books.setNode n { nd with clientSockFd := none } } := by
  rw [State.closeNode, deref_of_live hn, hf]
  simp only [State.closeFd, hm]

/-- `one_communiction_thread_completed` on live nodes finds a completed one if there is one. -/
theorem oneCompleted_of_live {b : Books} : ∀ {l : List ℕ}, (∀ n ∈ l, b.Live n) →
    b.oneCompleted l = some true ∧ (∃ n ∈ l, b.Completed n) ∨
      b.oneCompleted l = some false ∧ ∀ n ∈ l, ¬ b.Completed n
  | [], _ => by simp [Books.oneCompleted]
  | n :: l, h => by
    obtain ⟨nd, hn⟩ := h n (by simp)
    by_cases hc : nd.threadCompleted = true
    · left
      exact ⟨by simp [Books.oneCompleted, hn, hc], n, by simp, nd, hn, hc⟩
    · have hnot : ¬ b.Completed n := by
        rintro ⟨nd', hn', hc'⟩
        exact hc (Option.some.inj (hn.symm.trans hn') ▸ hc')
      have hstep : b.oneCompleted (n :: l) = b.oneCompleted l := by simp [Books.oneCompleted, hn, hc]
      rw [hstep]
      rcases oneCompleted_of_live (l := l) fun m hm => h m (List.mem_cons_of_mem n hm) with
        ⟨he, m, hm, hcm⟩ | ⟨he, hno⟩
      · exact Or.inl ⟨he, m, List.mem_cons_of_mem n hm, hcm⟩
      · exact Or.inr ⟨he, List.forall_mem_cons.mpr ⟨hnot, hno⟩⟩

theorem MainStep.of_mainStep (hs : Safe s) (h : mainStep s act = some s') : MainStep s act s' := by
  unfold mainStep at h
  split at h
  next hm =>
    cases h
    split_ifs with hr
    · exact .testOn hm hr
    · exact .testOff hm (by simpa using hr)
  next hm =>
    cases h
    exact .acceptFailed hm
  next fd hm =>
    split_ifs at h with hf
    cases h
    exact .accepted hm hf
  next fd hm =>
    obtain ⟨_, ht, rfl⟩ := Option.map_eq_some_iff.mp h
    obtain ⟨hfree, rfl⟩ := lock_eq_some.mp ht
    exact .lock hm hfree
  next fd hm =>
    cases h
    exact .add hm
  next fd hm =>
    cases h
    exact .addFailed hm
  next fd n id hm =>
    split_ifs at h with hi
    cases h
    exact .spawn hm hi
  next fd n hm =>
    cases h
    exact .spawnFailed hm
  next fd n hm =>
    have hhead := hs.undo fd n hm
    obtain ⟨nd, hn⟩ := hs.main n (by rw [hm]; rfl)
    split at h
    next hl => simp [hl] at hhead
    next m l hl =>
      obtain rfl : m = n := by simpa [hl] using hhead
      rw [deref_of_live hn, Option.some.injEq] at h
      subst h
      exact .undo hm hl
  next fd n hm =>
    rw [freeNode_of_live (hs.main n (by rw [hm]; rfl)), Option.map_some, Option.some.injEq] at h
    subst h
    exact .release hm
  next n id hm =>
    obtain ⟨nd, hn⟩ := hs.main n (by rw [hm]; rfl)
    rw [deref_of_live hn, Option.some.injEq] at h
    subst h
    exact .setId hm hn
  next hm =>
    cases h
    exact .unlock hm
  next fd hm =>
    cases h
    exact .unlockFailed hm
  next fd hm =>
    obtain ⟨m, hf⟩ := hs.mainFd fd (by rw [hm]; rfl)
    simp only [State.closeFd, hf, Option.some.injEq] at h
    subst h
    exact .close hm hf
  next hm =>
    cases h
    exact .stop hm
  next hm =>
    obtain ⟨_, ht, rfl⟩ := Option.map_eq_some_iff.mp h
    obtain ⟨hfree, rfl⟩ := lock_eq_some.mp ht
    exact .wakeLock hm hfree
  next hm =>
    cases h
    exact .broadcast hm
  next hm =>
    cases h
    exact .wakeUnlock hm
  next hm =>
    split_ifs at h with hh
    cases h
    exact .join hm hh
  next => cases h

theorem HandlerStep.of_handlerStep (hs : Safe s) (h : handlerStep s = some s') :
    HandlerStep s s' := by
  unfold handlerStep at h
  split at h
  next hm =>
    obtain ⟨_, ht, rfl⟩ := Option.map_eq_some_iff.mp h
    obtain ⟨hfree, rfl⟩ := lock_eq_some.mp ht
    exact .lock hm hfree
  next hm =>
    cases h
    split_ifs with hr
    · exact .outerOn hm hr
    · exact .outerOff hm (by simpa using hr)
  next hm =>
    cases h
    split_ifs with hr
    · exact .innerOn hm hr
    · exact .innerOff hm (by simpa using hr)
  next hm =>
    rcases oneCompleted_of_live hs.listed with ⟨he, hc⟩ | ⟨he, hc⟩ <;> rw [he] at h <;> cases h
    · exact .scanFound hm hc
    · exact .scanNone hm hc
  next forced hm =>
    cases h
    exact .sleep hm
  next => cases h
  next forced hm =>
    obtain ⟨_, ht, rfl⟩ := Option.map_eq_some_iff.mp h
    obtain ⟨hfree, rfl⟩ := lock_eq_some.mp ht
    exact .wake hm hfree
  next hm =>
    cases h
    split_ifs with hr
    · exact .testOn hm hr
    · exact .testOff hm (by simpa using hr)
  next forced hm =>
    cases h
    exact .visitEnd hm
  next forced n rest hm =>
    obtain ⟨nd, hn⟩ := hs.handler n (by rw [hm]; rfl)
    rw [deref_of_live hn, Option.some.injEq] at h
    subst h
    split_ifs with hc
    · exact .visitCompleted hm ⟨nd, hn, hc⟩
    · refine .visitNext hm ?_
      rintro ⟨nd', hn', hc'⟩
      exact hc (Option.some.inj (hn.symm.trans hn') ▸ hc')
  next forced n rest hm =>
    obtain ⟨nd, hn⟩ := hs.handler n (by rw [hm]; rfl)
    simp only [deref_of_live hn, hs.join forced n rest nd hm hn] at h
    split_ifs at h with hc
    cases h
    exact .join hm hn hc
  next forced n rest hm =>
    rw [if_pos (hs.remove forced n rest hm)] at h
    cases h
    exact .remove hm
  next forced n rest hm =>
    rw [freeNode_of_live (hs.handler n (by rw [hm]; rfl)), Option.map_some, Option.some.injEq] at h
    subst h
    exact .free hm
  next hm =>
    cases h
    exact .unlock hm
  next hm =>
    obtain ⟨_, ht, rfl⟩ := Option.map_eq_some_iff.mp h
    obtain ⟨hfree, rfl⟩ := lock_eq_some.mp ht
    exact .forceLock hm hfree
  next hm =>
    cases h
    exact .closeEnd hm
  next n rest hm =>
    obtain ⟨nd, hn⟩ := hs.handler n (by rw [hm]; rfl)
    cases hf : nd.clientSockFd with
    | none =>
      rw [closeNode_of_none hn hf] at h
      cases h
      exact .closeNone hm hn hf
    | some fd =>
      obtain ⟨m, ho⟩ := hs.nodeFd n nd fd hn hf
      rw [closeNode_of_some hn hf ho] at h
      cases h
      exact .closeSome hm hn hf ho
  next hm =>
    cases h
    split_ifs with hl
    · exact .forcedOuterEnd hm hl
    · exact .forcedOuter hm hl
  next hm =>
    cases h
    split_ifs with hl
    · exact .forcedInnerEnd hm hl
    · exact .forcedInner hm hl
  next hm =>
    rcases oneCompleted_of_live hs.listed with ⟨he, hc⟩ | ⟨he, hc⟩ <;> rw [he] at h <;> cases h
    · exact .forcedScanFound hm hc
    · exact .forcedScanNone hm hc
  next hm =>
    cases h
    exact .forceUnlock hm
  next => cases h

theorem ClientStep.of_clientStep (hs : Safe s) (h : clientStep s n = some s') :
    ClientStep s n s' := by
  unfold clientStep at h
  split at h
  next => cases h
  next hc =>
    obtain ⟨nd, hn⟩ := hs.client n _ hc (by simp)
    rw [deref_of_live hn] at h
    cases h
    exact .start hc
  next hc =>
    cases h
    exact .run hc
  next hc =>
    obtain ⟨_, ht, rfl⟩ := Option.map_eq_some_iff.mp h
    obtain ⟨hfree, rfl⟩ := lock_eq_some.mp ht
    exact .lock hc hfree
  next hc =>
    obtain ⟨nd, hn⟩ := hs.client n _ hc (by simp)
    cases hf : nd.clientSockFd with
    | none =>
      rw [closeNode_of_none hn hf] at h
      cases h
      exact .closeNone hc hn hf
    | some fd =>
      obtain ⟨m, ho⟩ := hs.nodeFd n nd fd hn hf
      rw [closeNode_of_some hn hf ho] at h
      cases h
      exact .closeSome hc hn hf ho
  next hc =>
    obtain ⟨nd, hn⟩ := hs.client n _ hc (by simp)
    rw [deref_of_live hn] at h
    cases h
    exact .complete hc hn
  next hc =>
    cases h
    exact .signal hc
  next hc =>
    cases h
    exact .unlock hc
  next hc =>
    cases h
    exact .exiting hc
  next => cases h

/-- **Every step from a safe state is on the list.** -/
theorem Step.of_step (hs : Safe s) (h : step s act = some s') : Step s act s' := by
  unfold step at h
  rw [if_neg (by simp [hs.fault])] at h
  split at h
  next =>
    cases h
    exact .signal
  next =>
    split at h
    next forced hm =>
      cases h
      exact .spurious hm
    next => cases h
  next => exact .handler (.of_handlerStep hs h)
  next n => exact .client (.of_clientStep hs h)
  next => exact .main (.of_mainStep hs h)

end Aesd.Threads.Steps
