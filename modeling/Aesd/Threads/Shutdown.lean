import Aesd.Threads.Wakeup

/-!
# Shutdown

The handler may see `process_running` reset, close the sockets of the list and leave while the main
thread still holds a connection that it has accepted and not yet put into the list:
`create_client_communication_thread` does not look at `process_running` again, and nobody joins the
thread it creates (`shutdown_leaves_client`). In a run where each client thread is created before the
handler takes the mutex in `force_joining_client_communication_threads` (`Timely`) nothing is left
behind: what the handler has passed in its traversal is closed, and once it leaves, the list holds no
node with a thread (`Shut`).
-/

namespace Aesd.Threads.Shutdown

open Aesd.Lib.Lts
open Aesd.Threads.Model Aesd.Threads.Steps Aesd.Threads.Exclusion Aesd.Threads.Nodes
open Aesd.Threads.Accounting Aesd.Threads.Sockets Aesd.Threads.Bookkeeping

/-- The handler has locked the mutex in `force_joining_client_communication_threads`. -/
def forcing : HandlerPc → Bool
  | .close _ | .forcedOuter | .forcedInner | .forcedScan | .forceUnlock | .exit => true
  | .sleep forced | .wait forced _ | .visit forced _ => forced
  | .join forced _ _ | .remove forced _ _ | .free forced _ _ => forced
  | _ => false

/-- The sockets `close_client_communication_threads_sockets` has still to close. -/
def closing : HandlerPc → List ℕ
  | .close rest => rest
  | _ => []

/-- The handler has found the list empty. -/
def leaving : HandlerPc → Bool
  | .forceUnlock | .exit => true
  | _ => false

/-- A client thread is created only while the handler has not come to the forced join. -/
def Timely (s : State) : Act → Prop
  | .create (some _) => forcing s.handler = false
  | _ => True

instance decidableTimely (s : State) : ∀ act, Decidable (Timely s act)
  | .create (some _) => inferInstanceAs (Decidable (forcing s.handler = false))
  | .create none | .signal | .spurious | .accept _ | .malloc _ | .main | .handler | .client _ =>
    isTrue trivial

/-- **Shutdown leaves no client behind**: when the `pthread_join` of the handler has returned, the list
is empty, each client thread is joined and each accepted socket closed; and once the handler has closed
the sockets of the list, no node in it has an open one. -/
structure NoneLeft (s : State) : Prop where
  list : s.main = .done → s.books.list = []
  joined : s.main = .done → ∀ n, s.books.client n ≠ none → s.books.joins n = 1
  closed : s.main = .done → ∀ m, m < s.files.next → s.files.closes m = 1
  shut : s.mutex = none → forcing s.handler = true → ∀ n ∈ s.books.list, ∀ nd,
    s.books.node n = some nd → nd.clientSockFd = none

/-- The nodes the handler has passed are closed, and none with a thread is left when it leaves. -/
structure Shut (s : State) : Prop where
  passed : forcing s.handler = true → ∀ n ∈ s.books.list, n ∉ closing s.handler →
    s.books.client n ≠ none → ∀ nd, s.books.node n = some nd → nd.clientSockFd = none
  left : leaving s.handler = true → ∀ n ∈ s.books.list, s.books.client n = none
  done : s.main = .done → s.handler = .exit

variable {s s' : State} {act : Act} {as : List Act} {n : ℕ}

@[simp] theorem forcing_woken (forced : Bool) : forcing (.woken forced) = forced := by
  cases forced <;> rfl

@[simp] theorem forcing_back (forced : Bool) : forcing (.back forced) = forced := by
  cases forced <;> rfl

@[simp] theorem leaving_woken (forced : Bool) : leaving (.woken forced) = false := by
  cases forced <;> rfl

@[simp] theorem leaving_back (forced : Bool) : leaving (.back forced) = false := by
  cases forced <;> rfl

@[simp] theorem forcing_notified (pc : HandlerPc) : forcing pc.notified = forcing pc := by
  cases pc <;> rfl

@[simp] theorem closing_notified (pc : HandlerPc) : closing pc.notified = closing pc := by
  cases pc <;> rfl

@[simp] theorem leaving_notified (pc : HandlerPc) : leaving pc.notified = leaving pc := by
  cases pc <;> rfl

theorem forcing_of_leaving {pc : HandlerPc} (h : leaving pc = true) : forcing pc = true := by
  cases pc <;> first | rfl | cases h

namespace Shut

/-- A step creates no thread, puts no node with a thread into the list, and opens no socket. -/
def Frame (b b' : Books) : Prop := ∀ n ∈ b'.list, b'.client n ≠ none →
  n ∈ b.list ∧ b.client n ≠ none ∧ ∀ nd', b'.node n = some nd' →
    ∃ nd, b.node n = some nd ∧ (nd.clientSockFd = none → nd'.clientSockFd = none)

theorem Frame.refl (b : Books) : Frame b b := fun _ hn hc => ⟨hn, hc, fun nd hnd => ⟨nd, hnd, id⟩⟩

/-- A step that touches the node `m` has to be looked at there only. -/
theorem Frame.of_same {b b' : Books} {m : ℕ} (hs : ∀ n, n ≠ m → Same b b' n)
    (hm : m ∈ b'.list → b'.client m ≠ none →
      m ∈ b.list ∧ b.client m ≠ none ∧ ∀ nd', b'.node m = some nd' →
        ∃ nd, b.node m = some nd ∧ (nd.clientSockFd = none → nd'.clientSockFd = none)) :
    Frame b b' := by
  intro n hn hc
  by_cases hne : n = m
  · rw [hne] at hn hc ⊢
    exact hm hn hc
  · have hsame := hs n hne
    exact ⟨hsame.list.mp hn, hsame.client ▸ hc, fun nd hnd => ⟨nd, hsame.node ▸ hnd, id⟩⟩

theorem Frame.trans {b b' b'' : Books} (h : Frame b b') (h' : Frame b' b'') : Frame b b'' := by
  intro n hn hc
  obtain ⟨hn', hc', hf'⟩ := h' n hn hc
  obtain ⟨hn₀, hc₀, hf⟩ := h n hn' hc'
  refine ⟨hn₀, hc₀, fun nd'' hnd'' => ?_⟩
  obtain ⟨nd', hnd', himp'⟩ := hf' nd'' hnd''
  obtain ⟨nd, hnd, himp⟩ := hf nd' hnd'
  exact ⟨nd, hnd, fun h => himp' (himp h)⟩

theorem frame_setNode {b : Books} {m : ℕ} {nd : ThreadNode} (hm : b.node m = some nd)
    (nd' : ThreadNode) (hf : nd.clientSockFd = none → nd'.clientSockFd = none) :
    Frame b (b.setNode m nd') := by
  refine .of_same (fun n hne => same_setNode b nd' hne) fun hn hc => ⟨hn, hc, fun nd₁ hn₁ => ?_⟩
  simp only [Books.setNode, Function.update_self, Option.some.injEq] at hn₁
  exact ⟨nd, hm, fun h => hn₁ ▸ hf h⟩

theorem frame_setClient {b : Books} {m : ℕ} {pc pc' : ClientPc} (hm : b.client m = some pc) :
    Frame b (b.setClient m pc') :=
  .of_same (fun n hne => same_setClient b pc' hne)
    fun hn _ => ⟨hn, by simp [hm], fun nd hnd => ⟨nd, hnd, id⟩⟩

theorem frame_free {b : Books} {m : ℕ} (hm : m ∉ b.list) : Frame b (b.free m) :=
  .of_same (fun _ hne => same_free b hne) fun hn => absurd hn hm

theorem frame_add {b : Books} {focus : Option (ℕ × Stage)} (hb : Accounts b focus) (fd : ℕ) :
    Frame b (b.add fd) :=
  .of_same (fun _ hne => same_add b fd hne)
    fun _ hc => absurd (hb.fresh b.next le_rfl).client hc

theorem frame_list {b : Books} {l : List ℕ} (hl : ∀ n ∈ l, n ∈ b.list) :
    Frame b { b with list := l } :=
  fun n hn hc => ⟨hl n hn, hc, fun nd hnd => ⟨nd, hnd, id⟩⟩

/-- A step that does not bring the handler forward. -/
theorem of_frame (h : Shut s) (hb : Frame s.books s'.books)
    (hf : forcing s'.handler = true → forcing s.handler = true)
    (hc : ∀ n, n ∈ closing s.handler → n ∈ closing s'.handler)
    (hl : leaving s'.handler = true → leaving s.handler = true)
    (hd : s'.main = .done → s'.handler = .exit) : Shut s' := by
  constructor
  · intro hfor n hn hnc hcl nd' hnd'
    obtain ⟨hn₀, hcl₀, hnd₀⟩ := hb n hn hcl
    obtain ⟨nd, hnd, himp⟩ := hnd₀ nd' hnd'
    exact himp (h.passed (hf hfor) n hn₀ (fun hin => hnc (hc n hin)) hcl₀ nd hnd)
  · intro hleave n hn
    by_contra hcl
    obtain ⟨hn₀, hcl₀, -⟩ := hb n hn hcl
    exact hcl₀ (h.left (hl hleave) n hn₀)
  · exact hd

/-! ### The main thread -/

theorem of_main (h : Shut s) (hb : Frame s.books s'.books) (hh : s'.handler = s.handler)
    (hd : s'.main ≠ .done) : Shut s' :=
  h.of_frame hb (by rw [hh]; exact id) (by rw [hh]; exact fun _ => id) (by rw [hh]; exact id)
    fun hm => absurd hm hd

theorem mainStep (h : Shut s) (hi : Inv s) (ht : Timely s act) (hm : MainStep s act s') :
    Shut s' := by
  cases hm with
  | testOn | testOff | acceptFailed | accepted | lock | addFailed | spawnFailed | unlock | unlockFailed
  | close | stop | wakeLock | wakeUnlock => exact h.of_main (.refl _) rfl (by simp)
  | add => exact h.of_main (frame_add hi.kept.accounts _) rfl (by simp)
  | undo hp hl =>
    exact h.of_main (frame_list fun n hn => by rw [hl]; exact List.mem_cons_of_mem _ hn) rfl (by simp)
  | @release fd m hp =>
    have ha := hi.kept.main_account (n := m) (by rw [hp]; rfl)
    exact h.of_main (frame_free ha.1) rfl (by simp)
  | setId hp hn => exact h.of_main (frame_setNode hn _ id) rfl (by simp)
  | broadcast =>
    refine h.of_frame (.refl _) ?_ ?_ ?_ nofun
    · show forcing s.handler.notified = true → _
      rw [forcing_notified]
      exact id
    · show ∀ n, _ → n ∈ closing s.handler.notified
      rw [closing_notified]
      exact fun _ => id
    · show leaving s.handler.notified = true → _
      rw [leaving_notified]
      exact id
  | join hp hh => exact h.of_frame (.refl _) id (fun _ => id) id fun _ => hh
  | spawn =>
    -- the handler is not in the forced join, by the condition on the run
    have hno : forcing s.handler = false := ht
    refine ⟨fun hf => ?_, fun hl => ?_, nofun⟩
    · have hf' : forcing s.handler = true := hf
      rw [hno] at hf'
      cases hf'
    · have hl' : leaving s.handler = true := hl
      rw [forcing_of_leaving hl'] at hno
      cases hno

/-! ### The thread handler -/

theorem of_handler (h : Shut s) (hb : Frame s.books s'.books) (hx : s.handler ≠ .exit)
    (hm : s'.main = s.main) (hf : forcing s'.handler = true → forcing s.handler = true)
    (hc : closing s.handler = []) (hl : leaving s'.handler = false) : Shut s' := by
  refine h.of_frame hb hf ?_ ?_ fun hd => absurd (h.done (hm ▸ hd)) hx
  · rw [hc]
    intro n hn
    cases hn
  · rw [hl]
    intro hl
    cases hl

theorem handlerStep (h : Shut s) (hi : Inv s) (hh : HandlerStep s s') : Shut s' := by
  have hdone : s.handler ≠ .exit → s.main ≠ .done := fun hx hd => hx (h.done hd)
  cases hh with
  | lock hp | outerOn hp | outerOff hp | innerOn hp | innerOff hp | scanFound hp | scanNone hp
  | testOn hp | testOff hp | unlock hp =>
    exact h.of_handler (.refl _) (by simp [hp]) rfl nofun (by rw [hp]; rfl) rfl
  | forcedOuter hp | forcedInnerEnd hp | forcedInner hp | forcedScanFound hp | forcedScanNone hp
  | closeEnd hp =>
    exact h.of_handler (.refl _) (by simp [hp]) rfl (fun _ => by rw [hp]; rfl) (by rw [hp]; rfl) rfl
  | sleep hp | visitCompleted hp | visitNext hp =>
    exact h.of_handler (.refl _) (by simp [hp]) rfl (fun hf => by rw [hp]; exact hf)
      (by rw [hp]; rfl) rfl
  | @wake forced hp =>
    exact h.of_handler (.refl _) (by simp [hp]) rfl
      (fun hf => by rw [hp]; exact (forcing_woken forced).symm.trans hf)
      (by rw [hp]; rfl) (leaving_woken _)
  | @visitEnd forced hp =>
    exact h.of_handler (.refl _) (by simp [hp]) rfl
      (fun hf => by rw [hp]; exact (forcing_back forced).symm.trans hf)
      (by rw [hp]; rfl) (leaving_back _)
  | join hp =>
    exact h.of_handler (.refl s.books) (by simp [hp]) rfl (fun hf => by rw [hp]; exact hf)
      (by rw [hp]; rfl) rfl
  | remove hp =>
    exact h.of_handler (frame_list fun n hn => List.mem_of_mem_erase hn) (by simp [hp]) rfl
      (fun hf => by rw [hp]; exact hf) (by rw [hp]; rfl) rfl
  | @free forced m rest hp =>
    have ha := hi.kept.handler_account (n := m) (by rw [hp]; rfl)
    exact h.of_handler (frame_free ha.1) (by simp [hp]) rfl (fun hf => by rw [hp]; exact hf)
      (by rw [hp]; rfl) rfl
  | forceLock hp =>
    refine ⟨fun _ n hn hnc => absurd hn hnc, nofun, fun hd => ?_⟩
    exact absurd hd (hdone (by simp [hp]))
  | @closeNone m rest nd hp hn hf =>
    refine ⟨fun _ k hk hkc hcl nd' hnd' => ?_, nofun, fun hd => ?_⟩
    · by_cases hkm : k = m
      · rw [hkm] at hnd'
        obtain rfl : nd = nd' := Option.some.inj (hn.symm.trans hnd')
        exact hf
      · refine h.passed (by rw [hp]; rfl) k hk ?_ hcl nd' hnd'
        rw [hp]
        exact fun hin => (List.mem_cons.mp hin).elim hkm hkc
    · exact absurd hd (hdone (by simp [hp]))
  | @closeSome m fd k rest nd hp hn =>
    refine ⟨fun _ j hj hjc hcl nd' hnd' => ?_, nofun, fun hd => ?_⟩
    · by_cases hjm : j = m
      · rw [hjm] at hnd'
        simp only [Books.setNode, Function.update_self, Option.some.injEq] at hnd'
        exact hnd' ▸ rfl
      · refine h.passed (by rw [hp]; rfl) j hj ?_ hcl nd' (by simpa [Books.setNode, hjm] using hnd')
        rw [hp]
        exact fun hin => (List.mem_cons.mp hin).elim hjm hjc
    · exact absurd hd (hdone (by simp [hp]))
  | forcedOuterEnd hp hl =>
    refine ⟨fun _ n hn => ?_, fun _ n hn => ?_, fun hd => ?_⟩
    · have hn' : n ∈ s.books.list := hn
      rw [hl] at hn'
      cases hn'
    · have hn' : n ∈ s.books.list := hn
      rw [hl] at hn'
      cases hn'
    · exact absurd hd (hdone (by simp [hp]))
  | forceUnlock hp =>
    refine h.of_frame (.refl _) (fun _ => by rw [hp]; rfl) ?_ (fun _ => by rw [hp]; rfl) fun _ => rfl
    rw [hp]
    intro n hn
    cases hn

/-! ### The client threads -/

theorem of_client (h : Shut s) (hb : Frame s.books s'.books) (hm : s'.main = s.main)
    (hh : s'.handler = s.handler ∨ s'.handler = s.handler.notified) : Shut s' := by
  refine h.of_frame hb ?_ ?_ ?_ fun hd => ?_
  · rcases hh with hh | hh <;> simp [hh]
  · rcases hh with hh | hh <;> simp [hh]
  · rcases hh with hh | hh <;> simp [hh]
  · have hx := h.done (hm ▸ hd)
    rcases hh with hh | hh <;> simp [hh, hx, HandlerPc.notified]

theorem clientStep (h : Shut s) (hc : ClientStep s n s') : Shut s' := by
  cases hc with
  | start hp | run hp | lock hp | closeNone hp | unlock hp | exiting hp =>
    exact h.of_client (frame_setClient hp) rfl (Or.inl rfl)
  | signal hp => exact h.of_client (frame_setClient hp) rfl (Or.inr rfl)
  | @closeSome nd _ _ hp hn =>
    exact h.of_client (Frame.trans (frame_setNode hn { nd with clientSockFd := none } fun _ => rfl)
      (frame_setClient (by exact hp))) rfl (Or.inl rfl)
  | @complete nd hp hn =>
    exact h.of_client (Frame.trans (frame_setNode hn { nd with threadCompleted := true } id)
      (frame_setClient (by exact hp))) rfl (Or.inl rfl)

theorem step (h : Shut s) (hi : Inv s) (ht : Timely s act) (hs : Step s act s') : Shut s' := by
  cases hs with
  | signal => exact ⟨h.passed, h.left, h.done⟩
  | spurious hp =>
    exact h.of_handler (.refl _) (by simp [hp]) rfl (fun hf => by rw [hp]; exact hf)
      (by rw [hp]; rfl) rfl
  | main hm => exact h.mainStep hi ht hm
  | handler hh => exact h.handlerStep hi hh
  | client hc => exact h.clientStep hc

end Shut

theorem shut_init : Shut init := by
  constructor <;> intro h <;> cases h

theorem Shut.noneLeft (h : Shut s) (hi : Inv s) : NoneLeft s := by
  -- nobody works on a node once the main thread is through with the handler
  have hfocus : s.main = .done → focus s = none := by
    intro hd
    rw [focus, hd, h.done hd]
    rfl
  have hlist : s.main = .done → s.books.list = [] := by
    intro hd
    by_contra hl
    obtain ⟨n, hn⟩ := List.exists_mem_of_ne_nil _ hl
    have ha := hi.kept.accounts.account n
    rw [hfocus hd] at ha
    rcases ha with ⟨-, nd, pc, hr, -⟩ | ⟨hout, -⟩
    · have hc := h.left (by rw [h.done hd]; rfl) n hn
      rw [hr.client] at hc
      cases hc
    · exact hout hn
  have hgone : s.main = .done → ∀ n, Gone s.books n := by
    intro hd n
    have ha := hi.kept.accounts.account n
    rw [hfocus hd] at ha
    rcases ha with ⟨hin, -⟩ | ⟨-, hg⟩
    · rw [hlist hd] at hin
      cases hin
    · exact hg
  constructor
  · exact hlist
  · intro hd n hc
    rcases (hgone hd n).thread with ⟨hn, -⟩ | ⟨-, hj⟩
    · exact absurd hn hc
    · exact hj
  · intro hd m hm
    refine hi.owning.counted.closed m hm fun fd hfd => ?_
    obtain ⟨k, hk⟩ := hi.owning.owned.owner hfd
    rcases k with _ | n
    · have hk' : s.main.fd = some fd := hk
      rw [hd] at hk'
      cases hk'
    · simp [holds, hd, single, (hgone hd n).node] at hk
  · intro hm hf n hn nd hnd
    have hout := hi.kept.locked.handler_outside hm
    obtain ⟨-, -, pc, -, hcl, -⟩ := hi.inOrder.listed hm n hn
    refine h.passed hf n hn ?_ (by simp [hcl]) nd hnd
    cases hp : s.handler with
    | close rest =>
      rw [hp] at hout
      cases hout
    | _ => simp [closing]

/-- **Shutdown leaves no client behind, in a run whose client threads are all created before the handler
takes the mutex in `force_joining_client_communication_threads`.** -/
theorem shutdown (as : List Act) (hm : Meets step Timely init as) (hr : run step init as = some s) :
    NoneLeft s := by
  have hboth : Inv s ∧ Shut s :=
    hm.invariant (P := fun s => Inv s ∧ Shut s)
      (fun _ _ _ h ht hs => ⟨h.1.step hs, h.2.step h.1 ht (.of_step h.1.safe hs)⟩)
      ⟨inv_init, shut_init⟩ hr
  exact hboth.2.noneLeft hboth.1

/-- A client is served when the signal comes; its socket is closed, its thread ends and is joined. -/
def goodbye : List Act :=
  Wakeup.signalled ++ List.replicate 8 (Act.client 0) ++ List.replicate 10 Act.handler ++ [Act.main]

theorem shutdown_goodbye : ∃ s, run step init goodbye = some s ∧ s.main = .done ∧ s.files.next = 1 ∧
    NoneLeft s := by
  have hrun : (run step init goodbye).map (fun s => (s.main, s.files.next)) = some (.done, 1) := by
    decide
  obtain ⟨s, hr, he⟩ := Option.map_eq_some_iff.mp hrun
  obtain ⟨hd, hn⟩ : s.main = .done ∧ s.files.next = 1 := by simpa using he
  exact ⟨s, hr, hd, hn, shutdown goodbye (by decide) hr⟩

/-- A signal comes after `accept` has returned: the handler finds the list empty and leaves, and the
main thread creates the client thread afterwards. -/
def lateClient : List Act :=
  [.main, .accept (some 5), .signal] ++ List.replicate 7 Act.handler ++
    [Act.main, Act.malloc true, Act.create (some 7)] ++ List.replicate 8 Act.main

theorem shutdown_leaves_client : ∃ s, run step init lateClient = some s ∧ s.main = .done ∧
    s.books.list = [0] ∧ s.books.client 0 = some .start ∧ s.books.joins 0 = 0 ∧
      s.files.closes 0 = 0 ∧ ¬ NoneLeft s := by
  have hrun : (run step init lateClient).map (fun s =>
      (s.main, s.books.list, s.books.client 0, s.books.joins 0, s.files.closes 0)) =
        some (.done, [0], some .start, 0, 0) := by decide
  obtain ⟨s, hr, he⟩ := Option.map_eq_some_iff.mp hrun
  obtain ⟨hd, hl, hc, hj, hf⟩ : s.main = .done ∧ s.books.list = [0] ∧
      s.books.client 0 = some .start ∧ s.books.joins 0 = 0 ∧ s.files.closes 0 = 0 := by simpa using he
  refine ⟨s, hr, hd, hl, hc, hj, hf, fun hno => ?_⟩
  have hnil := hno.list hd
  rw [hl] at hnil
  cases hnil

/-- The condition is the weakest one: a client thread that is created later stays in the list with its
socket open when the main thread gives the mutex back. -/
theorem untimely_left {id : ℕ} (as : List Act) (hr : run step init as = some s)
    (hf : forcing s.handler = true) (hs : step s (.create (some id)) = some s') :
    ∃ s'', run step s' [.main, .main] = some s'' ∧ ¬ NoneLeft s'' := by
  have hi := inv_of_run hr
  have hi' := hi.step hs
  cases Step.of_step hi.safe hs with
  | main hm =>
    cases hm with
    | @spawn fd n _ hp hid =>
      have ha := hi.kept.main_account (n := n) (by rw [hp]; rfl)
      have hn : (s.books.spawn n id).node n = some ⟨0, false, some fd⟩ := ha.2.node
      refine ⟨{ s with
        mutex := none
        books := (s.books.spawn n id).setNode n ⟨id, false, some fd⟩
        main := .test }, ?_, ?_⟩
      · simp [run, step, mainStep, State.deref, hn, hi.fault, State.unlock]
      · intro hno
        have hopen := hno.shut rfl hf n ha.1 ⟨id, false, some fd⟩ (by simp [Books.setNode])
        cases hopen

end Aesd.Threads.Shutdown
