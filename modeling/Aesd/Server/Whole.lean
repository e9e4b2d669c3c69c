import Aesd.Server.LogStream
import Aesd.Server.Progress
import Aesd.Threads.Progress
import Aesd.Threads.Shutdown

/-!
# The server as a whole

The threads of `Threads` and what the clients do of `Clients`, in one system: while a client thread
receives and sends, it takes the steps of `Clients`, and it goes on to `thread_list_mutex` when these have
ended (a thread whose `malloc` fails ends like one whose `recv` fails). `N` is how many nodes there may be.

When the main thread is through, nothing is left of a client, in a run whose client threads are created in
time: no packet is half written or half answered, each thread has exited and is joined, and the device
stores what it was sent (`exit_drained`); and when nothing failed, all lines received are answered
(`exit_answered`). The server gets there without its clients: the sockets are closed at the latest when the
thread handler waits for the threads that are left, and then `recv` and `send` return (`server_drains`).
-/

namespace Aesd.Server.Whole

open Aesd.Lib.Lts Aesd.Lib.Progress
open Aesd.Threads Aesd.Threads.Model Aesd.Threads.Steps Aesd.Threads.Nodes
open Aesd.Threads.Accounting Aesd.Threads.Bookkeeping Aesd.Threads.Wakeup Aesd.Threads.Shutdown
open Aesd.Driver.Device Aesd.Driver.Store Aesd.Driver.Conservation
open Aesd.Server.Answer Aesd.Server.Clients Aesd.Server.Failures Aesd.Server.Serving Aesd.Server.Progress

structure State (N : ℕ) where
  threads : Model.State
  clients : Clients.State (Fin N)

/-- A thread goes on, a client thread takes a step of `Clients`, or its `recv` or `send` fails because the
socket is closed. -/
inductive Act (N : ℕ)
  | thread (act : Model.Act)
  | serve (i : Fin N) (act : Clients.Act)
  | hangup (i : Fin N)

variable {N : ℕ}

/-- The client thread is past the loop of `handle_client_communication`. -/
def finished : Clients.Pc → Bool
  | .ended => true
  | _ => false

/-- A client thread leaves the loop when it has ended; and there is a node left to allocate. -/
def permitted (s : State N) : Model.Act → Bool
  | .client n =>
    if h : n < N then
      decide (s.threads.books.client n ≠ some .run) || finished (s.clients.client ⟨n, h⟩).pc
    else true
  | .malloc true => decide (s.threads.books.next < N)
  | _ => true

/-- The loop goes on by `process_running`. -/
def agrees (running : Bool) : Clients.Act → Bool
  | .chunkEnd r => r == running
  | _ => true

/-- There is no connection: what the client threads have as `sock_fd` is closed. -/
def noneOpen (t : Model.State) : Bool :=
  t.main.fd.isNone && t.books.list.all fun n => (t.books.node n).all fun nd => nd.clientSockFd.isNone

/-- The call on the socket fails. -/
def failedCall : Clients.Pc → Clients.Act
  | .send .. => .send none
  | _ => .recv none

/-- **One step of the server.** -/
def step (s : State N) : Act N → Option (State N)
  | .thread act =>
    if permitted s act then (Model.step s.threads act).map fun t => { s with threads := t } else none
  | .serve i act =>
    if s.threads.books.client i = some .run ∧ agrees s.threads.running act = true then
      (Clients.step s.clients (i, act)).map fun c => { s with clients := c }
    else none
  | .hangup i =>
    if s.threads.books.client i = some .run ∧ noneOpen s.threads = true then
      (Clients.step s.clients (i, failedCall (s.clients.client i).pc)).map fun c => { s with clients := c }
    else none

structure Init (s : State N) : Prop where
  threads : s.threads = Model.init
  clients : Clients.Init s.clients

/-- What is asked of a run: client threads are created in time, and the calls that fail may. -/
def Allowed (s : State N) : Act N → Prop
  | .thread act => Timely s.threads act
  | .serve _ act => Tolerated act
  | .hangup _ => True

instance decidableTolerated : ∀ act : Clients.Act, Decidable (Tolerated act)
  | .fopen ok => inferInstanceAs (Decidable (ok = true))
  | .write _ env => inferInstanceAs (Decidable (env.alloc.isOk = true ∧ env.semKilled = false))
  | .recv _ | .byte .. | .chunkEnd _ | .lock | .fflush | .ioctl .. | .fseek _ | .fill .. | .fread _
  | .send _ | .fclose | .unlock | .back => isTrue trivial

instance decidableAllowed (s : State N) : ∀ a, Decidable (Allowed s a)
  | .thread act => decidableTimely s.threads act
  | .serve _ act => decidableTolerated act
  | .hangup _ => isTrue trivial

/-- Where a client thread is in the loop, by where it is as a thread. -/
def Place : Option ClientPc → Clients.Pc → Prop
  | none, pc | some .start, pc => pc = .recv
  | some .run, _ => True
  | some _, pc => pc = .ended

structure Inv (s : State N) : Prop where
  threads : Bookkeeping.Inv s.threads
  alert : Alert s.threads
  shut : Shut s.threads
  clients : ∃ S, Held S s.clients
  place : ∀ i : Fin N, Place (s.threads.books.client i) (s.clients.client i).pc
  below : s.threads.books.next ≤ N

variable {s s' : State N} {t t' : Model.State} {n : ℕ}

/-! ### The places -/

theorem finished_iff {pc : Clients.Pc} : finished pc = true ↔ pc = .ended := by
  cases pc <;> simp [finished]

theorem place_setClient {b : Books} {m : ℕ} {pc' : ClientPc} {pc : Clients.Pc}
    (hp : Place (b.client n) pc) (hm : n = m → Place (some pc') pc) :
    Place ((b.setClient m pc').client n) pc := by
  by_cases hnm : n = m
  · subst hnm
    simpa [Books.setClient] using hm rfl
  · simpa [Books.setClient, hnm] using hp

/-- A step of the threads, in which a client thread leaves the loop only if it has ended. -/
theorem place_step {act : Model.Act} (hi : Bookkeeping.Inv t) (h : Step t act t') {pc : Clients.Pc}
    (hp : Place (t.books.client n) pc)
    (hend : act = .client n → t.books.client n = some .run → pc = .ended) :
    Place (t'.books.client n) pc := by
  cases h with
  | signal | spurious => exact hp
  | handler hh => cases hh <;> exact hp
  | main hm =>
    cases hm with
    | @spawn fd m id hmain =>
      have ha := hi.kept.main_account (n := m) (by rw [hmain]; rfl)
      by_cases hnm : n = m
      · subst hnm
        rw [ha.2.client] at hp
        simpa [Books.spawn, Place] using hp
      · simpa [Books.spawn, hnm] using hp
    | _ => exact hp
  | client hc =>
    cases hc with
    | start hpc => exact place_setClient hp fun _ => trivial
    | run hpc => exact place_setClient hp fun he => hend (he ▸ rfl) (he ▸ hpc)
    | closeSome hpc | complete hpc =>
      exact place_setClient (by exact hp) fun he => by rwa [he, hpc] at hp
    | lock hpc | closeNone hpc | signal hpc | unlock hpc | exiting hpc =>
      exact place_setClient hp fun he => by rwa [he, hpc] at hp

theorem next_step {act : Model.Act} (h : Step t act t') :
    t'.books.next = t.books.next ∨ act = .malloc true ∧ t'.books.next = t.books.next + 1 := by
  cases h with
  | signal | spurious => exact .inl rfl
  | handler hh => cases hh <;> exact .inl rfl
  | client hc => cases hc <;> exact .inl rfl
  | main hm =>
    cases hm with
    | add => exact .inr ⟨rfl, rfl⟩
    | _ => exact .inl rfl

theorem others {c c' : Clients.State (Fin N)} {i : Fin N} {act : Clients.Act}
    (hs : Clients.step c (i, act) = some c') : ∀ j, j ≠ i → c'.client j = c.client j := by
  cases LogStream.step_effect hs with
  | keep _ hk => exact hk.others
  | lock _ _ _ ho | fopen _ _ ho | fclose _ _ ho | unlock _ _ ho => exact ho

theorem inv_init (h : Init s) : Inv s := by
  refine ⟨?_, ?_, ?_, ⟨[], held_init h.clients⟩, fun i => ?_, ?_⟩
  · exact h.threads ▸ Bookkeeping.inv_init
  · exact h.threads ▸ alert_init
  · exact h.threads ▸ shut_init
  · obtain ⟨fill, hc⟩ := h.clients.client i
    rw [h.threads, hc]
    rfl
  · rw [h.threads]
    exact Nat.zero_le N

theorem Inv.serve (h : Inv s) {i : Fin N} {act : Clients.Act} {c : Clients.State (Fin N)}
    (hrun : s.threads.books.client i = some .run) (ha : Tolerated act)
    (hs : Clients.step s.clients (i, act) = some c) : Inv { s with clients := c } := by
  obtain ⟨S, hheld⟩ := h.clients
  obtain ⟨S', hheld'⟩ := held_step hheld ha hs
  refine ⟨h.threads, h.alert, h.shut, ⟨S', hheld'⟩, fun j => ?_, h.below⟩
  by_cases hj : j = i
  · rw [hj, hrun]
    trivial
  · rw [others hs j hj]
    exact h.place j

theorem Inv.thread (h : Inv s) {act : Model.Act} (ht : Timely s.threads act)
    (hp : permitted s act = true) (hs : Model.step s.threads act = some t) :
    Inv { s with threads := t } := by
  have hstep := Step.of_step h.threads.safe hs
  refine ⟨h.threads.step hs, h.alert.step h.threads hstep, h.shut.step h.threads ht hstep, h.clients,
    fun i => place_step h.threads hstep (h.place i) fun hact hrun => ?_, ?_⟩
  · subst hact
    simp only [permitted, i.isLt, dif_pos, hrun] at hp
    exact finished_iff.mp (by simpa using hp)
  · rcases next_step hstep with hn | ⟨rfl, hn⟩
    · exact hn.trans_le h.below
    · exact hn.trans_le (of_decide_eq_true hp)

theorem tolerated_failedCall (pc : Clients.Pc) : Tolerated (failedCall pc) := by
  cases pc <;> exact trivial

theorem inv_step {a : Act N} (h : Inv s) (ha : Allowed s a) (hs : step s a = some s') : Inv s' := by
  cases a with
  | thread act =>
    simp only [step] at hs
    split_ifs at hs with hp
    obtain ⟨t, ht, rfl⟩ := Option.map_eq_some_iff.mp hs
    exact h.thread ha hp ht
  | serve i act =>
    simp only [step] at hs
    split_ifs at hs with hrun
    obtain ⟨c, hc, rfl⟩ := Option.map_eq_some_iff.mp hs
    exact h.serve hrun.1 ha hc
  | hangup i =>
    simp only [step] at hs
    split_ifs at hs with hrun
    obtain ⟨c, hc, rfl⟩ := Option.map_eq_some_iff.mp hs
    exact h.serve hrun.1 (tolerated_failedCall _) hc

theorem inv_run {s₀ : State N} (h₀ : Init s₀) {as : List (Act N)} (hm : Meets step Allowed s₀ as)
    (hr : run step s₀ as = some s) : Inv s :=
  hm.invariant (fun _ _ _ h ha hs => inv_step h ha hs) (inv_init h₀) hr

/-! ### The exit -/

/-- **Nothing is left of a client** when the main thread is through: the threads have exited and are
joined, their sockets closed; none is in the middle of a packet, so `log_file_mutex` is free and `log_file`
closed; and the device stores the last ten lines of what it accepted. -/
structure Drained (s : State N) : Prop where
  main : s.threads.main = .done
  threads : ∀ n, s.threads.books.client n ≠ none →
    s.threads.books.client n = some .exited ∧ s.threads.books.joins n = 1
  sockets : ∀ m < s.threads.files.next, s.threads.files.closes m = 1
  served : ∀ i : Fin N, s.threads.books.client i ≠ none → (s.clients.client i).pc = .ended
  log : s.clients.holder = none ∧ s.clients.log = none
  stored : ∃ S, History s.clients.done S ∧ view s.clients.dev = lastLines S

theorem exited_of_joined {b : Books} {st : Option Stage} (h : Account b n st) (hj : b.joins n = 1) :
    b.client n = some .exited := by
  have hruns : ∀ {nd pc}, ¬ Runs b n nd pc := fun hr => by simp [hr.joins] at hj
  have hsingle : ∀ {fd}, ¬ Single b n fd := fun hs => by simp [hs.joins] at hj
  rcases st with _ | st
  · rcases h with ⟨-, nd, pc, hr, -⟩ | ⟨-, hg⟩
    · exact absurd hr hruns
    · rcases hg.thread with ⟨-, hzero⟩ | ⟨hx, -⟩
      · omega
      · exact hx
  · cases st with
    | unborn fd | scrapped fd => exact absurd h.2 hsingle
    | unnamed id | due =>
      obtain ⟨-, nd, pc, hr, -⟩ := h
      exact absurd hr hruns
    | joined | removed => exact h.2.client

theorem Inv.run_of_pc (h : Inv s) {i : Fin N} (hrecv : (s.clients.client i).pc ≠ .recv)
    (hended : (s.clients.client i).pc ≠ .ended) : s.threads.books.client i = some .run := by
  have hp := h.place i
  rcases hcl : s.threads.books.client i with _ | pc
  · rw [hcl] at hp
    exact absurd hp hrecv
  · rw [hcl] at hp
    cases pc with
    | run => rfl
    | start => exact absurd hp hrecv
    | _ => exact absurd hp hended

theorem Inv.drained (h : Inv s) (hd : s.threads.main = .done) : Drained s := by
  have hleft := h.shut.noneLeft h.threads
  have hexited : ∀ n, s.threads.books.client n ≠ none → s.threads.books.client n = some .exited :=
    fun n hn => exited_of_joined (h.threads.kept.accounts.account n) (hleft.joined hd n hn)
  obtain ⟨S, hheld⟩ := h.clients
  have hfree : s.clients.holder = none := by
    by_contra hne
    obtain ⟨cur, hcur⟩ := Option.ne_none_iff_exists'.mp hne
    have hcrit := (hheld.phase cur hcur).critical
    have hrun := h.run_of_pc (i := cur.client) (fun he => by simp [he, critical] at hcrit)
      fun he => by simp [he, critical] at hcrit
    have hx := hexited cur.client (by simp [hrun])
    rw [hrun] at hx
    cases hx
  exact
    { main := hd
      threads := fun n hn => ⟨hexited n hn, hleft.joined hd n hn⟩
      sockets := hleft.closed hd
      served := fun i hn => by
        have hp := h.place i
        rwa [hexited i hn] at hp
      log := ⟨hfree, (hheld.free hfree).2⟩
      stored := ⟨S, hheld.history, (hheld.free hfree).1⟩ }

/-- **The exit.** In a run whose client threads are created before the thread handler takes the mutex in
`force_joining_client_communication_threads`, whatever is sent, and whichever calls fail that may. -/
theorem exit_drained {s₀ : State N} (h₀ : Init s₀) {as : List (Act N)} (hm : Meets step Allowed s₀ as)
    (hr : run step s₀ as = some s) (hd : s.threads.main = .done) : Drained s :=
  (inv_run h₀ hm hr).drained hd

/-- The server with zeroed packet buffers. -/
def start : State 1 :=
  ⟨Model.init, ⟨initModule, none, none, fun _ => Client.init fun _ => 0, [], false⟩⟩

theorem init_start : Init start := ⟨rfl, rfl, rfl, rfl, fun _ => ⟨fun _ => 0, rfl⟩, rfl, rfl⟩

/-- The signal comes when half of the line `"a\n"` is written. -/
def midway : List (Act 1) :=
  connect.map .thread ++ [.thread (.client 0), .serve 0 (.recv (some [97, newline])),
    .serve 0 (.byte (.ok false fun _ => 0) none), .serve 0 (.byte (.ok false fun _ => 0) none),
    .serve 0 .lock, .serve 0 (.fopen true), .serve 0 (.write 1 smooth), .thread .signal]

/-- The client's calls `acts`, between the wait of the thread handler and the exit. -/
def farewell (acts : List Clients.Act) : List (Act 1) :=
  midway ++ List.replicate 5 (.thread .main) ++ List.replicate 10 (.thread .handler) ++
    acts.map (.serve 0) ++ List.replicate 7 (.thread (.client 0)) ++
    List.replicate 10 (.thread .handler) ++ [.thread .main]

/-- The rest of the line is written, and the answer fails. -/
def unanswered : List Clients.Act :=
  [.write 1 smooth, .fflush, .fseek true, .fclose, .unlock, .back]

/-- The rest of the line is written, and the client gets its answer. -/
def answered : List Clients.Act :=
  [.write 1 smooth, .fflush, .fseek false, .fill 2 EndToEnd.readEnv, .fread 2, .send (some 2),
    .fill 1 EndToEnd.readEnv, .fread 0, .fseek false, .fclose, .unlock, .back, .chunkEnd false]

theorem exit_drained_farewell : ∃ s, run step start (farewell unanswered) = some s ∧
    (view s.clients.dev).entries = [[97, newline]] ∧ Drained s := by
  have hm : Meets step Allowed start (farewell unanswered) := by decide +kernel
  have hrun : (run step start (farewell unanswered)).map
      (fun s => (s.threads.main, (view s.clients.dev).entries)) = some (.done, [[97, newline]]) := by
    decide +kernel
  obtain ⟨s, hr, he⟩ := Option.map_eq_some_iff.mp hrun
  obtain ⟨hd, hentries⟩ := Prod.mk.inj he
  exact ⟨s, hr, hentries, exit_drained init_start hm hr hd⟩

/-- A run in which nothing fails, but `recv` on a socket that was closed. -/
def Flawless (s : State N) : Act N → Prop
  | .thread act => Timely s.threads act
  | .serve _ act => Smooth act
  | .hangup i => (s.clients.client i).pc = .recv

theorem Flawless.allowed {a : Act N} (h : Flawless s a) : Allowed s a := by
  cases a with
  | thread act => exact h
  | serve i act => exact tolerated_of_smooth h
  | hangup i => trivial

theorem Flawless.good_step {a : Act N} (h : Flawless s a) (hg : Serving.Good s.clients)
    (hs : step s a = some s') : Serving.Good s'.clients := by
  cases a with
  | thread act =>
    simp only [step] at hs
    split_ifs at hs
    obtain ⟨t, -, rfl⟩ := Option.map_eq_some_iff.mp hs
    exact hg
  | serve i act =>
    simp only [step] at hs
    split_ifs at hs
    obtain ⟨c, hc, rfl⟩ := Option.map_eq_some_iff.mp hs
    exact Refinement.good_step _ (i, act) _ hg h hc
  | hangup i =>
    have hpc : (s.clients.client i).pc = .recv := h
    simp only [step, hpc, failedCall] at hs
    split_ifs at hs
    obtain ⟨c, hc, rfl⟩ := Option.map_eq_some_iff.mp hs
    exact Refinement.good_step _ (i, .recv none) _ hg trivial hc

/-- **No line is lost at the exit** when nothing fails: every line that was received before, within the
limit, is answered, up to a seek that is refused. -/
theorem exit_answered {s₀ : State N} (h₀ : Init s₀) {as : List (Act N)} (hm : Meets step Flawless s₀ as)
    (hr : run step s₀ as = some s) (hd : s.threads.main = .done) : Drained s ∧ Served s.clients := by
  obtain ⟨hinv, hgood⟩ : Inv s ∧ Serving.Good s.clients :=
    hm.invariant (P := fun s => Inv s ∧ Serving.Good s.clients)
      (fun _ _ _ h ha hs => ⟨inv_step h.1 ha.allowed hs, ha.good_step h.2 hs⟩)
      ⟨inv_init h₀, good_init h₀.clients⟩ hr
  have hdrained := hinv.drained hd
  have hquiet : Quiet s.clients := by
    refine ⟨hdrained.log.1, fun i => ?_⟩
    by_cases hcl : s.threads.books.client i = none
    · have hp := hinv.place i
      rw [hcl] at hp
      exact .inl hp
    · exact .inr (hdrained.served i hcl)
  exact ⟨hdrained,
    { quiet := hquiet
      answers := hgood.answered
      outbox := hgood.outbox
      lines := fun i => EndToEnd.packetsOf_complete hgood (hquiet.2 i) }⟩

theorem granted_smooth : Granted smooth := ⟨rfl, rfl, rfl, rfl⟩

theorem exit_answered_farewell : ∃ s, run step start (farewell answered) = some s ∧
    (s.clients.client 0).outbox = [97, newline] ∧ Drained s ∧ Served s.clients := by
  have hallowed : Meets step Allowed start (farewell answered) := by decide +kernel
  have hsmooth : ∀ act ∈ answered, Smooth act := by
    simp [answered, Smooth, EndToEnd.readEnv, granted_smooth]
  have hm : Meets step Flawless start (farewell answered) := by
    refine hallowed.imp fun a ha s h => ?_
    cases a with
    | thread act => exact h
    | serve i act =>
      simp only [farewell, midway, List.mem_append, List.mem_map, List.mem_cons, List.mem_replicate,
        List.not_mem_nil, Act.serve.injEq, reduceCtorEq, and_false, exists_false, false_or, or_false] at ha
      rcases ha with (⟨-, rfl⟩ | ⟨-, rfl⟩ | ⟨-, rfl⟩ | ⟨-, rfl⟩ | ⟨-, rfl⟩ | ⟨-, rfl⟩) |
        ⟨act, hact, -, rfl⟩
      · trivial
      · exact rfl
      · exact rfl
      · trivial
      · exact rfl
      · exact granted_smooth
      · exact hsmooth act hact
    | hangup i => simp [farewell, midway] at ha
  have hrun : (run step start (farewell answered)).map
      (fun s => (s.threads.main, (s.clients.client 0).outbox)) = some (.done, [97, newline]) := by
    decide +kernel
  obtain ⟨s, hr, he⟩ := Option.map_eq_some_iff.mp hrun
  obtain ⟨hd, hsent⟩ := Prod.mk.inj he
  exact ⟨s, hr, hsent, exit_answered init_start hm hr hd⟩

/-! ### The server gets there -/

/-- What may still happen: no signal comes and nothing more is received, no client thread is created, and
the calls return, `fopen` and the writes with success. -/
def Onward : Act N → Prop
  | .thread .signal | .thread .spurious | .thread (.create (some _)) => False
  | .thread _ => True
  | .serve _ (.recv received) => received = none ∨ received = some []
  | .serve _ act => Prompt act
  | .hangup _ => True

/-- What needs neither a client nor luck: with a connection, `recv` and `send` do not have to return. -/
def Unaided : Act N → Prop
  | .thread .signal | .thread .spurious => False
  | .thread (.accept fd) => fd = none
  | .thread (.malloc ok) => ok = false
  | .thread (.create id) => id = none
  | .thread _ => True
  | .serve _ (.send _) => False
  | .serve _ act => Prompt act ∧ Smooth act
  | .hangup _ => True

theorem Onward.allowed {a : Act N} (h : Onward a) : Allowed s a := by
  rcases a with act | ⟨i, act⟩ | i
  · cases act with
    | create id => cases id <;> first | exact h.elim | trivial
    | _ => trivial
  · have hact : Prompt act ∨ Tolerated act := by
      cases act <;> first | exact .inr trivial | exact .inl h
    exact hact.elim Prompt.tolerated id
  · trivial

/-! #### What is left to do -/

/-- The clients that have not ended. -/
def unfinished (c : Clients.State (Fin N)) : ℕ :=
  ∑ i, if finished (c.client i).pc = true then 0 else 1

def clientsLeft (c : Clients.State (Fin N)) : (ℕ ×ₗ ℕ ×ₗ ℕ) ×ₗ ℕ :=
  toLex (Aesd.Server.Progress.remaining c, unfinished c)

noncomputable def remaining (s : State N) : (ℕ ×ₗ ℕ ×ₗ ℕ) ×ₗ (ℕ ×ₗ ℕ ×ₗ ℕ) ×ₗ ℕ :=
  toLex (Aesd.Threads.Progress.remaining s.threads, clientsLeft s.clients)

/-- A connection is over. -/
theorem clientsLeft_recv {S : Bytes} {c c' : Clients.State (Fin N)} (h : Held S c) {i : Fin N}
    {received : Option Bytes} (hr : received = none ∨ received = some [])
    (hs : Clients.step c (i, .recv received) = some c') : clientsLeft c' < clientsLeft c := by
  obtain ⟨hpc, rfl⟩ : (c.client i).pc = .recv ∧ c.goto i .ended = c' := by
    simp only [Clients.step, h.sane, Bool.false_eq_true, if_false] at hs
    cases hpc : (c.client i).pc <;> simp only [hpc, reduceCtorEq] at hs
    rcases hr with rfl | rfl <;> exact ⟨rfl, Option.some.inj hs⟩
  set d : Client := { c.client i with pc := .ended } with hd
  have hsum := sum_update c.client clientWork (Finset.mem_univ i) d
  have hcount := sum_update c.client (fun c => if finished c.pc = true then 0 else 1)
    (Finset.mem_univ i) d
  have hzero : clientWork (c.client i) = 0 := by simp [clientWork, hpc]
  have hzero' : clientWork d = 0 := rfl
  have hholder : holderWork (c.goto i .ended) = holderWork c := by
    rcases hcur : c.holder with _ | cur
    · simp [holderWork, State.goto, State.put, hcur]
    · have hne : cur.client ≠ i := by
        rintro rfl
        have hcrit := (h.phase cur hcur).critical
        rw [hpc] at hcrit
        cases hcrit
      simp [holderWork, State.goto, State.put, hcur, hne]
  have hremaining : Aesd.Server.Progress.remaining (c.goto i .ended) = Aesd.Server.Progress.remaining c := by
    unfold Aesd.Server.Progress.remaining
    rw [hholder]
    congr 2
    show ∑ j, clientWork (Function.update c.client i d j) = _
    omega
  have hlt : unfinished (c.goto i .ended) < unfinished c := by
    show (∑ j, if finished (Function.update c.client i d j).pc = true then 0 else 1) < unfinished c
    simp only [hpc, hd, finished, Bool.false_eq_true, if_true, if_false] at hcount
    exact Nat.lt_of_succ_le hcount.le
  rw [clientsLeft, clientsLeft, hremaining]
  exact Prod.Lex.toLex_lt_toLex.mpr (.inr ⟨rfl, hlt⟩)

theorem clientsLeft_prompt {S : Bytes} {c c' : Clients.State (Fin N)} (h : Held S c)
    {i : Fin N} {act : Clients.Act} (ha : Prompt act) (hs : Clients.step c (i, act) = some c') :
    clientsLeft c' < clientsLeft c :=
  Prod.Lex.toLex_lt_toLex.mpr (.inl (Aesd.Server.Progress.remaining_step h ha hs))

theorem remaining_step {a : Act N} (h : Inv s) (hr : s.threads.running = false) (ha : Onward a)
    (hs : step s a = some s') : remaining s' < remaining s ∧ s'.threads.running = false := by
  obtain ⟨S, hheld⟩ := h.clients
  have hserve : ∀ {c : Clients.State (Fin N)}, clientsLeft c < clientsLeft s.clients →
      remaining { s with clients := c } < remaining s ∧ s.threads.running = false :=
    fun hlt => ⟨Prod.Lex.toLex_lt_toLex.mpr (.inr ⟨rfl, hlt⟩), hr⟩
  cases a with
  | thread act =>
    simp only [step] at hs
    split_ifs at hs
    obtain ⟨t, ht, rfl⟩ := Option.map_eq_some_iff.mp hs
    have hstep := Step.of_step h.threads.safe ht
    have hact : act ≠ .signal ∧ act ≠ .spurious := by
      constructor <;> rintro rfl <;> exact ha
    exact ⟨Prod.Lex.toLex_lt_toLex.mpr
      (.inl (Aesd.Threads.Progress.remaining_step h.threads hr hact hstep)),
      Aesd.Threads.Progress.running_step hr hstep⟩
  | serve i act =>
    simp only [step] at hs
    split_ifs at hs
    obtain ⟨c, hc, rfl⟩ := Option.map_eq_some_iff.mp hs
    refine hserve ?_
    cases act with
    | recv received => exact clientsLeft_recv hheld ha hc
    | _ =>
      refine clientsLeft_prompt hheld ?_ hc
      exact ha
  | hangup i =>
    simp only [step] at hs
    split_ifs at hs
    obtain ⟨c, hc, rfl⟩ := Option.map_eq_some_iff.mp hs
    refine hserve ?_
    unfold failedCall at hc
    split at hc
    · refine clientsLeft_prompt hheld ?_ hc
      trivial
    · exact clientsLeft_recv hheld (.inl rfl) hc

/-! #### Somebody can go on -/

/-- When everyone waits for the clients in the loop, there is no connection. -/
theorem Inv.all_closed (h : Inv s) (hj : s.threads.main = .join)
    (hh : s.threads.handler = .wait true false) (hm : s.threads.mutex = none) :
    noneOpen s.threads = true := by
  have hshut := (h.shut.noneLeft h.threads).shut hm (by rw [hh]; rfl)
  simp only [noneOpen, hj, MainPc.fd, Option.isNone_none, Bool.true_and, List.all_eq_true]
  intro n hn
  rcases hnd : s.threads.books.node n with _ | nd
  · rfl
  · simp [hshut n hn nd hnd]

theorem own_step (he : Aesd.Threads.Progress.Enabled s.threads) :
    ∃ a s', Unaided a ∧ step s a = some s' := by
  obtain ⟨act, t, hown, ht⟩ := he
  have hp : permitted s act = true := by
    cases act with
    | client n =>
      have hrun : s.threads.books.client n ≠ some .run := by simpa [Aesd.Threads.Progress.own] using hown
      simp [permitted, hrun]
    | malloc ok =>
      cases ok
      · rfl
      · cases hown
    | _ => rfl
  refine ⟨.thread act, { s with threads := t }, ?_, by simp [step, hp, ht]⟩
  unfold Aesd.Threads.Progress.own at hown
  split at hown <;> trivial

/-- A client in the loop goes on by itself, in a call that is not `send`. -/
theorem Inv.serve_on (h : Inv s) (hr : s.threads.running = false) {i : Fin N} {act : Clients.Act}
    {c : Clients.State (Fin N)} (hrun : s.threads.books.client i = some .run)
    (ha : Prompt act ∧ Smooth act) (hsend : ∀ k, act ≠ .send k)
    (hs : Clients.step s.clients (i, act) = some c) : ∃ a s', Unaided a ∧ step s a = some s' := by
  obtain ⟨S, hheld⟩ := h.clients
  have hserve : ∀ {act' : Clients.Act} {c'}, (Prompt act' ∧ Smooth act') → (∀ k, act' ≠ .send k) →
      agrees false act' = true → Clients.step s.clients (i, act') = some c' →
      ∃ a s', Unaided a ∧ step s a = some s' := by
    intro act' c' ha' hsend' hagree hs'
    refine ⟨.serve i act', { s with clients := c' }, ?_, by simp [step, hrun, hr, hagree, hs']⟩
    cases act' with
    | send k => exact absurd rfl (hsend' k)
    | _ => exact ha'
  cases act with
  | chunkEnd r =>
    -- `process_running` is reset, so the loop ends
    have hend : ∃ c', Clients.step s.clients (i, .chunkEnd false) = some c' := by
      simp only [Clients.step, hheld.sane, Bool.false_eq_true, if_false] at hs ⊢
      cases hpc : (s.clients.client i).pc <;> simp only [hpc, reduceCtorEq] at hs ⊢
      by_cases htodo : (s.clients.client i).todo = []
      · exact ⟨_, if_pos htodo⟩
      · rw [if_neg htodo] at hs
        cases hs
    obtain ⟨c', hs'⟩ := hend
    refine hserve ⟨?_, ?_⟩ (fun k he => ?_) rfl hs'
    · trivial
    · trivial
    · cases he
  | _ => exact hserve ha hsend rfl hs

/-- Without a connection `recv` and `send` return. -/
theorem Inv.hangup (h : Inv s) (hopen : noneOpen s.threads = true) {i : Fin N}
    (hrun : s.threads.books.client i = some .run)
    (hpc : (s.clients.client i).pc = .recv ∨ ∃ ret bytesRead total,
      (s.clients.client i).pc = .send ret bytesRead total) :
    ∃ a s', Unaided a ∧ step s a = some s' := by
  obtain ⟨S, hheld⟩ := h.clients
  have hcall : ∃ c, Clients.step s.clients (i, failedCall (s.clients.client i).pc) = some c := by
    rcases hpc with hpc | ⟨ret, bytesRead, total, hpc⟩ <;>
      exact ⟨_, by simp only [failedCall, Clients.step, hheld.sane, hpc]; rfl⟩
  obtain ⟨c, hc⟩ := hcall
  exact ⟨.hangup i, { s with clients := c }, trivial, by simp [step, hrun, hopen, hc]⟩

theorem pc_of_step {c c' : Clients.State (Fin N)} {i : Fin N} {act : Clients.Act} (hsane : c.fault = false)
    (ha : Prompt act) (hs : Clients.step c (i, act) = some c') :
    (c.client i).pc ≠ .recv ∧ (c.client i).pc ≠ .ended ∧
      ((∃ k, act = .send k) → ∃ ret bytesRead total, (c.client i).pc = .send ret bytesRead total) := by
  simp only [Clients.step, hsane, Bool.false_eq_true, if_false] at hs
  cases hpc : (c.client i).pc <;> cases act <;> simp only [hpc, reduceCtorEq] at hs <;>
    first | exact ha.elim | simp

/-- **No deadlock**, and nobody waits for a client for ever. -/
theorem goes_on (h : Inv s) (hr : s.threads.running = false) (hd : s.threads.main ≠ .done) :
    ∃ a s', Unaided a ∧ step s a = some s' := by
  rcases Aesd.Threads.Progress.enabled h.threads h.alert hd with he | ⟨n, hn⟩
  · exact own_step he
  have hopen := h.all_closed hn.main hn.handler hn.mutex
  have hlt : n < N := by
    refine lt_of_lt_of_le (h.threads.kept.accounts.lt_next fun hf => ?_) h.below
    have hrun := hn.run
    rw [hf.client] at hrun
    cases hrun
  obtain ⟨S, hheld⟩ := h.clients
  by_cases hq : Quiet s.clients
  · rcases hq.2 ⟨n, hlt⟩ with hpc | hpc
    · exact h.hangup hopen hn.run (.inl hpc)
    · obtain ⟨t, ht⟩ := Aesd.Threads.Progress.client_step h.threads hn.run (by simp) fun _ => hn.mutex
      refine ⟨.thread (.client n), { s with threads := t }, trivial, ?_⟩
      simp [step, permitted, hlt, hpc, finished, ht]
  · obtain ⟨⟨i, act⟩, c, ha, hs⟩ := Aesd.Server.Progress.goes_on hheld hq
    obtain ⟨hrecv, hended, hsending⟩ := pc_of_step hheld.sane ha.1 hs
    have hrun := h.run_of_pc hrecv hended
    by_cases hsend : ∃ k, act = .send k
    · exact h.hangup hopen hrun (.inr (hsending hsend))
    · exact h.serve_on hr hrun ha (fun k he => hsend ⟨k, he⟩) hs

/-- **The server stops without its clients.** From every state of such a run in which `process_running` is
reset, whichever threads go on and whatever fails in the meantime, the main thread comes to the end of
`run_server`, and then nothing is left of a client. -/
theorem server_drains {s₀ : State N} (h₀ : Init s₀) {as : List (Act N)} (hm : Meets step Allowed s₀ as)
    (hr : run step s₀ as = some s) (hstop : s.threads.running = false) :
    Inevitable step Onward Unaided Drained s := by
  refine inevitable_of_measure (P := fun s => Inv s ∧ s.threads.running = false) remaining ?_ ?_ ?_
    ⟨inv_run h₀ hm hr, hstop⟩
  · exact fun s a s' h ha hs => ⟨inv_step h.1 ha.allowed hs, (remaining_step h.1 h.2 ha hs).2⟩
  · exact fun s a s' h ha hs => (remaining_step h.1 h.2 ha hs).1
  · exact fun s h hd => goes_on h.1 h.2 fun hdone => hd (h.1.drained hdone)

theorem server_drains_midway : ∃ s, run step start midway = some s ∧
    s.clients.holder.isSome = true ∧ Inevitable step Onward Unaided Drained s := by
  have hm : Meets step Allowed start midway := by decide +kernel
  have hrun : (run step start midway).map
      (fun s => (s.threads.running, s.clients.holder.isSome)) = some (false, true) := by decide +kernel
  obtain ⟨s, hr, he⟩ := Option.map_eq_some_iff.mp hrun
  obtain ⟨hstop, hholder⟩ := Prod.mk.inj he
  exact ⟨s, hr, hholder, server_drains init_start hm hr hstop⟩

end Aesd.Server.Whole
