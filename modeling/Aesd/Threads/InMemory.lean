import Aesd.Threads.Bookkeeping
import Aesd.Threads.Queue

/-!
# Every run with the list in memory

`memStep` is what a step of the server does to the memory: it follows the links where the code does, and
it is `none` also where what it reads there is not what the model's step goes by. `list_in_memory` says
that it never is: in every run, whatever the interleaving, the macros go through live nodes, each loop
comes to its end, and the memory holds the list of the model.
-/

namespace Aesd.Threads.InMemory

open Aesd.Lib.Lts Aesd.Lib.SList
open Aesd.Threads.Model Aesd.Threads.Steps Aesd.Threads.Exclusion Aesd.Threads.Nodes
open Aesd.Threads.Accounting Aesd.Threads.Bookkeeping Aesd.Threads.Queue

/-- What was read in the memory is what the model says. -/
def agreed (m : Memory) (P : Prop) [Decidable P] : Option Memory := if P then some m else none

/-- `thread_list` at the start of the server. -/
def noNodes : Memory := ⟨none, fun _ => none⟩

/-- What a step of the main thread does to the memory; `garbage` is what `malloc` leaves in a node. -/
def mainMem (garbage : ℕ → Option ℕ) (m : Memory) (s : State) (act : Act) : Option Memory :=
  match s.main, act with
  | .add fd, .malloc true => m.addThreadToList s.books.next 0 fd (garbage s.books.next)
  -- `thread_node = SLIST_FIRST(&thread_list)`
  | .spawn _ n, .create _ => agreed m (m.slhFirst = some n)
  | .undo _ _, .main => m.removeHead
  | .release _ n, .main => m.free n
  | .setId n id, .main => m.write n fun nd => { nd with threadId := id }
  | _, _ => some m

/-- What a step of the thread handler does to the memory. -/
def handlerMem (m : Memory) (s : State) : Option Memory :=
  match s.handler with
  | .scan | .forcedScan =>
    agreed m (m.oneCommunictionThreadCompleted s.books.list.length m.slhFirst =
      s.books.oneCompleted s.books.list)
  -- a traversal begins
  | .test | .forceLock => agreed m (m.slhFirst = s.books.list.head?)
  | .forcedOuter | .forcedInner => agreed m (m.slhFirst = none ↔ s.books.list = [])
  | .visit _ (n :: rest) => agreed m (m.next n = some rest.head?)
  | .remove _ n _ => m.remove s.books.list.length n
  | .free _ n _ => m.free n
  | .close (n :: rest) =>
    (m.write n fun nd => { nd with clientSockFd := none }).bind fun m =>
      agreed m (m.next n = some rest.head?)
  | _ => some m

/-- What a step of the client thread of node `n` does to the memory. -/
def clientMem (m : Memory) (s : State) (n : ℕ) : Option Memory :=
  match s.books.client n with
  | some .close => m.write n fun nd => { nd with clientSockFd := none }
  | some .complete => m.write n fun nd => { nd with threadCompleted := true }
  | _ => some m

/-- What a step does to the memory. -/
def memStep (garbage : ℕ → Option ℕ) (m : Memory) (s : State) : Act → Option Memory
  | .signal | .spurious => some m
  | .handler => handlerMem m s
  | .client n => clientMem m s n
  | act => mainMem garbage m s act

/-- A step of the server with its memory. -/
def linkedStep (garbage : ℕ → Option ℕ) (x : State × Memory) (act : Act) : Option (State × Memory) :=
  (step x.1 act).bind fun s' => (memStep garbage x.2 x.1 act).map fun m' => (s', m')

variable {garbage : ℕ → Option ℕ} {m m' : Memory} {b b' : Books} {s s' : State} {act : Act} {n : ℕ}
  {l : List ℕ}

theorem agreed_of {P : Prop} [Decidable P] (h : P) : agreed m P = some m := if_pos h

theorem setNode_closed {nd : ThreadNode} (hn : b.node n = some nd) (hf : nd.clientSockFd = none) :
    b.setNode n { nd with clientSockFd := none } = b := by
  rw [← hf]
  exact setNode_self hn

theorem spawn_head (hi : Inv s) {fd : ℕ} (hp : s.main = .spawn fd n) : s.books.list.head? = some n := by
  have ha := hi.kept.accounts_of_main (f := some (n, .unborn fd)) (by rw [hp]; rfl) (by rw [hp]; rfl)
  exact ha.head n fd rfl

theorem mainMem_ok (garbage : ℕ → Option ℕ) (hi : Inv s) (hm : Represents m s.books)
    (h : MainStep s act s') :
    ∃ m', mainMem garbage m s act = some m' ∧ Represents m' s'.books := by
  cases h with
  | @add fd hp =>
    have hfresh := (hi.kept.accounts.fresh s.books.next le_rfl).list
    simpa [mainMem, hp] using hm.add hfresh fd _
  | @spawn fd n id hp hid =>
    have hhead : m.slhFirst = some n := hm.first.trans (spawn_head hi hp)
    exact ⟨m, by simp [mainMem, hp, agreed_of hhead], hm.of_eq rfl rfl⟩
  | @spawnFailed fd n hp =>
    have hhead : m.slhFirst = some n := hm.first.trans (spawn_head hi hp)
    exact ⟨m, by simp [mainMem, hp, agreed_of hhead], hm⟩
  | undo hp hl => simpa [mainMem, hp] using hm.removeHead hl
  | @release fd n hp =>
    have ha := hi.kept.main_account (n := n) (by rw [hp]; rfl)
    simpa [mainMem, hp] using hm.free ⟨_, ha.2.node⟩ ha.1
  | setId hp hn => simpa [mainMem, hp] using hm.write hn _
  | testOn hp | testOff hp | acceptFailed hp | accepted hp | lock hp | addFailed hp | unlock hp
  | unlockFailed hp | close hp | stop hp | wakeLock hp | broadcast hp | wakeUnlock hp | join hp =>
    exact ⟨m, by simp [mainMem, hp], hm⟩

theorem handlerMem_ok (hi : Inv s) (hm : Represents m s.books) (h : HandlerStep s s') :
    ∃ m', handlerMem m s = some m' ∧ Represents m' s'.books := by
  have hscan := hm.scan hi.safe.listed
  have hempty : m.slhFirst = none ↔ s.books.list = [] := by rw [hm.first, List.head?_eq_none_iff]
  have hrest := hi.kept.rest
  cases h with
  | scanFound hp | scanNone hp | forcedScanFound hp | forcedScanNone hp =>
    exact ⟨m, by simp [handlerMem, hp, agreed_of hscan], hm⟩
  | testOn hp | testOff hp | forceLock hp =>
    exact ⟨m, by simp [handlerMem, hp, agreed_of hm.first], hm⟩
  | forcedOuter hp | forcedOuterEnd hp | forcedInner hp | forcedInnerEnd hp =>
    exact ⟨m, by simp [handlerMem, hp, agreed_of hempty], hm⟩
  | visitCompleted hp | visitNext hp =>
    rw [hp] at hrest
    exact ⟨m, by simp [handlerMem, hp, agreed_of (hm.next hrest)], hm⟩
  | @remove forced n rest hp => simpa [handlerMem, hp] using hm.remove (hi.safe.remove forced n rest hp)
  | @free forced n rest hp =>
    have ha := hi.kept.handler_account (n := n) (by rw [hp]; rfl)
    obtain ⟨nd, hnd, -⟩ := ha.2.node
    simpa [handlerMem, hp] using hm.free ⟨nd, hnd⟩ ha.1
  | @closeNone n rest nd hp hn hf =>
    rw [hp] at hrest
    obtain ⟨m', hm', hr'⟩ := hm.write hn fun nd => { nd with clientSockFd := none }
    exact ⟨m', by simp [handlerMem, hp, hm', agreed_of (hr'.next hrest)],
      by rwa [setNode_closed hn hf] at hr'⟩
  | closeSome hp hn hf =>
    rw [hp] at hrest
    obtain ⟨m', hm', hr'⟩ := hm.write hn fun nd => { nd with clientSockFd := none }
    exact ⟨m', by simp [handlerMem, hp, hm', agreed_of (hr'.next hrest)], hr'.of_eq rfl rfl⟩
  | join hp => exact ⟨m, by simp [handlerMem, hp], hm.of_eq rfl rfl⟩
  | lock hp | outerOn hp | outerOff hp | innerOn hp | innerOff hp | sleep hp | wake hp | visitEnd hp
  | unlock hp | closeEnd hp | forceUnlock hp =>
    exact ⟨m, by simp [handlerMem, hp], hm⟩

theorem clientMem_ok (hm : Represents m s.books) (h : ClientStep s n s') :
    ∃ m', clientMem m s n = some m' ∧ Represents m' s'.books := by
  cases h with
  | @closeNone nd hc hn hf =>
    obtain ⟨m', hm', hr'⟩ := hm.write hn fun nd => { nd with clientSockFd := none }
    rw [setNode_closed hn hf] at hr'
    exact ⟨m', by simp [clientMem, hc, hm'], hr'.of_eq rfl rfl⟩
  | closeSome hc hn =>
    obtain ⟨m', hm', hr'⟩ := hm.write hn fun nd => { nd with clientSockFd := none }
    exact ⟨m', by simp [clientMem, hc, hm'], hr'.of_eq rfl rfl⟩
  | complete hc hn =>
    obtain ⟨m', hm', hr'⟩ := hm.write hn fun nd => { nd with threadCompleted := true }
    exact ⟨m', by simp [clientMem, hc, hm'], hr'.of_eq rfl rfl⟩
  | start hc | run hc | lock hc | signal hc | unlock hc | exiting hc =>
    exact ⟨m, by simp [clientMem, hc], hm.of_eq rfl rfl⟩

/-- **The memory follows a step.** -/
theorem memStep_ok (garbage : ℕ → Option ℕ) (hi : Inv s) (hm : Represents m s.books)
    (h : Step s act s') : ∃ m', memStep garbage m s act = some m' ∧ Represents m' s'.books := by
  cases h with
  | signal | spurious => exact ⟨m, rfl, hm⟩
  | handler h => exact handlerMem_ok hi hm h
  | client h => exact clientMem_ok hm h
  | main h =>
    have hmain := mainMem_ok garbage hi hm h
    cases h <;> exact hmain

/-- **The list in memory.** In every run of the threads the steps of the code find in memory the list the
model has: every macro and every access goes through live nodes, each traversal and each search for the
node before ends, and what is linked from `thread_list` is the list. -/
theorem list_in_memory (garbage : ℕ → Option ℕ) (as : List Act) (hr : run step init as = some s) :
    ∃ m, run (linkedStep garbage) (init, noNodes) as = some (s, m) ∧ Represents m s.books := by
  induction as using List.reverseRecOn generalizing s with
  | nil =>
    cases hr
    exact ⟨noNodes, rfl, .nil none, fun _ => rfl⟩
  | append_singleton as act ih =>
    rw [run_append, Option.bind_eq_some_iff] at hr
    obtain ⟨s₁, hr₁, hlast⟩ := hr
    obtain ⟨m₁, hrun₁, hm₁⟩ := ih hr₁
    obtain ⟨s₂, hs, hnil⟩ := run_cons_some.mp hlast
    cases hnil
    have hi := inv_of_run hr₁
    obtain ⟨m, hm, hrep⟩ := memStep_ok garbage hi hm₁ (.of_step hi.safe hs)
    refine ⟨m, ?_, hrep⟩
    rw [run_append, hrun₁, Option.bind_some, run_cons, linkedStep, hs, Option.bind_some, hm]
    rfl

/-- Two clients connect, and the first goes; its node is the last of the list. -/
def twoClients : List Act :=
  connect ++ [.main, .accept (some 6), .main, .malloc true, .create (some 8), .main, .main] ++
    List.replicate 8 (Act.client 0) ++ List.replicate 10 Act.handler

theorem list_in_memory_twoClients : ∃ s m, run step init twoClients = some s ∧
    s.books.list = [1] ∧ s.books.frees 0 = 1 ∧
    run (linkedStep fun _ => some 0) (init, noNodes) twoClients = some (s, m) ∧
    Represents m s.books := by
  have hrun : (run step init twoClients).map (fun s => (s.books.list, s.books.frees 0)) =
      some ([1], 1) := by decide
  obtain ⟨s, hr, he⟩ := Option.map_eq_some_iff.mp hrun
  obtain ⟨m, hm, hrep⟩ := list_in_memory (fun _ => some 0) twoClients hr
  obtain ⟨hl, hf⟩ : s.books.list = [1] ∧ s.books.frees 0 = 1 := by simpa using he
  exact ⟨s, m, hr, hl, hf, hm, hrep⟩

end Aesd.Threads.InMemory
