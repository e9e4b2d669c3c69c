import Aesd.Lib.Interrupts

/-!
# The listening socket

`server_sock_fd` is closed through `close_socket` by `sig_int_term_handler` and by `free_resources`. Both
test it against -1 first, and `close_socket` stores -1 last; in between, a second execution may find
the number still there. The handler is installed with an empty `sa_mask`: while it runs, its own signal
is held back on that thread, the other one is not, and other threads take either.

A run closes the socket once exactly when no execution calls `close` on the number while another one
stands between its `close` and its store of -1 (`closed_once_iff`). A SIGTERM that comes there in the
handler of a SIGINT closes the number twice (`nested_handlers`).
-/

namespace Aesd.Server.ListenSocket

open Aesd.Lib.Lts Aesd.Lib.Interrupts

inductive Signal
  | sigint
  | sigterm
  deriving DecidableEq

/-- What the number that `setup_socket` stored stands for. -/
inductive Named
  | listening
  | nothing
  | other
  deriving DecidableEq

structure Shared where
  serverSockFd : ℤ
  processRunning : Bool
  named : Named
  /-- How often `close_socket(&server_sock_fd)` called `close` on the number. -/
  closes : ℕ
  /-- One of these calls came after the socket had been closed. -/
  stray : Bool
  exited : Bool

/-- The caller of `close_socket(&server_sock_fd)`: the main thread in `free_resources`, or a handler. -/
inductive Caller
  | main
  | handler (n : Signal)
  deriving DecidableEq

/-- The next step. -/
inductive Pc
  /-- In `run_server`. -/
  | runServer
  /-- `stop_server_process`, in a handler or on each way out of `run_server`. -/
  | stop
  /-- The test of `server_sock_fd` against -1. -/
  | test
  | shutdown
  | close
  | store
  /-- In `free_resources`, past the socket. -/
  | exit
  deriving DecidableEq

structure Frame where
  caller : Caller
  pc : Pc
  deriving DecidableEq

/-- `close(fd)`, where `sock` is the number of the listening socket. -/
def Shared.close (sock : ℕ) (s : Shared) (fd : ℤ) : Shared :=
  if fd = sock then
    { s with
      named := .nothing, closes := s.closes + 1, stray := s.stray || decide (s.named ≠ .listening) }
  else s

/-- The caller past its part about the socket: the handler returns. -/
def Frame.past (f : Frame) : Option Frame :=
  match f.caller with
  | .main => some { f with pc := .exit }
  | .handler _ => none

/-- A step of `sig_int_term_handler`, of the main thread, or of `close_socket` called there. -/
def exec (sock : ℕ) (s : Shared) (f : Frame) : Shared × Option Frame :=
  match f.pc with
  | .runServer => (s, some { f with pc := .stop })
  | .stop => ({ s with processRunning := false }, some { f with pc := .test })
  | .test => (s, if s.serverSockFd ≠ -1 then some { f with pc := .shutdown } else f.past)
  | .shutdown => (s, some { f with pc := .close })
  | .close => (s.close sock s.serverSockFd, some { f with pc := .store })
  | .store => ({ s with serverSockFd := -1 }, f.past)
  | .exit => ({ s with exited := true }, none)

/-- What the rest of the program does with the number once it is free. -/
inductive Reuse
  | opened
  | closed

/-- A free number may be given to another file, and the owner of that file closes it. -/
def reuse (s : Shared) : Reuse → Option Shared
  | .opened => if s.named = .nothing then some { s with named := .other } else none
  | .closed => if s.named = .other then some { s with named := .nothing } else none

/-- **The process with its handlers**: a handler holds back its own signal, since `sa_mask` is empty. -/
def server (sock : ℕ) : Program Signal Frame Shared Reuse where
  enter n := ⟨.handler n, .stop⟩
  masked f n := f.caller = .handler n
  exec s f := some (exec sock s f)
  outside := reuse
  ended := Shared.exited

/-- The threads of the process. -/
inductive Thread (ι : Type*)
  | main
  | other (i : ι)
  deriving DecidableEq

variable {ι : Type*}

/-- `setup_signal_handlers` has succeeded, and the main thread enters `run_server`. -/
def init (ι : Type*) (sock : ℕ) : Machine (Thread ι) Frame Shared where
  shared := ⟨sock, true, .listening, 0, false, false⟩
  stack
    | .main => [⟨.main, .runServer⟩]
    | .other _ => []

/-- **The listening socket is closed once**: never a second time, and not left open at the end. -/
structure ClosedOnce (s : Shared) : Prop where
  once : s.closes ≤ 1
  notStray : s.stray = false
  ended : s.exited = true → s.closes = 1

instance : DecidablePred ClosedOnce := fun s =>
  decidable_of_iff (s.closes ≤ 1 ∧ s.stray = false ∧ (s.exited = true → s.closes = 1))
    ⟨fun h => ⟨h.1, h.2.1, h.2.2⟩, fun h => ⟨h.once, h.notStray, h.ended⟩⟩

/-- If the frame calls `close` on the number now, no other one has done so with its store of -1 still to
come. -/
def Clear (s : Shared) (F : Set Frame) (f : Frame) : Prop :=
  f.pc = .close → s.serverSockFd ≠ -1 → ∀ g ∈ F, g.pc ≠ .store

/-! ### The invariant -/

/-- Some frame is at the place. -/
def At (F : Set Frame) (pc : Pc) : Prop := ∃ g ∈ F, g.pc = pc

@[simp] theorem at_insert (f : Frame) (F : Set Frame) (pc : Pc) :
    At (insert f F) pc ↔ f.pc = pc ∨ At F pc := by
  simp [At]

@[simp] theorem at_next (next : Option Frame) (F : Set Frame) (pc : Pc) :
    At ({g | next = some g} ∪ F) pc ↔ (∃ g, next = some g ∧ g.pc = pc) ∨ At F pc := by
  simp only [At, Set.mem_union, Set.mem_ofPred_eq, or_and_right, exists_or]

/-- Until a frame has called `close` the socket is open; from there to the store of -1 the frame stands
between the two, and whoever is past the socket has left -1 behind. -/
structure Inv (sock : ℕ) (s : Shared) (F : Set Frame) : Prop where
  fd : s.serverSockFd = sock ∨ s.serverSockFd = -1
  opened : s.serverSockFd = sock → ¬ At F .store → s.closes = 0 ∧ s.named = .listening
  closing : s.serverSockFd = sock → At F .store → s.closes = 1
  closed : s.serverSockFd = -1 → s.closes = 1
  notStray : s.stray = false
  leaving : At F .exit → s.serverSockFd = -1
  ended : s.exited = true → s.serverSockFd = -1

section Steps
variable {sock : ℕ} {s s' : Shared} {F R : Set Frame} {f : Frame} {next : Option Frame}

theorem sock_ne (sock : ℕ) : (sock : ℤ) ≠ -1 := by omega

theorem Inv.closedOnce (h : Inv sock s F) : ClosedOnce s := by
  refine ⟨?_, h.notStray, fun he => h.closed (h.ended he)⟩
  rcases h.fd with hfd | hfd
  · by_cases hat : At F .store
    · exact (h.closing hfd hat).le
    · exact (h.opened hfd hat).1.le.trans (Nat.zero_le 1)
  · exact (h.closed hfd).le

/-- The invariant looks at the frames before their store of -1, and past it. -/
theorem Inv.congr (h : Inv sock s F) (hstore : At R .store ↔ At F .store)
    (hexit : At R .exit → s.serverSockFd = -1) : Inv sock s R :=
  { h with
    opened := fun hfd hat => h.opened hfd (hstore.not.mp hat)
    closing := fun hfd hat => h.closing hfd (hstore.mp hat)
    leaving := hexit }

theorem inv_deliver (h : Inv sock s F) (n : Signal) : Inv sock s (insert ((server sock).enter n) F) :=
  h.congr (by simp [server]) fun he => h.leaving (by simpa [server] using he)

theorem inv_reuse {e : Reuse} (h : Inv sock s F) (hs : reuse s e = some s') : Inv sock s' F := by
  have hnamed : s.serverSockFd = sock → ¬ At F .store → s.named = .listening :=
    fun hfd hat => (h.opened hfd hat).2
  cases e <;> simp only [reuse] at hs <;> split_ifs at hs with hn <;> rw [← Option.some.inj hs]
  all_goals
    refine { h with opened := fun hfd hat => ?_ }
    have hl := hnamed hfd hat
    rw [hn] at hl
    cases hl

/-- A step of a frame that neither closes nor stores. -/
theorem inv_move {g : Frame} (h : Inv sock s (insert f R)) (hf : f.pc ≠ .store) (hg : g.pc ≠ .store)
    (he : g.pc ≠ .exit) : Inv sock s ({g' | some g = some g'} ∪ R) := by
  refine h.congr (by simp [hf, hg]) fun hat => h.leaving ?_
  rw [at_insert]
  exact .inr (by simpa [he] using hat)

theorem inv_past (hfd : s.serverSockFd = -1) (hc : s.closes = 1) (hn : s.stray = false) :
    Inv sock s F where
  fd := .inr hfd
  opened := fun h => absurd (h.symm.trans hfd) (sock_ne sock)
  closing := fun h => absurd (h.symm.trans hfd) (sock_ne sock)
  closed := fun _ => hc
  notStray := hn
  leaving := fun _ => hfd
  ended := fun _ => hfd

/-- A frame at its store of -1 has closed the socket, or found -1. -/
theorem Inv.closes_of_store (h : Inv sock s F) (hat : At F .store) : s.closes = 1 := by
  rcases h.fd with hfd | hfd
  · exact h.closing hfd hat
  · exact h.closed hfd

theorem inv_close (h : Inv sock s (insert f R)) (hclear : Clear s (insert f R) f)
    (hpc : f.pc = .close) :
    Inv sock (s.close sock s.serverSockFd) ({g | some { f with pc := Pc.store } = some g} ∪ R) := by
  rcases h.fd with hfd | hfd
  · -- the first call of `close`: nobody stands at the store
    have hne : s.serverSockFd ≠ -1 := hfd ▸ sock_ne sock
    have hnone : ¬ At (insert f R) .store := fun ⟨g, hg, hs⟩ => hclear hpc hne g hg hs
    obtain ⟨hzero, hnamed⟩ := h.opened hfd hnone
    rw [Shared.close, if_pos hfd]
    refine ⟨.inl hfd, fun _ hat => absurd ?_ hat, fun _ _ => ?_, fun hm => absurd hm hne, ?_,
      fun hat => h.leaving ?_, fun he => h.ended he⟩
    · simp
    · simp [hzero]
    · simp [h.notStray, hnamed]
    · rw [at_insert]
      exact .inr (by simpa using hat)
  · rw [Shared.close, if_neg (hfd ▸ (sock_ne sock).symm)]
    exact inv_past hfd (h.closed hfd) h.notStray

theorem inv_exec (h : Inv sock s (insert f R)) (hclear : Clear s (insert f R) f)
    (hs : (server sock).exec s f = some (s', next)) : Inv sock s' ({g | next = some g} ∪ R) := by
  obtain ⟨rfl, rfl⟩ := Prod.mk.inj (Option.some.inj hs)
  rcases f with ⟨caller, pc⟩
  cases pc with
  | runServer => exact inv_move h (by simp) (by simp) (by simp)
  | stop =>
    have h' := inv_move (g := ⟨caller, .test⟩) h (by simp) (by simp) (by simp)
    exact { h' with }
  | test =>
    rcases h.fd with hfd | hfd
    · have hne : s.serverSockFd ≠ -1 := hfd ▸ sock_ne sock
      simp only [if_pos hne]
      exact inv_move h (by simp) (by simp) (by simp)
    · exact inv_past hfd (h.closed hfd) h.notStray
  | shutdown => exact inv_move h (by simp) (by simp) (by simp)
  | close => exact inv_close h hclear rfl
  | store => exact inv_past rfl (h.closes_of_store (by simp)) h.notStray
  | exit =>
    have hfd : s.serverSockFd = -1 := h.leaving (by simp)
    exact inv_past hfd (h.closed hfd) h.notStray

/-- **A frame that is not clear closes the number a second time.** -/
theorem not_closedOnce_of_not_clear (h : Inv sock s (insert f R)) (hclear : ¬ Clear s (insert f R) f)
    (hs : (server sock).exec s f = some (s', next)) : ¬ ClosedOnce s' := by
  obtain ⟨rfl, -⟩ := Prod.mk.inj (Option.some.inj hs)
  simp only [Clear, not_forall, not_not] at hclear
  obtain ⟨hpc, hne, g, hg, hstore⟩ := hclear
  have hfd : s.serverSockFd = sock := h.fd.resolve_right hne
  have hone : s.closes = 1 := h.closing hfd ⟨g, hg, hstore⟩
  intro honce
  have htwo := honce.once
  simp only [hpc, Shared.close, if_pos hfd, hone] at htwo
  omega

end Steps

theorem inv_init (ι : Type*) (sock : ℕ) : Inv sock (init ι sock).shared (init ι sock).frames := by
  have hat : ∀ pc, At (init ι sock).frames pc → pc = .runServer := by
    rintro pc ⟨g, ⟨t, ht⟩, rfl⟩
    rcases t with _ | i
    · rw [List.mem_singleton.mp ht]
    · cases ht
  exact ⟨.inl rfl, fun _ _ => ⟨rfl, rfl⟩, fun _ h => absurd (hat _ h) (by simp),
    fun h => absurd h (sock_ne sock), rfl, fun h => absurd (hat _ h) (by simp), fun h => by cases h⟩

/-! ### Every placement of the signals -/

variable [DecidableEq ι]

/-- **The listening socket is closed once** in exactly the runs in which nobody calls `close` on the
number while another frame has its store of -1 still to come. -/
theorem closed_once_iff {sock : ℕ} {as : List (Event (Thread ι) Signal Reuse)}
    {m : Machine (Thread ι) Frame Shared} (h : run (step (server sock)) (init ι sock) as = some m) :
    (∀ v ∈ visited (step (server sock)) (init ι sock) as, ClosedOnce v.shared) ↔
      Meets (step (server sock)) (Guarded Clear) (init ι sock) as :=
  run_iff_guarded (I := Inv sock) (fun _ _ hi => hi.closedOnce) (fun _ _ n hi => inv_deliver hi n)
    (fun _ _ _ _ _ hi hc hs => inv_exec hi hc hs)
    (fun _ _ _ _ _ hi hc hs => not_closedOnce_of_not_clear hi hc hs)
    (fun _ _ _ _ hi hs => inv_reuse hi hs) (inv_init ι sock) h

/-- A SIGTERM that the main thread takes in `run_server`: the handler closes the socket, and
`free_resources` finds -1. -/
theorem closed_once_sigterm :
    ∃ as m, run (step (server 3)) (init ℕ 3) as = some m ∧ m.shared.exited = true ∧
      Meets (step (server 3)) (Guarded Clear) (init ℕ 3) as := by
  have hrun : (run (step (server 3)) (init ℕ 3)
      (.deliver .main .sigterm :: List.replicate 9 (.exec .main))).map (fun m => m.shared.exited) =
        some true := by decide
  obtain ⟨m, hm, hexited⟩ := Option.map_eq_some_iff.mp hrun
  exact ⟨_, m, hm, hexited, (closed_once_iff hm).mp (by decide)⟩

/-- **A handler in the handler**: a SIGINT is taken in `run_server`, and a SIGTERM when its handler has
called `close` and not yet stored -1. By then another thread has opened a file under the number, and the
second handler closes it. -/
theorem nested_handlers :
    ∃ as m, run (step (server 3)) (init ℕ 3) as = some m ∧ m.shared.closes = 2 ∧
      m.shared.stray = true ∧ ¬ ClosedOnce m.shared := by
  have hrun : (run (step (server 3)) (init ℕ 3)
      (.deliver .main .sigint :: List.replicate 4 (.exec .main) ++
        .outside .opened :: .deliver .main .sigterm :: List.replicate 4 (.exec .main))).map
          (fun m => (m.shared.closes, m.shared.stray)) = some (2, true) := by decide
  obtain ⟨m, hm, hcount⟩ := Option.map_eq_some_iff.mp hrun
  obtain ⟨hcloses, hstray⟩ := Prod.mk.inj hcount
  refine ⟨_, m, hm, hcloses, hstray, fun honce => ?_⟩
  have htwo := honce.once
  omega

end Aesd.Server.ListenSocket
