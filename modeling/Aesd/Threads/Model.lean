import Aesd.Lib.Handles

/-!
# The threads of the server

The accept loop of `aesdsocket.c` (from the creation of the thread handler to the end of
`run_server`), `aesdsocket_threads.c`, and what a client thread does with its `thread_node`. Shared are
`process_running`, `thread_list` with its mutex and condition, the nodes, the descriptors and the
`pthread_t`s. A step is a call of a thread or the reading or writing of a shared variable.

Nodes, accepted sockets and client threads have numbers of their own that are never used again (a
client thread has that of its node); descriptors and `pthread_t`s are chosen by the system and may be
used again once they are free. An access to a freed node, a `close` of a descriptor that is not open, a
`free` of a node that is not live, and a `pthread_join` of an id that names no thread set `fault`. The
listening socket, and what a client thread does between its start and its end, is not part of this.
-/

namespace Aesd.Threads.Model

open Aesd.Lib.Handles

/-- `struct thread_node` without its list entry; `none` is the descriptor `-1`. -/
structure ThreadNode where
  threadId : ℕ
  threadCompleted : Bool
  clientSockFd : Option ℕ
  deriving DecidableEq

/-- Where a client thread is in `handle_client_communication`. -/
inductive ClientPc
  /-- before it reads `client_sock_fd` -/
  | start
  /-- receiving and sending -/
  | run
  /-- before `pthread_mutex_lock` -/
  | lock
  /-- before `close_socket` -/
  | close
  /-- before it sets `thread_completed` -/
  | complete
  /-- before `pthread_cond_signal` -/
  | signal
  /-- before `pthread_mutex_unlock` -/
  | unlock
  /-- before `pthread_exit` -/
  | exiting
  | exited
  deriving DecidableEq

/-- Where the main thread is; `fd` is the accepted descriptor. -/
inductive MainPc
  /-- before it tests `process_running` -/
  | test
  /-- in `accept` -/
  | accept
  /-- in `create_client_communication_thread`, before `pthread_mutex_lock` -/
  | create (fd : ℕ)
  /-- before `add_thread_to_list` -/
  | add (fd : ℕ)
  /-- before `pthread_create` -/
  | spawn (fd node : ℕ)
  /-- before `SLIST_REMOVE_HEAD` -/
  | undo (fd node : ℕ)
  /-- before `free` -/
  | release (fd node : ℕ)
  /-- before it stores the `pthread_t` -/
  | setId (node id : ℕ)
  /-- before `pthread_mutex_unlock`, with the descriptor if the creation failed -/
  | unlock (failed : Option ℕ)
  /-- before `close_socket` -/
  | close (fd : ℕ)
  /-- before `stop_server_process` -/
  | stop
  /-- in `wake_thread_handler` -/
  | wakeLock
  | broadcast
  | wakeUnlock
  /-- in `pthread_join` of the thread handler -/
  | join
  /-- after it -/
  | done
  deriving DecidableEq

/-- Where the thread handler is. `forced` tells `force_joining_client_communication_threads` from the
loop of `thread_handler`; the position in a traversal of the list is the rest of it. -/
inductive HandlerPc
  /-- before the first `pthread_mutex_lock` -/
  | lock
  /-- before the test of the outer loop -/
  | outer
  /-- before the test of `process_running` in the inner loop -/
  | inner
  /-- in `one_communiction_thread_completed` -/
  | scan
  /-- before `pthread_cond_wait` -/
  | sleep (forced : Bool)
  /-- in `pthread_cond_wait` -/
  | wait (forced notified : Bool)
  /-- before the test after the inner loop -/
  | test
  /-- in `join_completed_client_threads`, with the nodes from the current one on -/
  | visit (forced : Bool) (rest : List ℕ)
  /-- before `pthread_join` -/
  | join (forced : Bool) (node : ℕ) (rest : List ℕ)
  /-- before `SLIST_REMOVE` -/
  | remove (forced : Bool) (node : ℕ) (rest : List ℕ)
  /-- before `free` -/
  | free (forced : Bool) (node : ℕ) (rest : List ℕ)
  /-- before the `pthread_mutex_unlock` of `thread_handler` -/
  | unlock
  /-- before the `pthread_mutex_lock` of the forced join -/
  | forceLock
  /-- in `close_client_communication_threads_sockets`, with the nodes from the current one on -/
  | close (rest : List ℕ)
  /-- before the tests for an empty list in the two loops -/
  | forcedOuter
  | forcedInner
  /-- in `one_communiction_thread_completed` -/
  | forcedScan
  /-- before the last `pthread_mutex_unlock` -/
  | forceUnlock
  | exit
  deriving DecidableEq

namespace HandlerPc

/-- A waiting handler is notified. -/
def notified : HandlerPc → HandlerPc
  | .wait forced _ => .wait forced true
  | pc => pc

/-- The test that follows `pthread_cond_wait`. -/
def woken (forced : Bool) : HandlerPc := if forced = true then .forcedInner else .inner

/-- The test that follows `join_completed_client_threads`. -/
def back (forced : Bool) : HandlerPc := if forced = true then .forcedOuter else .outer

end HandlerPc

/-- Who may hold `thread_list_mutex`. -/
inductive Thread
  | main
  | handler
  | client (node : ℕ)
  deriving DecidableEq

/-- The list of nodes, the live nodes, the number of the next one, the client threads, which thread a
`pthread_t` names, and how often each thread was joined and each node freed. -/
structure Books where
  list : List ℕ
  node : ℕ → Option ThreadNode
  next : ℕ
  client : ℕ → Option ClientPc
  threads : ℕ → Option ℕ
  joins : ℕ → ℕ
  frees : ℕ → ℕ

/-- The server; `files` are the descriptors of the accepted sockets. -/
structure State where
  running : Bool
  mutex : Option Thread
  books : Books
  files : Table ℕ
  main : MainPc
  handler : HandlerPc
  fault : Bool

namespace Books

/-- `malloc` and `SLIST_INSERT_HEAD` in `add_thread_to_list`. -/
def add (b : Books) (fd : ℕ) : Books :=
  { b with
    list := b.next :: b.list
    node := Function.update b.node b.next (some ⟨0, false, some fd⟩)
    next := b.next + 1 }

/-- `pthread_create` of the thread of node `n`. -/
def spawn (b : Books) (n id : ℕ) : Books :=
  { b with
    client := Function.update b.client n (some .start)
    threads := Function.update b.threads id (some n) }

/-- The node `n` becomes `nd`. -/
def setNode (b : Books) (n : ℕ) (nd : ThreadNode) : Books :=
  { b with node := Function.update b.node n (some nd) }

/-- The thread of node `n` goes on at `pc`. -/
def setClient (b : Books) (n : ℕ) (pc : ClientPc) : Books :=
  { b with client := Function.update b.client n (some pc) }

/-- The thread `n`, whose id is `id`, is joined. -/
def join (b : Books) (n id : ℕ) : Books :=
  { b with
    threads := Function.update b.threads id none
    joins := Function.update b.joins n (b.joins n + 1) }

/-- The node `n` is freed. -/
def free (b : Books) (n : ℕ) : Books :=
  { b with
    node := Function.update b.node n none
    frees := Function.update b.frees n (b.frees n + 1) }

/-- `one_communiction_thread_completed` on the nodes given. -/
def oneCompleted (b : Books) : List ℕ → Option Bool
  | [] => some false
  | n :: l =>
    match b.node n with
    | none => none
    | some nd => if nd.threadCompleted = true then some true else oneCompleted b l

end Books

namespace State

/-- Undefined behaviour, or a call that fails because of the server's own mistake. -/
def crash (s : State) : State := { s with fault := true }

/-- An access to the node `n`. -/
def deref (s : State) (n : ℕ) (k : ThreadNode → Option State) : Option State :=
  match s.books.node n with
  | none => some s.crash
  | some nd => k nd

/-- `pthread_mutex_lock(&thread_list_mutex)` by `t`, which waits while it is held. -/
def lock (s : State) (t : Thread) : Option State :=
  match s.mutex with
  | none => some { s with mutex := some t }
  | some _ => none

/-- `pthread_mutex_unlock(&thread_list_mutex)` -/
def unlock (s : State) : State := { s with mutex := none }

/-- `pthread_cond_signal` and `pthread_cond_broadcast`: only the thread handler waits. -/
def notify (s : State) : State := { s with handler := s.handler.notified }

/-- `close_socket` of the descriptor `fd`. -/
def closeFd (s : State) (fd : ℕ) : State :=
  match s.files.object fd with
  | none => s.crash
  | some m => { s with files := s.files.close fd m }

/-- `free` of the node `n`. -/
def freeNode (s : State) (n : ℕ) : Option State :=
  s.deref n fun _ => some { s with books := s.books.free n }

/-- `close_socket(&thread_node->client_sock_fd)` of the node `n`, unless it is `-1`. -/
def closeNode (s : State) (n : ℕ) : Option State :=
  s.deref n fun nd =>
    match nd.clientSockFd with
    | none => some s
    | some fd =>
      let t := s.closeFd fd
      some { t with books := t.books.setNode n { nd with clientSockFd := none } }

end State

/-- What the system decides: a signal arrives, `pthread_cond_wait` wakes for no reason, `accept`
returns a descriptor or `-1`, `malloc` and `pthread_create` succeed or not. The other steps of a
thread have one outcome. -/
inductive Act
  | signal
  | spurious
  | accept (fd : Option ℕ)
  | malloc (ok : Bool)
  | create (id : Option ℕ)
  | main
  | handler
  | client (node : ℕ)
  deriving DecidableEq

/-- A step of the main thread. -/
def mainStep (s : State) (act : Act) : Option State :=
  match s.main, act with
  | .test, .main => some { s with main := if s.running = true then .accept else .stop }
  | .accept, .accept none => some { s with main := .stop }
  | .accept, .accept (some fd) =>
    if s.files.object fd = none then some { s with files := s.files.give fd, main := .create fd }
    else none
  | .create fd, .main => (s.lock .main).map fun s => { s with main := .add fd }
  | .add fd, .malloc true => some { s with books := s.books.add fd, main := .spawn fd s.books.next }
  | .add fd, .malloc false => some { s with main := .unlock (some fd) }
  | .spawn _ n, .create (some id) =>
    if s.books.threads id = none then
      some { s with books := s.books.spawn n id, main := .setId n id }
    else none
  | .spawn fd n, .create none => some { s with main := .undo fd n }
  | .undo fd n, .main =>
    match s.books.list with
    | [] => some s.crash
    | m :: l => s.deref m fun _ =>
      some { s with books := { s.books with list := l }, main := .release fd n }
  | .release fd n, .main =>
    (s.freeNode n).map fun s => { s with main := .unlock (some fd) }
  | .setId n id, .main => s.deref n fun nd =>
    some { s with books := s.books.setNode n { nd with threadId := id }, main := .unlock none }
  | .unlock none, .main => some { s.unlock with main := .test }
  | .unlock (some fd), .main => some { s.unlock with main := .close fd }
  | .close fd, .main => some { s.closeFd fd with main := .stop }
  | .stop, .main => some { s with running := false, main := .wakeLock }
  | .wakeLock, .main => (s.lock .main).map fun s => { s with main := .broadcast }
  | .broadcast, .main => some { s.notify with main := .wakeUnlock }
  | .wakeUnlock, .main => some { s.unlock with main := .join }
  | .join, .main => if s.handler = .exit then some { s with main := .done } else none
  | _, _ => none

/-- A step of the thread handler. -/
def handlerStep (s : State) : Option State :=
  match s.handler with
  | .lock => (s.lock .handler).map fun s => { s with handler := .outer }
  | .outer => some { s with handler := if s.running = true then .inner else .unlock }
  | .inner => some { s with handler := if s.running = true then .scan else .test }
  | .scan =>
    match s.books.oneCompleted s.books.list with
    | none => some s.crash
    | some found => some { s with handler := if found = true then .test else .sleep false }
  | .sleep forced => some { s.unlock with handler := .wait forced false }
  | .wait _ false => none
  | .wait forced true =>
    (s.lock .handler).map fun s => { s with handler := .woken forced }
  | .test =>
    some { s with handler := if s.running = true then .visit false s.books.list else .outer }
  | .visit forced [] => some { s with handler := .back forced }
  | .visit forced (n :: rest) => s.deref n fun nd =>
    some { s with
      handler := if nd.threadCompleted = true then .join forced n rest else .visit forced rest }
  | .join forced n rest => s.deref n fun nd =>
    match s.books.threads nd.threadId with
    | none => some s.crash
    | some m =>
      if s.books.client m = some .exited then
        some { s with books := s.books.join m nd.threadId, handler := .remove forced n rest }
      else none
  | .remove forced n rest =>
    if n ∈ s.books.list then
      some { s with
        books := { s.books with list := s.books.list.erase n }, handler := .free forced n rest }
    else some s.crash
  | .free forced n rest =>
    (s.freeNode n).map fun s => { s with handler := .visit forced rest }
  | .unlock => some { s.unlock with handler := .forceLock }
  | .forceLock => (s.lock .handler).map fun s => { s with handler := .close s.books.list }
  | .close [] => some { s with handler := .forcedOuter }
  | .close (n :: rest) => (s.closeNode n).map fun s => { s with handler := .close rest }
  | .forcedOuter =>
    some { s with handler := if s.books.list = [] then .forceUnlock else .forcedInner }
  | .forcedInner =>
    some { s with handler := if s.books.list = [] then .visit true s.books.list else .forcedScan }
  | .forcedScan =>
    match s.books.oneCompleted s.books.list with
    | none => some s.crash
    | some found =>
      some { s with handler := if found = true then .visit true s.books.list else .sleep true }
  | .forceUnlock => some { s.unlock with handler := .exit }
  | .exit => none

/-- A step of the client thread of node `n`. -/
def clientStep (s : State) (n : ℕ) : Option State :=
  let goto (s : State) (pc : ClientPc) : State := { s with books := s.books.setClient n pc }
  match s.books.client n with
  | none => none
  | some .start => s.deref n fun _ => some (goto s .run)
  | some .run => some (goto s .lock)
  | some .lock => (s.lock (.client n)).map fun s => goto s .close
  | some .close => (s.closeNode n).map fun s => goto s .complete
  | some .complete => s.deref n fun nd =>
    some (goto { s with books := s.books.setNode n { nd with threadCompleted := true } } .signal)
  | some .signal => some (goto s.notify .unlock)
  | some .unlock => some (goto s.unlock .exiting)
  | some .exiting => some (goto s .exited)
  | some .exited => none

/-- **One step of the server.** -/
def step (s : State) (act : Act) : Option State :=
  if s.fault = true then none
  else match act with
    | .signal => some { s with running := false }
    | .spurious =>
      match s.handler with
      | .wait forced false => some { s with handler := .wait forced true }
      | _ => none
    | .handler => handlerStep s
    | .client n => clientStep s n
    | act => mainStep s act

/-- The server when the thread handler was created. -/
def init : State where
  running := true
  mutex := none
  books := ⟨[], fun _ => none, 0, fun _ => none, fun _ => none, fun _ => 0, fun _ => 0⟩
  files := Table.empty
  main := .test
  handler := .lock
  fault := false

/-! ### Places -/

/-- The descriptor the main thread has accepted and neither handed over nor closed. -/
def MainPc.fd : MainPc → Option ℕ
  | .create fd => some fd
  | .add fd => some fd
  | .spawn fd _ => some fd
  | .undo fd _ => some fd
  | .release fd _ => some fd
  | .unlock failed => failed
  | .close fd => some fd
  | _ => none

/-- The node the next step of the main thread accesses. -/
def MainPc.node : MainPc → Option ℕ
  | .undo _ n => some n
  | .release _ n => some n
  | .setId n _ => some n
  | _ => none

/-- The node the next step of the thread handler accesses. -/
def HandlerPc.node : HandlerPc → Option ℕ
  | .visit _ (n :: _) => some n
  | .join _ n _ => some n
  | .free _ n _ => some n
  | .close (n :: _) => some n
  | _ => none

/-- The places between the `pthread_mutex_lock` of the main thread and its `pthread_mutex_unlock`. -/
def MainPc.inside : MainPc → Bool
  | .add _ | .spawn .. | .undo .. | .release .. | .setId .. | .unlock _ => true
  | .broadcast | .wakeUnlock => true
  | _ => false

/-- The places of the thread handler where it has locked the mutex and does not wait. -/
def HandlerPc.inside : HandlerPc → Bool
  | .lock | .wait .. | .forceLock | .exit => false
  | _ => true

/-- The places of a client thread between its `pthread_mutex_lock` and its `pthread_mutex_unlock`. -/
def ClientPc.inside : ClientPc → Bool
  | .close | .complete | .signal | .unlock => true
  | _ => false

/-- The places of a client thread after it has set `thread_completed`. -/
def ClientPc.completed : ClientPc → Bool
  | .signal | .unlock | .exiting | .exited => true
  | _ => false

/-- The places of a client thread after it has closed its socket. -/
def ClientPc.closed : ClientPc → Bool
  | .complete | .signal | .unlock | .exiting | .exited => true
  | _ => false

/-- The node `n` is live. -/
def Books.Live (b : Books) (n : ℕ) : Prop := ∃ nd, b.node n = some nd

/-- The node `n` is live and has `thread_completed` set. -/
def Books.Completed (b : Books) (n : ℕ) : Prop :=
  ∃ nd, b.node n = some nd ∧ nd.threadCompleted = true

end Aesd.Threads.Model
