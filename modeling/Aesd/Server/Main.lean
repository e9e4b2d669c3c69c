import Aesd.Lib.Descriptors

/-!
# The process of the server

`main`, from the descriptors that the process inherits to its exit, for both values of
`USE_AESD_CHAR_DEVICE`. What the threads do in `run_server` is here only what it does to the descriptors:
connections are accepted and closed, the log is opened and closed, messages are logged, and signals are
handled, each time to the end of `sig_int_term_handler`. The C library's connection to the system log, which
`openlog` leaves to the first `syslog`, has a descriptor too.
-/

namespace Aesd.Server.Main

open Aesd.Lib.Descriptors

/-- What a descriptor stands for. -/
inductive File (κ : Type*)
  | inherited (k : κ)
  | listening
  | accepted
  | log
  | devNull
  | devLog

/-- What `syslog` does with the connection to the system log: it leaves it as it is, closes it, or opens one
in place of the one there was. -/
inductive Syslog
  | kept
  | closed
  | opened
  deriving DecidableEq

inductive Fork
  | failed
  | parent
  | child

/-- What the threads do in `run_server`: `accept` returns, `close_socket` of an accepted connection,
`open_log_file` and `close_log_file`, `syslog`, and a signal. -/
inductive Act
  | accept
  | close (fd : ℕ)
  | openLogFile (ok : Bool)
  | closeLogFile
  | syslog
  | signal
  deriving DecidableEq

/-- What the system decides: which calls succeed, what `fork` returns, what the calls of `syslog` do one
after the other, onto which numbers `dup2` succeeds, and what the threads do. -/
structure Env where
  syslog : ℕ → Syslog
  getaddrinfo : Bool
  socket : Bool
  setsockopt : Bool
  bind : Bool
  listen : Bool
  fopen : Bool
  fork : Fork
  setsid : Bool
  chdir : Bool
  openNull : Bool
  dup2 : ℕ → Bool
  sigint : Bool
  sigterm : Bool
  timeStampingThread : Bool
  threadHandler : Bool
  clientConnections : Bool
  acts : List Act
  unlink : Bool

/-- The descriptors, `server_sock_fd`, the descriptor of `log_file`, whether the server made the file
`/var/tmp/aesdsocketdata`, the accepted connections that are not closed, the descriptor of the connection to
the system log, and how often `syslog` was called. -/
structure Process (κ : Type*) where
  fds : FdTable (File κ)
  serverSockFd : ℤ
  logFile : Option ℕ
  logOnDisk : Bool
  clients : List ℕ
  syslogFd : Option ℕ
  logged : ℕ

variable {κ : Type*}

/-- The process at the start of `main`. -/
def start (t : FdTable κ) : Process κ := ⟨t.map .inherited, -1, none, false, [], none, 0⟩

namespace Process

/-- `closelog` of the C library. -/
def closelog (p : Process κ) : Process κ :=
  match p.syslogFd with
  | none => p
  | some n => { p with fds := p.fds.close n, syslogFd := none }

def syslog (p : Process κ) (env : Env) : Process κ :=
  let q := { p with logged := p.logged + 1 }
  match env.syslog p.logged with
  | .kept => q
  | .closed => q.closelog
  | .opened =>
    let r := q.closelog.fds.give .devLog
    { q.closelog with fds := r.2, syslogFd := some r.1 }

/-- `handle_input_parameters` of the parameters behind the program's name: whether to run as a daemon. -/
def handleInputParameters (p : Process κ) (args : List String) (env : Env) : Process κ × Option Bool :=
  match args with
  | [] => (p, some false)
  | [arg] => (p.syslog env, if arg = "-d" then some true else none)
  | _ => (p.syslog env, none)

/-- `close_socket(&server_sock_fd)` -/
def closeSocket (p : Process κ) : Process κ :=
  { p with fds := p.fds.close p.serverSockFd, serverSockFd := -1 }

def createServerSocket (p : Process κ) (env : Env) : Process κ × Bool :=
  if env.socket then
    let r := p.fds.give .listening
    let q := { p with fds := r.2, serverSockFd := r.1 }
    if env.setsockopt then (q, true) else (q.syslog env, false)
  else ({ p with serverSockFd := -1 }.syslog env, false)

/-- `setup_socket`, with `bind_server_socket` and `listen_on_server_socket`. -/
def setupSocket (p : Process κ) (env : Env) : Process κ × Bool :=
  if env.getaddrinfo then
    match p.createServerSocket env with
    | (q, false) => (q, false)
    | (q, true) => if env.bind && env.listen then (q, true) else (q.syslog env, false)
  else (p.syslog env, false)

def openLogFile (p : Process κ) (useAesdCharDevice ok : Bool) (env : Env) : Process κ × Bool :=
  if ok then
    let r := p.fds.give .log
    ({ p with fds := r.2, logFile := some r.1, logOnDisk := p.logOnDisk || !useAesdCharDevice }, true)
  else ({ p with logFile := none }.syslog env, false)

def closeLogFile (p : Process κ) (env : Env) : Process κ :=
  match p.logFile with
  | none => p
  | some n =>
    let q := p.syslog env
    { q with fds := q.fds.close n, logFile := none }

/-- `dup2` of `null_fd` onto the number `n`. -/
def redirect (env : Env) (nullFd : ℕ) (t : FdTable (File κ)) (n : ℕ) : FdTable (File κ) :=
  if env.dup2 n then (t.dup2 nullFd n).getD t else t

def setupDaemon (p : Process κ) (env : Env) : Process κ × Bool :=
  if env.setsid && env.chdir && env.openNull then
    let r := p.fds.give .devNull
    let t := [0, 1, 2].foldl (redirect env r.1) r.2
    ({ p with fds := if r.1 > 2 then t.close r.1 else t }, true)
  else (p.syslog env, false)

/-- `handle_run_as_daemon`; `none` is the parent, which leaves through `_exit`. -/
def handleRunAsDaemon (p : Process κ) (runAsDaemon : Bool) (env : Env) : Option (Process κ × Bool) :=
  if runAsDaemon then
    match env.fork with
    | .failed => some (p.syslog env, false)
    | .parent => none
    | .child => some (p.setupDaemon env)
  else some (p, true)

def setupSignalHandlers (p : Process κ) (env : Env) : Process κ × Bool :=
  let q := if env.sigint then p else p.syslog env
  (if env.sigterm then q else q.syslog env, env.sigint && env.sigterm)

def sigIntTermHandler (p : Process κ) : Process κ :=
  if p.serverSockFd ≠ -1 then p.closeSocket else p

/-- What a thread does. Connections come from the listening socket only; the client threads open and close
the log only with `USE_AESD_CHAR_DEVICE`, and one at a time. -/
def act (useAesdCharDevice : Bool) (env : Env) (p : Process κ) : Act → Process κ
  | .accept =>
    match p.fds.fileAt p.serverSockFd with
    | some .listening =>
      let r := p.fds.give .accepted
      { p with fds := r.2, clients := r.1 :: p.clients }
    | _ => p
  | .close fd =>
    if fd ∈ p.clients then { p with fds := p.fds.close fd, clients := p.clients.erase fd } else p
  | .openLogFile ok =>
    if useAesdCharDevice && p.logFile.isNone then (p.openLogFile useAesdCharDevice ok env).1 else p
  | .closeLogFile => if useAesdCharDevice then p.closeLogFile env else p
  | .syslog => p.syslog env
  | .signal => p.sigIntTermHandler

/-- `run_server`, with `run_time_stamping_thread` and `run_thread_handler`; if one of these fails there are
only messages and signals. -/
def runServer (p : Process κ) (useAesdCharDevice : Bool) (env : Env) : Process κ × Bool :=
  if (useAesdCharDevice || env.timeStampingThread) && env.threadHandler then
    (env.acts.foldl (act useAesdCharDevice env) p, env.clientConnections)
  else
    ((env.acts.filter fun a => a = .syslog ∨ a = .signal).foldl (act useAesdCharDevice env) p, false)

def freeResources (p : Process κ) (useAesdCharDevice : Bool) (env : Env) : Process κ :=
  let q := if p.serverSockFd ≠ -1 then (p.syslog env).closeSocket else p
  if q.logFile.isSome then
    let q := q.closeLogFile env
    if useAesdCharDevice then q
    else
      let q := q.syslog env
      if env.unlink then { q with logOnDisk := false } else q
  else q

end Process

/-- How far `main` comes. -/
inductive Startup (κ : Type*)
  | parent (p : Process κ)
  | failed (p : Process κ)
  /-- before `run_server` -/
  | ready (p : Process κ)

/-- The calls of `main` before `run_server`. -/
def startUp (useAesdCharDevice : Bool) (args : List String) (env : Env) (p : Process κ) : Startup κ :=
  match p.handleInputParameters args env with
  | (p, none) => .failed p
  | (p, some runAsDaemon) =>
    match p.setupSocket env with
    | (p, false) => .failed p
    | (p, true) =>
      match if useAesdCharDevice then (p, true) else p.openLogFile useAesdCharDevice env.fopen env with
      | (p, false) => .failed p
      | (p, true) =>
        match p.handleRunAsDaemon runAsDaemon env with
        | none => .parent p
        | some (p, false) => .failed p
        | some (p, true) =>
          match p.setupSignalHandlers env with
          | (p, false) => .failed p
          | (p, true) => .ready p

/-- How the process ends: the parent of the daemon, or through `exit(ret_val)`. -/
inductive Exit (κ : Type*)
  | parent (p : Process κ)
  | exit (p : Process κ) (success : Bool)

def main (useAesdCharDevice : Bool) (args : List String) (env : Env) (p : Process κ) : Exit κ :=
  match startUp useAesdCharDevice args env p with
  | .parent p => .parent p
  | .failed p => .exit (p.freeResources useAesdCharDevice env) false
  | .ready p =>
    let r := p.runServer useAesdCharDevice env
    .exit (r.1.freeResources useAesdCharDevice env) r.2

/-! ### What the calls change -/

@[simp] theorem serverSockFd_closelog (p : Process κ) : p.closelog.serverSockFd = p.serverSockFd := by
  unfold Process.closelog
  split <;> rfl

@[simp] theorem logFile_closelog (p : Process κ) : p.closelog.logFile = p.logFile := by
  unfold Process.closelog
  split <;> rfl

@[simp] theorem logOnDisk_closelog (p : Process κ) : p.closelog.logOnDisk = p.logOnDisk := by
  unfold Process.closelog
  split <;> rfl

@[simp] theorem clients_closelog (p : Process κ) : p.closelog.clients = p.clients := by
  unfold Process.closelog
  split <;> rfl

@[simp] theorem syslogFd_closelog (p : Process κ) : p.closelog.syslogFd = none := by
  unfold Process.closelog
  split <;> first | assumption | rfl

@[simp] theorem serverSockFd_syslog (p : Process κ) (env : Env) :
    (p.syslog env).serverSockFd = p.serverSockFd := by
  unfold Process.syslog
  split <;> simp

@[simp] theorem logFile_syslog (p : Process κ) (env : Env) : (p.syslog env).logFile = p.logFile := by
  unfold Process.syslog
  split <;> simp

@[simp] theorem logOnDisk_syslog (p : Process κ) (env : Env) :
    (p.syslog env).logOnDisk = p.logOnDisk := by
  unfold Process.syslog
  split <;> simp

@[simp] theorem serverSockFd_closeLogFile (p : Process κ) (env : Env) :
    (p.closeLogFile env).serverSockFd = p.serverSockFd := by
  unfold Process.closeLogFile
  split <;> simp

@[simp] theorem logFile_closeLogFile (p : Process κ) (env : Env) :
    (p.closeLogFile env).logFile = none := by
  unfold Process.closeLogFile
  split <;> first | assumption | rfl

@[simp] theorem logOnDisk_closeLogFile (p : Process κ) (env : Env) :
    (p.closeLogFile env).logOnDisk = p.logOnDisk := by
  unfold Process.closeLogFile
  split <;> simp

/-- The log is as it was. -/
def SameLog (p q : Process κ) : Prop := q.logFile = p.logFile ∧ q.logOnDisk = p.logOnDisk

section SameLog
variable {p q r : Process κ} {env : Env}

theorem SameLog.trans (h : SameLog p q) (h' : SameLog q r) : SameLog p r :=
  ⟨h'.1.trans h.1, h'.2.trans h.2⟩

theorem sameLog_syslog (p : Process κ) (env : Env) : SameLog p (p.syslog env) :=
  ⟨logFile_syslog p env, logOnDisk_syslog p env⟩

theorem sameLog_handleInputParameters (p : Process κ) (args : List String) (env : Env) :
    SameLog p (p.handleInputParameters args env).1 := by
  unfold Process.handleInputParameters
  split
  · exact ⟨rfl, rfl⟩
  · exact sameLog_syslog p env
  · exact sameLog_syslog p env

theorem sameLog_setupSocket (p : Process κ) (env : Env) : SameLog p (p.setupSocket env).1 := by
  have hcreated : SameLog p (p.createServerSocket env).1 := by
    unfold Process.createServerSocket
    split_ifs
    · exact ⟨rfl, rfl⟩
    · exact ⟨logFile_syslog _ env, logOnDisk_syslog _ env⟩
    · exact ⟨logFile_syslog _ env, logOnDisk_syslog _ env⟩
  unfold Process.setupSocket
  by_cases hg : env.getaddrinfo = true
  swap
  · rw [if_neg hg]
    exact sameLog_syslog p env
  rw [if_pos hg]
  rcases hq : p.createServerSocket env with ⟨q, _ | _⟩ <;> rw [hq] at hcreated
  · exact hcreated
  · dsimp only
    split_ifs
    · exact hcreated
    · exact hcreated.trans (sameLog_syslog q env)

theorem sameLog_setupDaemon (p : Process κ) (env : Env) : SameLog p (p.setupDaemon env).1 := by
  unfold Process.setupDaemon
  split_ifs
  · exact ⟨rfl, rfl⟩
  · exact sameLog_syslog p env

theorem sameLog_setupSignalHandlers (p : Process κ) (env : Env) :
    SameLog p (p.setupSignalHandlers env).1 := by
  unfold Process.setupSignalHandlers
  dsimp only
  split_ifs
  · exact ⟨rfl, rfl⟩
  · exact sameLog_syslog p env
  · exact sameLog_syslog p env
  · exact (sameLog_syslog p env).trans (sameLog_syslog _ env)

end SameLog

/-! The redirection of a daemon. -/

theorem file_redirects {env : Env} {nullFd : ℕ} (ns : List ℕ) :
    ∀ {u : FdTable (File κ)}, u.file nullFd = some .devNull → ∀ n,
      (ns.foldl (Process.redirect env nullFd) u).file n =
        if n ∈ ns ∧ env.dup2 n = true then some .devNull else u.file n := by
  induction ns with
  | nil => simp
  | cons m ns ih =>
    intro u hu n
    have hfile : ∀ n, (Process.redirect env nullFd u m).file n =
        if n = m ∧ env.dup2 m = true then some .devNull else u.file n := by
      intro n
      unfold Process.redirect
      by_cases hd : env.dup2 m = true
      · simp [hd, FdTable.dup2_getD hu]
      · simp [hd]
    rw [List.foldl_cons, ih (by rw [hfile, hu]; split_ifs <;> rfl), hfile]
    by_cases hn : n = m
    · subst hn
      by_cases hd : env.dup2 n = true <;> simp [hd]
    · simp [hn]

/-- What the numbers of a daemon stand for. -/
theorem file_setupDaemon {p : Process κ} {env : Env} (hok : (p.setupDaemon env).2 = true) (n : ℕ) :
    (p.setupDaemon env).1.fds.file n =
      if n ≤ 2 ∧ (env.dup2 n = true ∨ n = p.fds.lowest) then some .devNull else p.fds.file n := by
  unfold Process.setupDaemon at hok ⊢
  by_cases henv : (env.setsid && env.chdir && env.openNull) = true
  swap
  · rw [if_neg henv] at hok
    cases hok
  rw [if_pos henv]
  obtain ⟨u, hu⟩ : ∃ u, [0, 1, 2].foldl (Process.redirect env (p.fds.give .devNull).1)
      (p.fds.give .devNull).2 = u := ⟨_, rfl⟩
  have hfile : u.file n = if n ≤ 2 ∧ env.dup2 n = true then some .devNull
      else if n = p.fds.lowest then some .devNull else p.fds.file n := by
    have hmem : n ∈ [0, 1, 2] ↔ n ≤ 2 := by simp; omega
    rw [← hu, file_redirects _ (by simp [FdTable.give])]
    simp only [hmem]
    simp [FdTable.give]
  show (if p.fds.lowest > 2 then FdTable.close _ p.fds.lowest else _ : FdTable (File κ)).file n = _
  rw [hu]
  by_cases hn : n = p.fds.lowest
  · have hfree : p.fds.file n = none := hn ▸ p.fds.file_lowest
    by_cases hle : n ≤ 2
    · have hnull : n ≤ 2 ∧ (env.dup2 n = true ∨ n = p.fds.lowest) := ⟨hle, .inr hn⟩
      rw [if_neg (by omega), hfile, if_pos hnull, if_pos hn, ite_self]
    · rw [if_pos (by omega), FdTable.file_close, if_pos hn, if_neg fun h => hle h.1, hfree]
  · have hsame : (if p.fds.lowest > 2 then u.close p.fds.lowest else u).file n = u.file n := by
      split_ifs
      · rw [FdTable.file_close, if_neg hn]
      · rfl
    rw [hsame, hfile, if_neg hn]
    simp only [hn, or_false]

theorem handleInputParameters_eq {p q : Process κ} {args : List String} {env : Env} {runAsDaemon : Bool}
    (h : p.handleInputParameters args env = (q, some runAsDaemon)) :
    (runAsDaemon = true ↔ args = ["-d"]) ∧ q = if args = ["-d"] then p.syslog env else p := by
  unfold Process.handleInputParameters at h
  split at h
  · cases h
    simp
  · split_ifs at h with harg
    · cases h
      simp [harg]
    · cases h
  · cases h

end Aesd.Server.Main
