import Aesd.Server.Main

/-!
# What is left at the exit

At the exit the process has what it inherited, the connection to the system log, and the accepted connections
that no thread has closed (`exits_clean`). `Holds` is kept by every call of `main` and of the threads; the
redirection of `setup_daemon` gives up the numbers 0 to 2, and `free_resources` closes what is left.
-/

namespace Aesd.Server.Exit

open Aesd.Lib.Descriptors Aesd.Server.Main

variable {κ : Type*}

/-- The files of the server: which is where. -/
def Own (p : Process κ) (lo : ℕ) : File κ → ℕ → Prop
  | .inherited _, _ => False
  | .listening, n => p.serverSockFd = n
  | .accepted, n => n ∈ p.clients
  | .log, n => p.logFile = some n
  | .devNull, n => n < lo
  | .devLog, n => p.syslogFd = some n

/-- The process that inherited the descriptors `t`; those below `lo` are redirected. -/
def Holds (lo : ℕ) (t : FdTable κ) (p : Process κ) : Prop :=
  Beside .inherited lo t (Own p lo) p.fds

/-- **What is left**: from `lo` on the descriptors inherited, the connection to the system log and the accepted
connections; below it there may also be `/dev/null`. -/
structure Left (lo : ℕ) (t : FdTable κ) (env : Env) (p : Process κ) : Prop where
  socket : p.serverSockFd = -1
  stream : p.logFile = none
  disk : p.logOnDisk = true → env.unlink = false
  above : ∀ n, lo ≤ n → p.fds.file n = (t.file n).map .inherited ∨ t.file n = none ∧
    (p.fds.file n = some .devLog ∧ p.syslogFd = some n ∨
      p.fds.file n = some .accepted ∧ n ∈ p.clients)
  below : ∀ n f, p.fds.file n = some f → (t.file n).map .inherited = some f ∨ f = .devNull ∨
    f = .devLog ∧ p.syslogFd = some n ∨ f = .accepted ∧ n ∈ p.clients

theorem holds_start (t : FdTable κ) : Holds 0 t (start t) :=
  Beside.inherited _ t fun f n ho => by cases f <;> simp [Own, start] at ho

section Holds
variable {lo : ℕ} {t : FdTable κ} {p : Process κ} (h : Holds lo t p)
include h

theorem Holds.left {env : Env} (hs : p.serverSockFd = -1) (hl : p.logFile = none)
    (hd : p.logOnDisk = true → env.unlink = false) : Left lo t env p := by
  have hown : ∀ f n, Own p lo f n →
      f = .devNull ∧ n < lo ∨ f = .devLog ∧ p.syslogFd = some n ∨ f = .accepted ∧ n ∈ p.clients := by
    intro f n ho
    cases f <;> simp [Own, hs, hl] at ho ⊢ <;> exact ho
  refine ⟨hs, hl, hd, fun n hn => ?_, fun n f hf => ?_⟩
  · rcases h.file_cases hn with hf | ⟨f, hf, ho⟩
    · exact .inl hf
    · refine .inr ⟨h.fresh hn ho, ?_⟩
      rcases hown f n ho with ⟨-, hlt⟩ | ⟨rfl, hlog⟩ | ⟨rfl, hacc⟩
      · omega
      · exact .inl ⟨hf, hlog⟩
      · exact .inr ⟨hf, hacc⟩
  · rcases h.known hf with ⟨-, hm⟩ | ho
    · exact .inl hm
    · exact .inr ((hown f n ho).imp_left And.left)

theorem Holds.shut {p' : Process κ} {a : File κ} {n : ℕ} (hn : Own p lo a n)
    (hfds : p'.fds = p.fds.close n) (hown : ∀ f m, m ≠ n → Own p lo f m → Own p' lo f m)
    (hsub : ∀ f m, Own p' lo f m → Own p lo f m) : Holds lo t p' := by
  unfold Holds
  rw [hfds]
  exact h.close (fun hlo => h.fresh hlo hn) hown hsub

theorem Holds.opened {p' : Process κ} {a : File κ} (hfds : p'.fds = (p.fds.give a).2)
    (hown : ∀ f m, Own p' lo f m ↔ Own p lo f m ∨ f = a ∧ m = p.fds.lowest) : Holds lo t p' := by
  unfold Holds
  rw [hfds]
  exact h.give a hown

theorem Holds.closelog : Holds lo t p.closelog := by
  rcases hfd : p.syslogFd with _ | n
  · have hsame : p.closelog = p := by simp [Process.closelog, hfd]
    rwa [hsame]
  · have heq : p.closelog = { p with fds := p.fds.close n, syslogFd := none } := by
      simp [Process.closelog, hfd]
    rw [heq]
    refine h.shut (a := .devLog) hfd rfl (fun f m hm ho => ?_) fun f m ho => ?_
    · cases f <;> simp only [Own] at ho ⊢ <;> first | exact ho | skip
      rw [hfd] at ho
      exact absurd (Option.some.inj ho).symm hm
    · cases f <;> simp only [Own, reduceCtorEq] at ho ⊢ <;> exact ho

theorem Holds.syslog (env : Env) : Holds lo t (p.syslog env) := by
  have hlogged : Holds lo t { p with logged := p.logged + 1 } := h
  unfold Process.syslog
  split
  · exact hlogged
  · exact hlogged.closelog
  · refine hlogged.closelog.opened (a := .devLog) rfl fun f m => ?_
    cases f <;> simp [Own, FdTable.give, eq_comm]

theorem Holds.closeSocket : Holds lo t p.closeSocket := by
  rcases hfd : p.serverSockFd with n | n
  · refine h.shut (a := .listening) hfd (by rw [Process.closeSocket, hfd]; rfl) (fun f m hm ho => ?_)
      fun f m ho => ?_
    · cases f <;> simp only [Own, Process.closeSocket] at ho ⊢ <;> first | exact ho | skip
      rw [hfd] at ho
      exact absurd (Int.ofNat.inj ho).symm hm
    · cases f <;> simp only [Own, Process.closeSocket] at ho ⊢ <;> first | exact ho | skip
      omega
  · have hfds : p.closeSocket.fds = p.fds := by rw [Process.closeSocket, hfd]; rfl
    unfold Holds
    rw [hfds]
    refine h.raise le_rfl (fun f m ho => ?_) fun f m _ ho => ?_ <;>
      cases f <;> simp only [Own, Process.closeSocket] at ho ⊢ <;> first | exact ho | omega

theorem Holds.sigIntTermHandler : Holds lo t p.sigIntTermHandler := by
  unfold Process.sigIntTermHandler
  split_ifs
  · exact h.closeSocket
  · exact h

theorem Holds.openLogFile (hl : p.logFile = none) (useAesdCharDevice ok : Bool) (env : Env) :
    Holds lo t (p.openLogFile useAesdCharDevice ok env).1 := by
  unfold Process.openLogFile
  split_ifs
  · refine h.opened (a := .log) rfl fun f m => ?_
    cases f <;> simp [Own, FdTable.give, hl, eq_comm]
  · have hsame : { p with logFile := none } = p := by rw [← hl]
    simpa only [hsame] using h.syslog env

theorem Holds.closeLogFile (env : Env) : Holds lo t (p.closeLogFile env) := by
  unfold Process.closeLogFile
  rcases hl : p.logFile with _ | n
  · exact h
  · refine (h.syslog env).shut (a := .log) (by simp [Own, hl]) rfl (fun f m hm ho => ?_)
      fun f m ho => ?_
    · cases f <;> simp only [Own, logFile_syslog, hl] at ho ⊢ <;> first | exact ho | skip
      exact absurd (Option.some.inj ho).symm hm
    · cases f <;> simp only [Own, reduceCtorEq] at ho ⊢ <;> exact ho

theorem Holds.act (useAesdCharDevice : Bool) (env : Env) (a : Act) :
    Holds lo t (p.act useAesdCharDevice env a) := by
  cases a with
  | accept =>
    simp only [Process.act]
    split
    · refine h.opened (a := .accepted) rfl fun f m => ?_
      cases f <;> simp [Own, FdTable.give, or_comm]
    · exact h
  | close fd =>
    simp only [Process.act]
    split_ifs with hfd
    · refine h.shut (a := .accepted) hfd rfl (fun f m hm ho => ?_) fun f m ho => ?_
      · cases f <;> simp only [Own] at ho ⊢ <;> first | exact ho | skip
        exact (List.mem_erase_of_ne hm).mpr ho
      · cases f <;> simp only [Own] at ho ⊢ <;> first | exact ho | skip
        exact List.mem_of_mem_erase ho
    · exact h
  | openLogFile ok =>
    simp only [Process.act]
    split_ifs with hl
    · exact h.openLogFile (by simp at hl; exact hl.2) useAesdCharDevice ok env
    · exact h
  | closeLogFile =>
    simp only [Process.act]
    split_ifs
    · exact h.closeLogFile env
    · exact h
  | syslog => exact h.syslog env
  | signal => exact h.sigIntTermHandler

omit h in
theorem Holds.acts (useAesdCharDevice : Bool) (env : Env) :
    ∀ (as : List Act) {p : Process κ}, Holds lo t p →
      Holds lo t (as.foldl (Process.act useAesdCharDevice env) p)
  | [], _, h => h
  | a :: as, _, h => Holds.acts useAesdCharDevice env as (h.act useAesdCharDevice env a)

theorem Holds.runServer (useAesdCharDevice : Bool) (env : Env) :
    Holds lo t (p.runServer useAesdCharDevice env).1 := by
  unfold Process.runServer
  split_ifs <;> exact Holds.acts _ _ _ h

end Holds

/-! The file of the log is there only while the log is open. -/

def OnDisk (useAesdCharDevice : Bool) (p : Process κ) : Prop :=
  p.logOnDisk = true → useAesdCharDevice = false ∧ p.logFile ≠ none

theorem OnDisk.of_eq {useAesdCharDevice : Bool} {p p' : Process κ} (h : OnDisk useAesdCharDevice p)
    (hd : p'.logOnDisk = p.logOnDisk) (hl : p'.logFile = p.logFile) : OnDisk useAesdCharDevice p' := by
  unfold OnDisk
  rw [hd, hl]
  exact h

/-- The client threads do not touch a log that is a file. -/
theorem OnDisk.act {useAesdCharDevice : Bool} {p : Process κ} (h : OnDisk useAesdCharDevice p)
    (env : Env) (a : Act) : OnDisk useAesdCharDevice (p.act useAesdCharDevice env a) := by
  cases a with
  | accept =>
    simp only [Process.act]
    split <;> exact h
  | close fd =>
    simp only [Process.act]
    split_ifs <;> exact h
  | openLogFile ok =>
    simp only [Process.act]
    split_ifs with hl
    · have hu : useAesdCharDevice = true := by simp at hl; exact hl.1
      intro hd
      unfold Process.openLogFile at hd
      split_ifs at hd <;> simp [hu] at hd <;> simp [(h hd).1] at hu
    · exact h
  | closeLogFile =>
    simp only [Process.act]
    split_ifs with hu
    · intro hd
      rw [logOnDisk_closeLogFile] at hd
      rw [(h hd).1] at hu
      cases hu
    · exact h
  | syslog => exact h.of_eq (logOnDisk_syslog p env) (logFile_syslog p env)
  | signal =>
    simp only [Process.act, Process.sigIntTermHandler]
    split_ifs <;> exact h

theorem OnDisk.acts (useAesdCharDevice : Bool) (env : Env) :
    ∀ (as : List Act) {p : Process κ}, OnDisk useAesdCharDevice p →
      OnDisk useAesdCharDevice (as.foldl (Process.act useAesdCharDevice env) p)
  | [], _, h => h
  | a :: as, _, h => OnDisk.acts useAesdCharDevice env as (h.act env a)

theorem OnDisk.runServer {useAesdCharDevice : Bool} {p : Process κ} (h : OnDisk useAesdCharDevice p)
    (env : Env) : OnDisk useAesdCharDevice (p.runServer useAesdCharDevice env).1 := by
  unfold Process.runServer
  split_ifs <;> exact OnDisk.acts _ _ _ h

theorem Holds.freeResources {lo : ℕ} {t : FdTable κ} {p : Process κ} (h : Holds lo t p)
    {useAesdCharDevice : Bool} (hd : OnDisk useAesdCharDevice p) (env : Env) :
    Left lo t env (p.freeResources useAesdCharDevice env) := by
  obtain ⟨q, hq, hs, hqd, he⟩ : ∃ q : Process κ, Holds lo t q ∧ q.serverSockFd = -1 ∧
      OnDisk useAesdCharDevice q ∧
        (if p.serverSockFd ≠ -1 then (p.syslog env).closeSocket else p) = q := by
    by_cases hs : p.serverSockFd = -1
    · exact ⟨p, h, hs, hd, by simp [hs]⟩
    · exact ⟨_, (h.syslog env).closeSocket, rfl,
        hd.of_eq (logOnDisk_syslog p env) (logFile_syslog p env), if_pos hs⟩
  unfold Process.freeResources
  rw [he]
  have hclosed := hq.closeLogFile env
  rcases hl : q.logFile with _ | n
  · simp only [hl, Option.isSome_none, Bool.false_eq_true, if_false]
    exact hq.left hs hl fun ho => absurd hl (hqd ho).2
  · simp only [hl, Option.isSome_some, if_true]
    split_ifs with hu hunlink
    · refine hclosed.left (by simpa using hs) (by simp) fun ho => ?_
      rw [(hqd (by simpa using ho)).1] at hu
      cases hu
    · have hgone : Holds lo t { (q.closeLogFile env).syslog env with logOnDisk := false } :=
        hclosed.syslog env
      exact hgone.left (by simpa using hs) (by simp) fun ho => by cases ho
    · exact (hclosed.syslog env).left (by simpa using hs) (by simp) fun _ => by simpa using hunlink

/-! ### Before `run_server` -/

section Opening
variable {t : FdTable κ} {p : Process κ} (h : Holds 0 t p)
include h

theorem Holds.handleInputParameters (args : List String) (env : Env) :
    Holds 0 t (p.handleInputParameters args env).1 := by
  unfold Process.handleInputParameters
  split
  · exact h
  · exact h.syslog env
  · exact h.syslog env

theorem Holds.createServerSocket (hs : p.serverSockFd = -1) (env : Env) :
    Holds 0 t (p.createServerSocket env).1 := by
  have hgiven : Holds 0 t { p with fds := (p.fds.give .listening).2, serverSockFd := p.fds.lowest } := by
    refine h.opened (a := .listening) rfl fun f m => ?_
    cases f <;> simp [Own, hs, eq_comm]
  have hsame : { p with serverSockFd := -1 } = p := by rw [← hs]
  unfold Process.createServerSocket
  split_ifs
  · exact hgiven
  · exact hgiven.syslog env
  · simpa only [hsame] using h.syslog env

theorem Holds.setupSocket (hs : p.serverSockFd = -1) (env : Env) :
    Holds 0 t (p.setupSocket env).1 := by
  have hcreated := h.createServerSocket hs env
  unfold Process.setupSocket
  by_cases hg : env.getaddrinfo = true
  swap
  · rw [if_neg hg]
    exact h.syslog env
  rw [if_pos hg]
  rcases hq : p.createServerSocket env with ⟨q, _ | _⟩ <;> rw [hq] at hcreated
  · exact hcreated
  · dsimp only
    split_ifs
    · exact hcreated
    · exact hcreated.syslog env

end Opening

section Redirecting
variable {lo : ℕ} {t : FdTable κ} {p : Process κ} (h : Holds lo t p)
include h

/-- A daemon's descriptors 0 to 2 are not looked at any more. -/
theorem Holds.raise (hlo : lo ≤ 3) : Holds 3 t p := by
  refine Beside.raise h hlo (fun f n ho => ?_) fun f n hn ho => ?_ <;>
    cases f <;> simp only [Own] at ho ⊢ <;> first | exact ho | omega

theorem Holds.setupDaemon (hlo : lo ≤ 3) (env : Env) : Holds 3 t (p.setupDaemon env).1 := by
  by_cases hok : (p.setupDaemon env).2 = true
  swap
  · have hfailed : (p.setupDaemon env).1 = p.syslog env := by
      unfold Process.setupDaemon at hok ⊢
      split_ifs at hok ⊢ <;> first | rfl | exact absurd rfl hok
    rw [hfailed]
    exact (h.syslog env).raise hlo
  have hraised := h.raise hlo
  have hown : ∀ f n, Own (p.setupDaemon env).1 3 f n ↔ Own p 3 f n := by
    intro f n
    unfold Process.setupDaemon at hok ⊢
    split_ifs at hok ⊢
    cases f <;> rfl
  refine ⟨fun {n k} hn hk => ?_, fun {n f} hf => ?_, fun {n f} hn ho => ?_⟩
  · rw [file_setupDaemon hok, if_neg (by omega)]
    exact hraised.kept hn hk
  · rw [file_setupDaemon hok] at hf
    rw [hown]
    split_ifs at hf with hle
    · refine .inr ?_
      rw [← Option.some.inj hf]
      show n < 3
      omega
    · exact hraised.known hf
  · exact hraised.fresh hn ((hown f n).mp ho)

theorem Holds.setupSignalHandlers (env : Env) : Holds lo t (p.setupSignalHandlers env).1 := by
  unfold Process.setupSignalHandlers
  dsimp only
  split_ifs
  · exact h
  · exact h.syslog env
  · exact h.syslog env
  · exact (h.syslog env).syslog env

end Redirecting

theorem OnDisk.openLogFile {p : Process κ} (hd : p.logOnDisk = false) (useAesdCharDevice ok : Bool)
    (env : Env) : OnDisk useAesdCharDevice (p.openLogFile useAesdCharDevice ok env).1 := by
  unfold Process.openLogFile
  split_ifs
  · intro ho
    simp only [hd, Bool.false_or, Bool.not_eq_true'] at ho
    exact ⟨ho, by simp⟩
  · intro ho
    rw [logOnDisk_syslog] at ho
    rw [show ({ p with logFile := none } : Process κ).logOnDisk = p.logOnDisk from rfl, hd] at ho
    cases ho

/-- From here on the descriptors are left alone; a daemon redirects those below. -/
def firstKept (args : List String) : ℕ := if args = ["-d"] then 3 else 0

/-- A process that is nobody's parent: its descriptors are in hand, and the file of the log is there only
while the log is open. -/
structure Begun (useAesdCharDevice : Bool) (args : List String) (t : FdTable κ) (p : Process κ) :
    Prop where
  holds : Holds (firstKept args) t p
  disk : OnDisk useAesdCharDevice p

section Begun
variable {useAesdCharDevice : Bool} {args : List String} {t : FdTable κ} {p p' : Process κ} {env : Env}

theorem Holds.begun (h : Holds 0 t p) (hd : OnDisk useAesdCharDevice p) :
    Begun useAesdCharDevice args t p := by
  refine ⟨?_, hd⟩
  unfold firstKept
  split_ifs
  · exact h.raise (by omega)
  · exact h

theorem begun_handleRunAsDaemon (h : Holds 0 t p) (hd : OnDisk useAesdCharDevice p)
    {runAsDaemon ok : Bool} (hargs : runAsDaemon = true ↔ args = ["-d"])
    (hr : p.handleRunAsDaemon runAsDaemon env = some (p', ok)) : Begun useAesdCharDevice args t p' := by
  unfold Process.handleRunAsDaemon at hr
  split_ifs at hr with hdaemon
  · split at hr
    · cases hr
      exact (h.syslog env).begun (hd.of_eq (logOnDisk_syslog p env) (logFile_syslog p env))
    · cases hr
    · have hp : (p.setupDaemon env).1 = p' := congrArg Prod.fst (Option.some.inj hr)
      rw [← hp]
      refine ⟨?_, hd.of_eq (sameLog_setupDaemon p env).2 (sameLog_setupDaemon p env).1⟩
      rw [firstKept, if_pos (hargs.mp hdaemon)]
      exact h.setupDaemon (by omega) env
  · cases hr
    exact h.begun hd

theorem begun_startUp (hs : startUp useAesdCharDevice args env (start t) = .failed p ∨
    startUp useAesdCharDevice args env (start t) = .ready p) : Begun useAesdCharDevice args t p := by
  have h₀ := (holds_start t).handleInputParameters args env
  have hl₀ := sameLog_handleInputParameters (start t) args env
  have hs₀ : ((start t).handleInputParameters args env).1.serverSockFd = -1 := by
    unfold Process.handleInputParameters
    split <;> first | rfl | exact serverSockFd_syslog _ env
  have hclosed : ∀ {q : Process κ}, SameLog (start t) q → OnDisk useAesdCharDevice q := fun hl ho => by
    rw [hl.2] at ho
    cases ho
  unfold startUp at hs
  rcases hargs : (start t).handleInputParameters args env with ⟨p₀, _ | runAsDaemon⟩ <;>
    rw [hargs] at h₀ hl₀ hs₀ <;> simp only [hargs] at hs
  · simp only [reduceCtorEq, or_false, Startup.failed.injEq] at hs
    exact hs ▸ h₀.begun (hclosed hl₀)
  have hdaemon := (handleInputParameters_eq hargs).1
  have h₁ := h₀.setupSocket hs₀ env
  have hl₁ := hl₀.trans (sameLog_setupSocket p₀ env)
  rcases hsock : p₀.setupSocket env with ⟨p₁, _ | _⟩ <;> rw [hsock] at h₁ hl₁ <;>
    simp only [hsock] at hs
  · simp only [reduceCtorEq, or_false, Startup.failed.injEq] at hs
    exact hs ▸ h₁.begun (hclosed hl₁)
  have h₂ : Holds 0 t (if useAesdCharDevice = true then (p₁, true)
        else p₁.openLogFile useAesdCharDevice env.fopen env).1 ∧
      OnDisk useAesdCharDevice (if useAesdCharDevice = true then (p₁, true)
        else p₁.openLogFile useAesdCharDevice env.fopen env).1 := by
    split_ifs
    · exact ⟨h₁, hclosed hl₁⟩
    · exact ⟨h₁.openLogFile hl₁.1 _ _ env, .openLogFile hl₁.2 _ _ env⟩
  rcases hopen : (if useAesdCharDevice = true then (p₁, true)
    else p₁.openLogFile useAesdCharDevice env.fopen env) with ⟨p₂, _ | _⟩ <;>
    rw [hopen] at h₂ <;> simp only [hopen] at hs
  · simp only [reduceCtorEq, or_false, Startup.failed.injEq] at hs
    exact hs ▸ h₂.1.begun h₂.2
  rcases hrun : p₂.handleRunAsDaemon runAsDaemon env with _ | ⟨p₃, _ | _⟩ <;>
    simp only [hrun, reduceCtorEq, or_self] at hs
  · simp only [or_false, Startup.failed.injEq] at hs
    exact hs ▸ begun_handleRunAsDaemon h₂.1 h₂.2 hdaemon hrun
  · have h₃ := begun_handleRunAsDaemon h₂.1 h₂.2 hdaemon hrun
    have h₄ : Begun useAesdCharDevice args t (p₃.setupSignalHandlers env).1 :=
      ⟨h₃.holds.setupSignalHandlers env, h₃.disk.of_eq (sameLog_setupSignalHandlers p₃ env).2
        (sameLog_setupSignalHandlers p₃ env).1⟩
    rcases hsig : p₃.setupSignalHandlers env with ⟨p₄, _ | _⟩ <;> rw [hsig] at h₄ <;>
      simp only [hsig, reduceCtorEq, or_false, false_or, Startup.failed.injEq,
        Startup.ready.injEq] at hs
    · exact hs ▸ h₄
    · exact hs ▸ h₄

end Begun

/-- **What is left at the exit**: whatever fails and whatever the threads did, `server_sock_fd` and
`log_file` are closed, the file of the log is gone unless `unlink` failed, and the descriptors are those
inherited, the connection to the system log, and the accepted connections that no thread closed, except that
a daemon's 0 to 2 may also be `/dev/null` or closed. -/
theorem exits_clean {useAesdCharDevice success : Bool} {args : List String} {env : Env} {t : FdTable κ}
    {p : Process κ} (hm : main useAesdCharDevice args env (start t) = .exit p success) :
    Left (firstKept args) t env p := by
  unfold main at hm
  rcases hs : startUp useAesdCharDevice args env (start t) with q | q | q <;>
    simp only [hs, reduceCtorEq, Exit.exit.injEq] at hm
  · have h := begun_startUp (.inl hs)
    exact hm.1 ▸ h.holds.freeResources h.disk env
  · have h := begun_startUp (.inr hs)
    exact hm.1 ▸ (h.holds.runServer useAesdCharDevice env).freeResources (h.disk.runServer env) env

/-- Everything succeeds, there is a system log, and one of two connections is closed. -/
def smooth : Env where
  syslog n := if n = 0 then .opened else .kept
  getaddrinfo := true
  socket := true
  setsockopt := true
  bind := true
  listen := true
  fopen := true
  fork := .child
  setsid := true
  chdir := true
  openNull := true
  dup2 _ := true
  sigint := true
  sigterm := true
  timeStampingThread := true
  threadHandler := true
  clientConnections := true
  acts := [.accept, .syslog, .accept, .close 5, .signal]
  unlink := true

/-- Standard input is closed. -/
def noInput : FdTable Unit := (FdTable.empty.set 1 (some ())).set 2 (some ())

/-- The connection that nobody closes is left, and nothing else. -/
theorem exits_clean_daemon : ∃ p, main false ["-d"] smooth (start noInput) = .exit p true ∧
    p.fds.file 6 = some .accepted ∧ p.fds.file 5 = none ∧ Left 3 noInput smooth p := by
  obtain ⟨p, hp, hopen, hclosed⟩ : ∃ p, main false ["-d"] smooth (start noInput) = .exit p true ∧
      p.fds.file 6 = some .accepted ∧ p.fds.file 5 = none := ⟨_, rfl, rfl, rfl⟩
  exact ⟨p, hp, hopen, hclosed, exits_clean hp⟩

end Aesd.Server.Exit
