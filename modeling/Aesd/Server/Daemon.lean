import Aesd.Server.Exit

/-!
# The socket of a daemon

The redirection of `setup_daemon` takes the numbers 0 to 2 from whatever they stand for. If the process was
started with some of them closed, that may be the listening socket and the log (`daemon_keeps_iff`): the
daemon then runs without a socket to accept on. The first of the closed numbers goes to the connection to the
system log, if there is one to connect to.
-/

namespace Aesd.Server.Daemon

open Aesd.Lib.Descriptors Aesd.Server.Main Aesd.Server.Exit

variable {κ : Type*}

theorem startUp_ready {useAesdCharDevice : Bool} {args : List String} {env : Env} {p p' : Process κ}
    (hs : startUp useAesdCharDevice args env p = .ready p') :
    ∃ p₀ p₁ p₂ runAsDaemon, p.handleInputParameters args env = (p₀, some runAsDaemon) ∧
      p₀.setupSocket env = (p₁, true) ∧
      (if useAesdCharDevice = true then (p₁, true)
        else p₁.openLogFile useAesdCharDevice env.fopen env) = (p₂, true) ∧
      p₂.handleRunAsDaemon runAsDaemon env = some (p', true) := by
  unfold startUp at hs
  rcases hargs : p.handleInputParameters args env with ⟨p₀, _ | runAsDaemon⟩ <;>
    simp only [hargs, reduceCtorEq] at hs
  rcases hsock : p₀.setupSocket env with ⟨p₁, _ | _⟩ <;> simp only [hsock, reduceCtorEq] at hs
  rcases hopen : (if useAesdCharDevice = true then (p₁, true)
    else p₁.openLogFile useAesdCharDevice env.fopen env) with ⟨p₂, _ | _⟩ <;>
    simp only [hopen, reduceCtorEq] at hs
  rcases hrun : p₂.handleRunAsDaemon runAsDaemon env with _ | ⟨p₃, _ | _⟩ <;>
    simp only [hrun, reduceCtorEq] at hs
  rcases hsig : p₃.setupSignalHandlers env with ⟨p₄, _ | _⟩ <;> simp only [hsig, reduceCtorEq] at hs
  have hboth : (env.sigint && env.sigterm) = true := congrArg Prod.snd hsig
  have hp : p₄ = p₃ := by
    have hfst : (p₃.setupSignalHandlers env).1 = p₄ := congrArg Prod.fst hsig
    rw [Bool.and_eq_true] at hboth
    simpa [Process.setupSignalHandlers, hboth] using hfst.symm
  refine ⟨p₀, p₁, p₂, runAsDaemon, rfl, hsock, hopen, ?_⟩
  rw [hrun, ← hp, Startup.ready.inj hs]

theorem setupSocket_ok {env : Env} {p q : Process κ} (h : p.setupSocket env = (q, true)) :
    q = { p with fds := (p.fds.give .listening).2, serverSockFd := p.fds.lowest } := by
  unfold Process.setupSocket at h
  by_cases hg : env.getaddrinfo = true
  swap
  · rw [if_neg hg] at h
    cases h
  rw [if_pos hg] at h
  rcases hcreated : p.createServerSocket env with ⟨r, _ | _⟩ <;> simp only [hcreated] at h
  · cases h
  · have hr : r = { p with fds := (p.fds.give .listening).2, serverSockFd := p.fds.lowest } := by
      unfold Process.createServerSocket at hcreated
      split_ifs at hcreated <;> cases hcreated
      rfl
    split_ifs at h <;> cases h
    exact hr

theorem openLogFile_ok {useAesdCharDevice ok : Bool} {env : Env} {p q : Process κ}
    (h : p.openLogFile useAesdCharDevice ok env = (q, true)) :
    q.fds = (p.fds.give .log).2 ∧ q.serverSockFd = p.serverSockFd ∧ q.logFile = some p.fds.lowest := by
  unfold Process.openLogFile at h
  split_ifs at h
  · cases h
    exact ⟨rfl, rfl, rfl⟩
  · cases h

theorem handleRunAsDaemon_ok {env : Env} {p p' : Process κ} {runAsDaemon : Bool}
    (h : p.handleRunAsDaemon runAsDaemon env = some (p', true)) :
    p'.serverSockFd = p.serverSockFd ∧ p'.logFile = p.logFile ∧ ∀ n,
      p'.fds.file n = if runAsDaemon = true ∧ n ≤ 2 ∧ (env.dup2 n = true ∨ n = p.fds.lowest)
        then some .devNull else p.fds.file n := by
  unfold Process.handleRunAsDaemon at h
  split_ifs at h with hd
  · split at h
    · cases h
    · cases h
    · have he := Option.some.inj h
      have hfile := file_setupDaemon (congrArg Prod.snd he)
      have hlog := (sameLog_setupDaemon p env).1
      have hsock : (p.setupDaemon env).1.serverSockFd = p.serverSockFd := by
        unfold Process.setupDaemon
        split_ifs
        · rfl
        · exact serverSockFd_syslog p env
      rw [he] at hfile hlog hsock
      refine ⟨hsock, hlog, fun n => ?_⟩
      simp only [hd, true_and]
      exact hfile n
  · cases h
    exact ⟨rfl, rfl, fun n => by rw [if_neg fun hn => hd hn.1]⟩

/-- How many numbers are taken before the socket is opened: with `-d` a message is logged. -/
def taken (args : List String) (env : Env) : ℕ := if args = ["-d"] ∧ env.syslog 0 = .opened then 1 else 0

/-- The free number `Nat.nth t.Free k` of a process that inherited `t` is not redirected. -/
def Keeps (args : List String) (env : Env) (t : FdTable κ) (k : ℕ) : Prop :=
  args = ["-d"] → Nat.count t.Free 3 ≤ k ∨ env.dup2 (Nat.nth t.Free k) = false

theorem nth_free_handleInputParameters {args : List String} {env : Env} {t : FdTable κ} {p : Process κ}
    {runAsDaemon : Bool} (h : (start t).handleInputParameters args env = (p, some runAsDaemon)) (k : ℕ) :
    Nat.nth p.fds.Free k = Nat.nth t.Free (k + taken args env) := by
  have hstart : Nat.nth (start t).fds.Free k = Nat.nth t.Free k := by
    rw [start, FdTable.free_map]
  rw [(handleInputParameters_eq h).2]
  unfold taken
  by_cases hd : args = ["-d"]
  · rw [if_pos hd]
    rcases hlog : env.syslog 0
    · have hfds : ((start t).syslog env).fds = (start t).fds := by
        simp [Process.syslog, start, hlog]
      simpa [hlog, hfds] using hstart
    · have hfds : ((start t).syslog env).fds = (start t).fds := by
        simp [Process.syslog, Process.closelog, start, hlog]
      simpa [hlog, hfds] using hstart
    · have hfds : ((start t).syslog env).fds = ((start t).fds.give .devLog).2 := by
        simp [Process.syslog, Process.closelog, start, hlog]
      rw [hfds, FdTable.nth_free_give, if_pos ⟨hd, rfl⟩, start, FdTable.free_map]
  · rw [if_neg hd, if_neg fun h => hd h.1]
    exact hstart

/-- A number in use is not the one `/dev/null` gets. -/
theorem file_handleRunAsDaemon_iff {args : List String} {env : Env} {t : FdTable κ} {p p' : Process κ}
    {runAsDaemon : Bool} (hdaemon : runAsDaemon = true ↔ args = ["-d"])
    (hrun : p.handleRunAsDaemon runAsDaemon env = some (p', true)) {k : ℕ} {f : File κ}
    (hf : p.fds.file (Nat.nth t.Free k) = some f) (hne : f ≠ .devNull) :
    p'.fds.file (Nat.nth t.Free k) = some f ↔ Keeps args env t k := by
  obtain ⟨-, -, hfile⟩ := handleRunAsDaemon_ok hrun
  have hused : Nat.nth t.Free k ≠ p.fds.lowest := by
    intro he
    rw [he, FdTable.file_lowest] at hf
    cases hf
  have hlow : Nat.nth t.Free k ≤ 2 ↔ ¬ Nat.count t.Free 3 ≤ k := by
    rw [not_le, Nat.lt_nth_iff_count_lt t.infinite_free]
    omega
  rw [hfile, hf, Keeps, ← hdaemon]
  simp only [hused, or_false, hlow]
  split_ifs with hr
  · refine ⟨fun he => absurd (Option.some.inj he).symm hne, fun h => ?_⟩
    rcases h hr.1 with hcount | hdup
    · exact absurd hcount hr.2.1
    · rw [hdup] at hr
      cases hr.2.2
  · refine ⟨fun _ hd => ?_, fun _ => rfl⟩
    by_contra hno
    rw [not_or, Bool.not_eq_false] at hno
    exact hr ⟨hd, hno⟩

/-- The socket gets the first number that is left, and the log the next one. -/
theorem opened_numbers {useAesdCharDevice : Bool} {env : Env} {t : FdTable κ} {p p₁ p₂ : Process κ} {k : ℕ}
    (hnth : ∀ i, Nat.nth p.fds.Free i = Nat.nth t.Free (i + k)) (hl : p.logFile = none)
    (hsock : p.setupSocket env = (p₁, true))
    (hopen : (if useAesdCharDevice = true then (p₁, true)
      else p₁.openLogFile useAesdCharDevice env.fopen env) = (p₂, true)) :
    (p₂.serverSockFd = Nat.nth t.Free k ∧ p₂.fds.file (Nat.nth t.Free k) = some .listening) ∧
      p₂.logFile = (if useAesdCharDevice = true then none else some (Nat.nth t.Free (k + 1))) ∧
      (useAesdCharDevice = false → p₂.fds.file (Nat.nth t.Free (k + 1)) = some .log) := by
  have hp₁ := setupSocket_ok hsock
  have hfirst : p.fds.lowest = Nat.nth t.Free k := by
    rw [FdTable.lowest_eq_nth, hnth, Nat.zero_add]
  have hsecond : p₁.fds.lowest = Nat.nth t.Free (k + 1) := by
    rw [hp₁, FdTable.lowest_eq_nth, FdTable.nth_free_give, hnth, Nat.add_comm]
  have hlisten : p₁.serverSockFd = Nat.nth t.Free k ∧
      p₁.fds.file (Nat.nth t.Free k) = some .listening := by
    rw [hp₁, ← hfirst]
    exact ⟨rfl, by simp [FdTable.give]⟩
  by_cases hu : useAesdCharDevice = true
  · rw [if_pos hu] at hopen ⊢
    rw [← (Prod.mk.inj hopen).1]
    refine ⟨hlisten, by rw [hp₁]; exact hl, fun hno => ?_⟩
    rw [hu] at hno
    cases hno
  · rw [if_neg hu] at hopen ⊢
    obtain ⟨hfds, hfd, hlog⟩ := openLogFile_ok hopen
    have hne : Nat.nth t.Free k ≠ p₁.fds.lowest := by
      intro he
      have hf := hlisten.2
      rw [he, FdTable.file_lowest] at hf
      cases hf
    rw [hfds, hfd, hlog, ← hsecond]
    simp [FdTable.give, hne, hlisten]

/-- **When a daemon keeps its socket.** Where `run_server` begins `server_sock_fd` is the lowest number that
was free, behind the connection to the system log if there is one, and the log has the next one. Such a
number stands for what was opened if and only if the process is no daemon, the number is above 2, or its
redirection failed. -/
theorem daemon_keeps_iff {useAesdCharDevice : Bool} {args : List String} {env : Env} {t : FdTable κ}
    {p : Process κ} (hs : startUp useAesdCharDevice args env (start t) = .ready p) :
    p.serverSockFd = Nat.nth t.Free (taken args env) ∧
      (p.fds.fileAt p.serverSockFd = some .listening ↔ Keeps args env t (taken args env)) ∧
    p.logFile = (if useAesdCharDevice = true then none else some (Nat.nth t.Free (taken args env + 1))) ∧
      ∀ l, p.logFile = some l → (p.fds.file l = some .log ↔ Keeps args env t (taken args env + 1)) := by
  obtain ⟨p₀, p₁, p₂, runAsDaemon, hargs, hsock, hopen, hrun⟩ := startUp_ready hs
  have hdaemon := (handleInputParameters_eq hargs).1
  have hl₀ : p₀.logFile = none := by
    have hsame := sameLog_handleInputParameters (start t) args env
    rw [hargs] at hsame
    exact hsame.1
  obtain ⟨⟨hfd₂, hlisten⟩, hlog₂, hwritten⟩ :=
    opened_numbers (nth_free_handleInputParameters hargs) hl₀ hsock hopen
  obtain ⟨hfd, hlog, -⟩ := handleRunAsDaemon_ok hrun
  rw [hlog, hlog₂, hfd, hfd₂]
  refine ⟨rfl, file_handleRunAsDaemon_iff hdaemon hrun hlisten (by simp), rfl, fun l hl => ?_⟩
  split_ifs at hl with hu
  cases hl
  exact file_handleRunAsDaemon_iff hdaemon hrun (hwritten (by simpa using hu)) (by simp)

/-- A daemon started without standard input begins to serve with the socket 3 if the connection to the
system log took the number 0, and otherwise with `/dev/null` for its socket. -/
theorem daemon_keeps_iff_closed :
    (∃ p, startUp true ["-d"] smooth (start noInput) = .ready p ∧ p.serverSockFd = 3 ∧
      p.fds.fileAt p.serverSockFd = some .listening) ∧
    ∃ p, startUp true ["-d"] { smooth with syslog := fun _ => .kept } (start noInput) = .ready p ∧
      p.serverSockFd = 0 ∧ p.fds.fileAt p.serverSockFd ≠ some .listening := by
  have hfree : noInput.Free 0 ∧ noInput.Free 3 := ⟨rfl, rfl⟩
  have hfirst : Nat.nth noInput.Free 0 = 0 := Nat.nth_count hfree.1
  have hsecond : Nat.nth noInput.Free 1 = 3 := Nat.nth_count hfree.2
  refine ⟨?_, ?_⟩
  · obtain ⟨p, hp⟩ : ∃ p, startUp true ["-d"] smooth (start noInput) = .ready p := ⟨_, rfl⟩
    obtain ⟨hfd, hkeeps, -⟩ := daemon_keeps_iff hp
    refine ⟨p, hp, ?_, hkeeps.mpr fun _ => .inl (by decide)⟩
    rw [hfd]
    exact congrArg Nat.cast hsecond
  · obtain ⟨p, hp⟩ : ∃ p, startUp true ["-d"] { smooth with syslog := fun _ => .kept }
      (start noInput) = .ready p := ⟨_, rfl⟩
    obtain ⟨hfd, hkeeps, -⟩ := daemon_keeps_iff hp
    refine ⟨p, hp, ?_, fun hf => ?_⟩
    · rw [hfd]
      exact congrArg Nat.cast hfirst
    · rcases hkeeps.mp hf rfl with hcount | hdup
      · exact absurd hcount (by decide)
      · cases hdup

end Aesd.Server.Daemon
