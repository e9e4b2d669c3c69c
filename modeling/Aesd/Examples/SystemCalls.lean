import Aesd.Lib.Descriptors

/-!
# Running commands

`do_system`, `do_exec` and `do_exec_redirect`, called one after the other in a process that may have other
children. The child of a call ends with the status of its command, or with `EXIT_FAILURE` where it does not
get to run it. The parent calls `wait`, which returns whichever child has ended, or fails because of a signal.

As many calls succeed as commands do, but for the children that are left (`successes_conserved`). A call
tells how its own command ended if no `wait` failed and there were no children at the start
(`calls_succeed`). A call that fails at `fork` leaves its output file open, and nothing else is
changed of the descriptors (`calls_descriptors`). The output of a command goes to the file unless the file
itself got the number of standard output (`redirect_output`).
-/

namespace Aesd.Examples.SystemCalls

open Aesd.Lib.Descriptors

/-- What a descriptor stands for. -/
inductive File (κ : Type*)
  | inherited (k : κ)
  | output (outputfile : String)

/-- How a process ends. -/
inductive Status
  | exited (code : UInt8)
  | signaled
  deriving DecidableEq

/-- A child that was not waited for, with the status it ends with. -/
structure Child where
  pid : ℕ
  status : Status
  deriving DecidableEq

structure Process (κ : Type*) where
  fds : FdTable (File κ)
  children : List Child

/-- The function that is called. The command is passed on to `system` or `execv`. -/
inductive Call
  | system
  | exec
  | redirect (outputfile : String)

/-- What becomes of a call: whether `open` succeeds, the `pid` of the child if `fork` does, how the command
ends if `execv` does, the child that `wait` returns if it does, and what `system` returns. -/
structure Env where
  opened : Bool
  fork : Option ℕ
  execv : Option Status
  wait : Option Child
  system : ℤ

abbrev exitFailure : Status := .exited 1

/-- `STDOUT_FILENO` -/
abbrev stdout : ℕ := 1

/-- How the child ends that calls `execv`. -/
def Env.status (env : Env) : Status := env.execv.getD exitFailure

variable {κ : Type*}

/-- `wait`, and the test of the status; `wait` does not return another process than a child. -/
def wait (p : Process κ) (env : Env) : Option (Process κ × Bool) :=
  match env.wait with
  | none => some (p, false)
  | some c =>
    if c ∈ p.children then
      some ({ p with children := p.children.erase c }, decide (c.status = .exited 0))
    else none

/-- `do_system`; `system` waits for its own child. -/
def doSystem (p : Process κ) (env : Env) : Option (Process κ × Bool) :=
  some (p, decide (env.system = 0))

/-- `do_exec` -/
def doExec (p : Process κ) (env : Env) : Option (Process κ × Bool) :=
  match env.fork with
  | none => some (p, false)
  | some pid => wait { p with children := ⟨pid, env.status⟩ :: p.children } env

/-- The `open` of `do_exec_redirect`: `fd`, and the descriptors. -/
def openOutput (t : FdTable (File κ)) (outputfile : String) (opened : Bool) : ℤ × FdTable (File κ) :=
  if opened then
    let r := t.give (.output outputfile)
    (r.1, r.2)
  else (-1, t)

/-- The descriptors of the command, if `dup2` succeeds. It fails for a descriptor that is not open; any other
failure of it ends the child as one of `execv` does. -/
def redirected (t : FdTable (File κ)) (fd : ℤ) : Option (FdTable (File κ)) :=
  (t.dup2 fd stdout).map fun t => t.close fd

/-- `do_exec_redirect` -/
def doExecRedirect (p : Process κ) (outputfile : String) (env : Env) : Option (Process κ × Bool) :=
  let r := openOutput p.fds outputfile env.opened
  match env.fork with
  | none => some ({ p with fds := r.2 }, false)
  | some pid =>
    let status := if (redirected r.2 r.1).isSome then env.status else exitFailure
    wait ⟨r.2.close r.1, ⟨pid, status⟩ :: p.children⟩ env

def call (p : Process κ) (env : Env) : Call → Option (Process κ × Bool)
  | .system => doSystem p env
  | .exec => doExec p env
  | .redirect outputfile => doExecRedirect p outputfile env

/-- Calls one after the other: the process left, and the values returned. -/
def calls : Process κ → List (Call × Env) → Option (Process κ × List Bool)
  | p, [] => some (p, [])
  | p, (c, env) :: cs => do
    let (p, r) ← call p env c
    let (p, rs) ← calls p cs
    some (p, r :: rs)

theorem calls_cons {p p' : Process κ} {ce : Call × Env} {cs : List (Call × Env)} {rs : List Bool}
    (h : calls p (ce :: cs) = some (p', rs)) :
    ∃ p₁ r rs', call p ce.2 ce.1 = some (p₁, r) ∧ calls p₁ cs = some (p', rs') ∧ rs = r :: rs' := by
  simp only [calls, Option.bind_eq_bind, Option.bind_eq_some_iff, Option.some.injEq,
    Prod.mk.injEq] at h
  obtain ⟨⟨p₁, r⟩, hcall, ⟨p₂, rs'⟩, hcalls, rfl, rfl⟩ := h
  exact ⟨p₁, r, rs', hcall, hcalls, rfl⟩

/-! ### The descriptors -/

theorem isSome_redirected (t : FdTable (File κ)) (outputfile : String) (opened : Bool) :
    (redirected (openOutput t outputfile opened).2 (openOutput t outputfile opened).1).isSome =
      opened := by
  cases opened
  · rfl
  · simp [redirected, openOutput, FdTable.dup2, FdTable.give]

/-- **Where the output goes.** The command has its standard output in the file if and only if the file did
not get the number of standard output itself, that is, unless 0 was open and 1 was not; then it has none.
Its other descriptors are those of the caller. -/
theorem redirect_output (t : FdTable (File κ)) (outputfile : String) :
    ∃ u, redirected (openOutput t outputfile true).2 (openOutput t outputfile true).1 = some u ∧
      u.file stdout = (if t.file 0 ≠ none ∧ t.file stdout = none then none
        else some (.output outputfile)) ∧
      ∀ n, n ≠ stdout → u.file n = t.file n := by
  have hdup : (t.give (.output outputfile)).2.dup2 t.lowest stdout =
      some ((t.give (.output outputfile)).2.set stdout (some (.output outputfile))) := by
    simp [FdTable.dup2, FdTable.give]
  refine ⟨((t.give (.output outputfile)).2.set stdout (some (.output outputfile))).close t.lowest, ?_,
    ?_, fun n hn => ?_⟩
  · simp only [redirected, openOutput, if_true]
    rw [show ((t.give (File.output outputfile)).1 : ℤ) = t.lowest from rfl, hdup]
    rfl
  · have hlow : 1 = t.lowest ↔ t.file 0 ≠ none ∧ t.file 1 = none := by
      refine ⟨fun he => ⟨t.lowest_spec.2 0 (by omega), he ▸ t.file_lowest⟩, fun h => ?_⟩
      obtain ⟨h0, h1⟩ := h
      have hle := FdTable.lowest_le h1
      have hne : t.lowest ≠ 0 := fun he => h0 (he ▸ t.file_lowest)
      omega
    rw [FdTable.file_close, FdTable.file_set, if_pos rfl]
    exact if_congr hlow rfl rfl
  · rw [FdTable.file_close, FdTable.file_set, if_neg hn, FdTable.give, FdTable.file_set]
    split_ifs with he
    · rw [he, FdTable.file_lowest]
    · rfl

/-- The output file that the call leaves open, if any. -/
def Call.left : Call × Env → Option String
  | (.redirect outputfile, env) => if env.opened ∧ env.fork = none then some outputfile else none
  | _ => none

theorem wait_fds {p p' : Process κ} {env : Env} {r : Bool} (h : wait p env = some (p', r)) :
    p'.fds = p.fds := by
  unfold wait at h
  split at h
  · cases h; rfl
  · split_ifs at h
    cases h; rfl

theorem file_close_openOutput (t : FdTable (File κ)) (outputfile : String) (opened : Bool) (n : ℕ) :
    ((openOutput t outputfile opened).2.close (openOutput t outputfile opened).1).file n =
      t.file n := by
  cases opened
  · rfl
  · rw [openOutput, if_pos rfl, FdTable.give, FdTable.file_close, FdTable.file_set]
    split_ifs with he
    · rw [he, FdTable.file_lowest]
    · rfl

/-- A call leaves the descriptors as they were, or its output file open. -/
theorem call_fds {p p' : Process κ} {env : Env} {c : Call} {r : Bool}
    (h : call p env c = some (p', r)) :
    (∀ n, p'.fds.file n = (match Call.left (c, env) with
      | none => p.fds
      | some o => p.fds.set p.fds.lowest (some (.output o))).file n) := by
  intro n
  rcases c with _ | _ | o
  · cases h; rfl
  · simp only [call, doExec] at h
    split at h
    · cases h; rfl
    · rw [wait_fds h]; rfl
  · simp only [call, doExecRedirect] at h
    split at h
    · rename_i hfork
      cases h
      rcases ho : env.opened <;> simp [Call.left, openOutput, FdTable.give, ho, hfork]
    · rename_i pid hfork
      have hleft : Call.left (Call.redirect o, env) = none := by simp [Call.left, hfork]
      rw [wait_fds h, hleft]
      exact file_close_openOutput _ _ _ n

/-- **The descriptors after the calls.** The output files of the calls that failed at `fork` are open,
each at a number that was free; nothing else has changed. -/
theorem calls_descriptors {p p' : Process κ} {cs : List (Call × Env)} {rs : List Bool}
    (h : calls p cs = some (p', rs)) :
    ∃ ns : List ℕ, ns.Nodup ∧ (∀ n ∈ ns, p.fds.file n = none) ∧
      List.Forall₂ (fun n o => p'.fds.file n = some (.output o)) ns (cs.filterMap Call.left) ∧
      ∀ n, n ∉ ns → p'.fds.file n = p.fds.file n := by
  induction cs generalizing p rs with
  | nil =>
    cases h
    exact ⟨[], List.nodup_nil, fun n hn => absurd hn List.not_mem_nil, .nil, fun _ _ => rfl⟩
  | cons ce cs ih =>
    obtain ⟨p₁, r, rs', hcall, hcalls, rfl⟩ := calls_cons h
    obtain ⟨ns, hnodup, hfree, hopen, hrest⟩ := ih hcalls
    have hone := call_fds hcall
    rcases hleft : Call.left ce with _ | o
    · simp only [hleft] at hone
      rw [List.filterMap_cons_none hleft]
      exact ⟨ns, hnodup, fun n hn => hone n ▸ hfree n hn, hopen,
        fun n hn => (hrest n hn).trans (hone n)⟩
    · -- the number given is in use from then on, so it is not one of the later numbers
      simp only [hleft, FdTable.file_set] at hone
      have hused : p₁.fds.file p.fds.lowest = some (.output o) := by rw [hone, if_pos rfl]
      have hnew : p.fds.lowest ∉ ns := by
        intro hmem
        rw [hfree _ hmem] at hused
        cases hused
      rw [List.filterMap_cons_some hleft]
      refine ⟨p.fds.lowest :: ns, List.nodup_cons.mpr ⟨hnew, hnodup⟩, fun n hn => ?_,
        .cons (by rw [hrest _ hnew, hused]) hopen, fun n hn => ?_⟩
      · rcases List.mem_cons.mp hn with rfl | hmem
        · exact FdTable.file_lowest _
        · have hne : n ≠ p.fds.lowest := fun he => hnew (he ▸ hmem)
          rw [← hfree n hmem, hone, if_neg hne]
      · obtain ⟨hne, hmem⟩ := List.ne_and_not_mem_of_not_mem_cons hn
        rw [hrest n hmem, hone, if_neg hne]

theorem calls_descriptors_failed :
    let p : Process Unit := ⟨.empty, []⟩
    ∃ ns : List ℕ, ns.Nodup ∧ (∀ n ∈ ns, p.fds.file n = none) ∧
      List.Forall₂ (fun n o => (p.fds.give (File.output "out")).2.file n = some (.output o)) ns ["out"] ∧
      ∀ n, n ∉ ns → (p.fds.give (.output "out")).2.file n = p.fds.file n :=
  calls_descriptors (show calls (⟨.empty, []⟩ : Process Unit)
    [(.redirect "out", ⟨true, none, none, none, 0⟩)] =
      some (⟨(FdTable.empty.give (.output "out")).2, []⟩, [false]) from rfl)

/-! ### The children -/

/-- The command of the call was run and succeeded. -/
def Call.succeeds : Call × Env → Bool
  | (.system, env) => decide (env.system = 0)
  | (.exec, env) => env.fork.isSome && decide (env.status = .exited 0)
  | (.redirect _, env) => env.fork.isSome && env.opened && decide (env.status = .exited 0)

def Child.succeeds (c : Child) : Bool := decide (c.status = .exited 0)

theorem countP_succeeds (c : Child) (cs : List Child) :
    (c :: cs).countP Child.succeeds = c.succeeds.toNat + cs.countP Child.succeeds := by
  rw [List.countP_cons, add_comm]
  cases c.succeeds <;> rfl

theorem wait_succeeds {p p' : Process κ} {env : Env} {r : Bool} (h : wait p env = some (p', r)) :
    r.toNat + p'.children.countP Child.succeeds = p.children.countP Child.succeeds := by
  unfold wait at h
  split at h
  · cases h
    exact Nat.zero_add _
  · rename_i c _
    split_ifs at h with hmem
    cases h
    have hperm := (List.perm_cons_erase hmem).countP_eq Child.succeeds
    rw [hperm, countP_succeeds, Child.succeeds]

theorem call_succeeds {p p' : Process κ} {env : Env} {c : Call} {r : Bool}
    (h : call p env c = some (p', r)) :
    r.toNat + p'.children.countP Child.succeeds =
      (Call.succeeds (c, env)).toNat + p.children.countP Child.succeeds := by
  rcases c with _ | _ | o
  · cases h
    rfl
  · simp only [call, doExec] at h
    split at h
    · rename_i hfork
      cases h
      simp [Call.succeeds, hfork]
    · rename_i hfork
      rw [wait_succeeds h, countP_succeeds]
      simp [Call.succeeds, Child.succeeds, hfork]
  · simp only [call, doExecRedirect] at h
    split at h
    · rename_i hfork
      cases h
      simp [Call.succeeds, hfork]
    · rename_i hfork
      rw [wait_succeeds h, countP_succeeds, isSome_redirected]
      rcases ho : env.opened <;> simp [Call.succeeds, Child.succeeds, hfork, ho]

/-- **No success is lost, and none is counted twice.** The calls that return `true` and the children that
succeed and are left are as many as the commands that succeed and the children there were that do. -/
theorem successes_conserved {p p' : Process κ} {cs : List (Call × Env)} {rs : List Bool}
    (h : calls p cs = some (p', rs)) :
    rs.count true + p'.children.countP Child.succeeds =
      cs.countP Call.succeeds + p.children.countP Child.succeeds := by
  induction cs generalizing p rs with
  | nil => cases h; simp
  | cons ce cs ih =>
    obtain ⟨p₁, r, rs', hcall, hcalls, rfl⟩ := calls_cons h
    have hone : _ = (Call.succeeds ce).toNat + _ := call_succeeds hcall
    have hrest := ih hcalls
    have hr : (r :: rs').count true = r.toNat + rs'.count true := by
      cases r <;> simp [add_comm]
    have hs : (ce :: cs).countP Call.succeeds = (Call.succeeds ce).toNat + cs.countP Call.succeeds := by
      cases h : Call.succeeds ce <;> simp [h, add_comm]
    rw [hr, hs]
    omega

/-- The second call waits for the child of the first, whose `wait` failed, and leaves its own. -/
theorem successes_conserved_late :
    [false, true].count true + [Child.mk 8 (.exited 1)].countP Child.succeeds = 1 + 0 :=
  successes_conserved (show calls (⟨.empty, []⟩ : Process Unit)
    [(.exec, ⟨false, some 7, some (.exited 0), none, 0⟩),
      (.exec, ⟨false, some 8, none, some ⟨7, .exited 0⟩, 0⟩)] =
      some (⟨.empty, [⟨8, .exited 1⟩]⟩, [false, true]) from rfl)

theorem wait_own {fds : FdTable (File κ)} {cs : List Child} {c : Child} {p' : Process κ} {env : Env}
    {r : Bool} (h : wait ⟨fds, c :: cs⟩ env = some (p', r)) (hc : cs = []) (hw : env.wait ≠ none) :
    r = decide (c.status = .exited 0) ∧ p'.children = [] := by
  subst hc
  unfold wait at h
  split at h
  · contradiction
  · split_ifs at h with hmem
    cases List.mem_singleton.mp hmem
    cases h
    simp

/-- A call in a process without children whose `wait` does not fail waits for its own child. -/
theorem call_own {p p' : Process κ} {env : Env} {c : Call} {r : Bool}
    (h : call p env c = some (p', r)) (hc : p.children = []) (hw : env.wait ≠ none) :
    r = Call.succeeds (c, env) ∧ p'.children = [] := by
  rcases c with _ | _ | o
  · cases h
    exact ⟨rfl, hc⟩
  · simp only [call, doExec] at h
    split at h
    · rename_i hfork
      cases h
      simp [Call.succeeds, hfork, hc]
    · rename_i hfork
      simp [Call.succeeds, hfork, wait_own h hc hw]
  · simp only [call, doExecRedirect] at h
    split at h
    · rename_i hfork
      cases h
      simp [Call.succeeds, hfork, hc]
    · rename_i hfork
      rw [isSome_redirected] at h
      rcases ho : env.opened <;> simp [Call.succeeds, hfork, ho, wait_own h hc hw]

/-- **Each call tells how its own command ended**, in a process without other children, as long as no
`wait` fails. -/
theorem calls_succeed {p p' : Process κ} {cs : List (Call × Env)} {rs : List Bool}
    (h : calls p cs = some (p', rs)) (hc : p.children = []) (hw : ∀ ce ∈ cs, ce.2.wait ≠ none) :
    rs = cs.map Call.succeeds ∧ p'.children = [] := by
  induction cs generalizing p rs with
  | nil =>
    cases h
    exact ⟨rfl, hc⟩
  | cons ce cs ih =>
    obtain ⟨p₁, r, rs', hcall, hcalls, rfl⟩ := calls_cons h
    obtain ⟨rfl, hc₁⟩ := call_own hcall hc (hw ce List.mem_cons_self)
    obtain ⟨rfl, hc'⟩ := ih hcalls hc₁ fun ce hce => hw ce (List.mem_cons_of_mem _ hce)
    exact ⟨rfl, hc'⟩

theorem calls_succeed_two :
    [true, false] = [(Call.exec, ⟨false, some 7, some (.exited 0), some ⟨7, .exited 0⟩, 0⟩),
      (.exec, ⟨false, some 8, none, some ⟨8, .exited 1⟩, 0⟩)].map Call.succeeds ∧
      ([] : List Child) = [] :=
  calls_succeed (show calls (⟨.empty, []⟩ : Process Unit) _ = some (⟨.empty, []⟩, _) from rfl) rfl
    (by decide)

end Aesd.Examples.SystemCalls
