import Aesd.Threads.InMemory

/-!
# A pass over the list

`join_completed_client_threads` under the mutex, while the other threads go on. What is still to be joined,
removed and freed is known from where the handler is (`dueJoins`, `dueRemoves`, `dueFrees`), and so is what
the pass will leave behind; no step of any thread changes that (`outcome_step`). So a pass comes to the
same as the function run by itself on the list it found.
-/

namespace Aesd.Threads.Pass

open Aesd.Lib.Lts Aesd.Lib.SList
open Aesd.Threads.Model Aesd.Threads.Steps Aesd.Threads.Exclusion Aesd.Threads.Nodes
open Aesd.Threads.Accounting Aesd.Threads.Bookkeeping Aesd.Threads.Queue Aesd.Threads.InMemory

/-- `n` has `thread_completed` set. -/
def completed (b : Books) (n : ℕ) : Bool := (b.node n).any fun nd => nd.threadCompleted

/-- The nodes `pthread_join` is yet to be called for. -/
def dueJoins (b : Books) : HandlerPc → List ℕ
  | .visit _ rest | .remove _ _ rest | .free _ _ rest => rest.filter (completed b)
  | .join _ n rest => n :: rest.filter (completed b)
  | _ => []

/-- The nodes `SLIST_REMOVE` is yet to be called for. -/
def dueRemoves (b : Books) : HandlerPc → List ℕ
  | .visit _ rest | .free _ _ rest => rest.filter (completed b)
  | .join _ n rest | .remove _ n rest => n :: rest.filter (completed b)
  | _ => []

/-- The nodes `free` is yet to be called for. -/
def dueFrees (b : Books) : HandlerPc → List ℕ
  | .visit _ rest => rest.filter (completed b)
  | .join _ n rest | .remove _ n rest | .free _ n rest => n :: rest.filter (completed b)
  | _ => []

/-- What a pass changes. -/
structure Outcome where
  list : List ℕ
  node : ℕ → Option ThreadNode
  joins : ℕ → ℕ
  frees : ℕ → ℕ

/-- The books after these nodes are joined, removed and freed. -/
def Outcome.after (b : Books) (joins removes frees : List ℕ) : Outcome where
  list := b.list.filter fun n => !removes.contains n
  node := fun n => if n ∈ frees then none else b.node n
  joins := fun n => b.joins n + joins.count n
  frees := fun n => b.frees n + frees.count n

/-- What the pass will leave behind. -/
def outcome (s : State) : Outcome :=
  .after s.books (dueJoins s.books s.handler) (dueRemoves s.books s.handler)
    (dueFrees s.books s.handler)

/-- The handler is in `join_completed_client_threads`. -/
def InPass (forced : Bool) : HandlerPc → Prop
  | .visit f _ | .join f _ _ | .remove f _ _ | .free f _ _ => f = forced
  | _ => False

variable {s s' s₀ : State} {act : Act} {n : ℕ} {forced : Bool} {b b' : Books} {rest : List ℕ}

theorem completed_iff : completed b n = true ↔ b.Completed n := Option.any_eq_true _ _

/-! ### The other threads -/

theorem inside_of_inPass {pc : HandlerPc} (h : InPass forced pc) : pc.inside = true := by
  cases pc <;> first | rfl | cases h

/-- What a thread leaves as it is while another holds the mutex. -/
structure Quiet (s s' : State) : Prop where
  list : s'.books.list = s.books.list
  node : s'.books.node = s.books.node
  joins : s'.books.joins = s.books.joins
  frees : s'.books.frees = s.books.frees
  handler : s'.handler = s.handler

theorem quiet_main (hi : Inv s) (hh : s.handler.inside = true) (h : MainStep s act s') : Quiet s s' := by
  have hout := hi.kept.locked.main_of_handler hh
  cases h with
  | testOn | testOff | acceptFailed | accepted | lock | close | stop | wakeLock | join =>
    exact ⟨rfl, rfl, rfl, rfl, rfl⟩
  | add hp | addFailed hp | spawn hp | spawnFailed hp | undo hp | release hp | setId hp | unlock hp
  | unlockFailed hp | broadcast hp | wakeUnlock hp =>
    rw [hp] at hout
    cases hout

theorem quiet_client (hi : Inv s) (hh : s.handler.inside = true) (h : ClientStep s n s') :
    Quiet s s' := by
  have hout : ∀ {pc : ClientPc}, s.books.client n = some pc → pc.inside = true → Quiet s s' :=
    fun hc hpc => by
      rw [hi.kept.locked.handler_of_client hc hpc] at hh
      cases hh
  cases h with
  | start | run | lock | exiting => exact ⟨rfl, rfl, rfl, rfl, rfl⟩
  | closeNone hc | closeSome hc | complete hc | signal hc | unlock hc => exact hout hc rfl

theorem Quiet.outcome (h : Quiet s s') : outcome s' = outcome s := by
  have hcompleted : completed s'.books = completed s.books := by
    funext n
    rw [completed, completed, h.node]
  have hdue : dueJoins s'.books = dueJoins s.books ∧ dueRemoves s'.books = dueRemoves s.books ∧
      dueFrees s'.books = dueFrees s.books := by
    refine ⟨?_, ?_, ?_⟩ <;> funext pc <;> cases pc <;>
      simp only [dueJoins, dueRemoves, dueFrees, hcompleted]
  simp only [Pass.outcome, Outcome.after, h.list, h.node, h.joins, h.frees, h.handler, hdue]

/-! ### The handler -/

section After

variable {js rs fs : List ℕ}

theorem after_join (b : Books) (n id : ℕ) : Outcome.after (b.join n id) js rs fs =
    .after b (n :: js) rs fs := by
  have hjoins : ∀ k, (b.join n id).joins k + js.count k = b.joins k + (n :: js).count k := by
    intro k
    by_cases hk : k = n
    · simp [Books.join, hk]
      omega
    · simp [Books.join, hk, List.count_cons_of_ne (Ne.symm hk)]
  simp only [Outcome.after, hjoins]
  rfl

theorem after_remove (hnd : b.list.Nodup) (n : ℕ) :
    Outcome.after { b with list := b.list.erase n } js rs fs = .after b js (n :: rs) fs := by
  have hlist : ((b.list.erase n).filter fun k => !rs.contains k) =
      b.list.filter fun k => !(n :: rs).contains k := by
    rw [hnd.erase_eq_filter, List.filter_filter]
    refine List.filter_congr fun k _ => ?_
    by_cases hk : k = n <;> simp [hk]
  simp only [Outcome.after, hlist]

theorem after_free (b : Books) (n : ℕ) : Outcome.after (b.free n) js rs fs =
    .after b js rs (n :: fs) := by
  have hnode : ∀ k, (if k ∈ fs then none else (b.free n).node k) =
      if k ∈ n :: fs then none else b.node k := by
    intro k
    by_cases hk : k = n <;> simp [Books.free, hk]
  have hfrees : ∀ k, (b.free n).frees k + fs.count k = b.frees k + (n :: fs).count k := by
    intro k
    by_cases hk : k = n
    · simp [Books.free, hk]
      omega
    · simp [Books.free, hk, List.count_cons_of_ne (Ne.symm hk)]
  simp only [Outcome.after, hnode, hfrees]
  rfl

end After

theorem filter_completed_of_neg (h : ¬ s.books.Completed n) :
    (n :: rest).filter (completed s.books) = rest.filter (completed s.books) :=
  List.filter_cons_of_neg (mt completed_iff.mp h)

theorem filter_completed_of_pos (h : s.books.Completed n) :
    (n :: rest).filter (completed s.books) = n :: rest.filter (completed s.books) :=
  List.filter_cons_of_pos (completed_iff.mpr h)

theorem filter_completed_free (h : n ∉ rest) :
    rest.filter (completed (b.free n)) = rest.filter (completed b) := by
  refine List.filter_congr fun k hk => ?_
  simp [completed, Books.free, ne_of_mem_of_not_mem hk h]

/-- At the end of a pass nothing is due. -/
theorem outcome_back (h : s.handler = .back forced) : outcome s = .after s.books [] [] [] := by
  rw [outcome, h]
  cases forced <;> rfl

/-- **A step of the handler in a pass.** -/
theorem outcome_handler (hi : Inv s) (hp : InPass forced s.handler) (h : HandlerStep s s') :
    outcome s' = outcome s ∧ (InPass forced s'.handler ∨ s'.handler = .back forced) := by
  cases h with
  | @visitEnd f hpc =>
    rw [hpc] at hp
    obtain rfl : f = forced := hp
    refine ⟨(outcome_back rfl).trans ?_, .inr rfl⟩
    simp only [outcome, hpc, dueJoins, dueRemoves, dueFrees, List.filter_nil]
  | @visitCompleted f n rest hpc hc =>
    refine ⟨?_, .inl (by rwa [hpc] at hp)⟩
    simp only [outcome, hpc, dueJoins, dueRemoves, dueFrees, filter_completed_of_pos hc]
  | @visitNext f n rest hpc hc =>
    refine ⟨?_, .inl (by rwa [hpc] at hp)⟩
    simp only [outcome, hpc, dueJoins, dueRemoves, dueFrees, filter_completed_of_neg hc]
  | @join f n rest nd hpc hn hc =>
    refine ⟨?_, .inl (by rwa [hpc] at hp)⟩
    rw [outcome, outcome, hpc]
    exact after_join s.books n nd.threadId
  | @remove f n rest hpc =>
    refine ⟨?_, .inl (by rwa [hpc] at hp)⟩
    rw [outcome, outcome, hpc]
    exact after_remove hi.kept.accounts.nodup n
  | @free f n rest hpc =>
    have ha := hi.kept.handler_account (n := n) (by rw [hpc]; rfl)
    have hrest := hi.kept.rest
    rw [hpc] at hrest
    have hout : n ∉ rest := fun hn => ha.1 (hrest.subset hn)
    have hdue := filter_completed_free (b := s.books) hout
    refine ⟨?_, .inl (by rwa [hpc] at hp)⟩
    simp only [outcome, hpc, dueJoins, dueRemoves, dueFrees]
    rw [hdue]
    exact after_free s.books n
  | lock hpc | outerOn hpc | outerOff hpc | innerOn hpc | innerOff hpc | scanFound hpc | scanNone hpc
  | sleep hpc | wake hpc | testOn hpc | testOff hpc | unlock hpc | forceLock hpc | closeEnd hpc
  | closeNone hpc | closeSome hpc | forcedOuterEnd hpc | forcedOuter hpc | forcedInnerEnd hpc
  | forcedInner hpc | forcedScanFound hpc | forcedScanNone hpc | forceUnlock hpc =>
    rw [hpc] at hp
    cases hp

/-- **No step in a pass changes what it comes to**, whoever takes it. -/
theorem outcome_step (hi : Inv s) (hp : InPass forced s.handler) (h : Step s act s') :
    outcome s' = outcome s ∧ (InPass forced s'.handler ∨ s'.handler = .back forced) := by
  have hh := inside_of_inPass hp
  have hquiet : Quiet s s' → outcome s' = outcome s ∧
      (InPass forced s'.handler ∨ s'.handler = .back forced) :=
    fun hq => ⟨hq.outcome, .inl (hq.handler ▸ hp)⟩
  cases h with
  | signal => exact hquiet ⟨rfl, rfl, rfl, rfl, rfl⟩
  | spurious hpc =>
    rw [hpc] at hp
    cases hp
  | main h => exact hquiet (quiet_main hi hh h)
  | client h => exact hquiet (quiet_client hi hh h)
  | handler h => exact outcome_handler hi hp h

/-! ### A pass -/

/-- What a pass does to the books. -/
structure Swept (b b' : Books) : Prop where
  list : b'.list = b.list.filter fun n => !completed b n
  node : ∀ n, b'.node n = if n ∈ b.list ∧ completed b n = true then none else b.node n
  joins : ∀ n, b'.joins n = b.joins n + if n ∈ b.list ∧ completed b n = true then 1 else 0
  frees : ∀ n, b'.frees n = b.frees n + if n ∈ b.list ∧ completed b n = true then 1 else 0

theorem swept_of_after (hnd : b.list.Nodup) {due : List ℕ} (hdue : due = b.list.filter (completed b))
    (h : Outcome.after b' [] [] [] = .after b due due due) : Swept b b' := by
  have hmem : ∀ n, n ∈ due ↔ n ∈ b.list ∧ completed b n = true := fun n => by
    rw [hdue, List.mem_filter]
  have hcount : ∀ n, due.count n = if n ∈ b.list ∧ completed b n = true then 1 else 0 := fun n => by
    have hcount := (hdue ▸ hnd.filter (completed b) : due.Nodup).count (a := n)
    simpa only [hmem] using hcount
  have hlist : b'.list = b.list.filter fun n => !due.contains n := by
    simpa [Outcome.after] using congrArg Outcome.list h
  refine ⟨hlist.trans (List.filter_congr fun n hn => ?_), fun n => ?_, fun n => ?_, fun n => ?_⟩
  · have hcontains : due.contains n = completed b n := by
      rw [Bool.eq_iff_iff, List.contains_iff_mem, hmem]
      exact and_iff_right hn
    rw [hcontains]
  · simpa [Outcome.after, hmem] using congrFun (congrArg Outcome.node h) n
  · simpa [Outcome.after, hcount] using congrFun (congrArg Outcome.joins h) n
  · simpa [Outcome.after, hcount] using congrFun (congrArg Outcome.frees h) n

/-- The function run by itself does the same to the memory. -/
theorem swept_in_memory {m : Memory} (hm : Represents m b) (h : Swept b b') :
    ∃ m', m.joinCompletedClientThreads b.list.length b.list.length m.slhFirst = some (m',
        (b.list.filter (completed b)).filterMap fun n => (b.node n).map fun nd => nd.threadId) ∧
      Represents m' b' := by
  have hcompleted : m.completed = completed b := funext hm.completed
  obtain ⟨m', hm', hseg, hval⟩ := joinCompleted_ok b.list.length [] hm.list hm.list le_rfl le_rfl
  rw [hcompleted] at hm' hseg hval
  refine ⟨m', ?_, ?_, fun n => ?_⟩
  · rw [hm']
    have hids : (fun n => (m.cell n).map fun c => c.val.threadId) =
        fun n => (b.node n).map fun nd => nd.threadId := by
      funext n
      rw [← hm.node n, Option.map_map]
      rfl
    rw [hids]
  · rw [h.list]
    exact hseg
  · rw [hval, hm.node, h.node]

theorem outcome_run {bs : List Act} (hi : Inv s₀) (hp : InPass forced s₀.handler)
    (hm : Meets step (fun s _ => s.handler ≠ .back forced) s₀ bs) (hr : run step s₀ bs = some s) :
    outcome s = outcome s₀ := by
  refine (Meets.invariant (P := fun s => Inv s ∧ outcome s = outcome s₀ ∧
    (InPass forced s.handler ∨ s.handler = .back forced)) ?_ ⟨hi, rfl, .inl hp⟩ hm hr).2.1
  rintro s act s' ⟨hi, he, hp⟩ hne hs
  have hstep := outcome_step hi (hp.resolve_right hne) (.of_step hi.safe hs)
  exact ⟨hi.step hs, hstep.1.trans he, hstep.2⟩

/-- **A pass is as if it were done at once.** From where `join_completed_client_threads` begins to where it
returns, in whatever order the threads take their steps, exactly the threads that had completed at the
beginning are joined, once each, and their nodes removed and freed; and the memory becomes what the
function makes of it when nothing comes between. -/
theorem pass_sweeps (as : List Act) (hr : run step init as = some s₀)
    (hp : s₀.handler = .visit forced s₀.books.list) (bs : List Act)
    (hm : Meets step (fun s _ => s.handler ≠ .back forced) s₀ bs) (hrun : run step s₀ bs = some s)
    (hend : s.handler = .back forced) :
    Swept s₀.books s.books ∧ ∀ m, Represents m s₀.books →
      ∃ m', m.joinCompletedClientThreads s₀.books.list.length s₀.books.list.length m.slhFirst =
          some (m', (s₀.books.list.filter (completed s₀.books)).filterMap fun n =>
            (s₀.books.node n).map fun nd => nd.threadId) ∧
        Represents m' s.books := by
  have hi := inv_of_run hr
  have hswept : Swept s₀.books s.books := by
    have hout := outcome_run hi (by rw [hp]; rfl) hm hrun
    rw [outcome_back hend, outcome, hp] at hout
    exact swept_of_after hi.kept.accounts.nodup rfl hout
  exact ⟨hswept, fun m hrep => swept_in_memory hrep hswept⟩

/-- Two clients are connected, the first has completed, and the handler begins its pass. -/
def passBegins : List Act :=
  connect ++ [.main, .accept (some 6), .main, .malloc true, .create (some 8), .main, .main] ++
    List.replicate 8 (Act.client 0) ++ List.replicate 5 Act.handler

/-- The other threads go on meanwhile. -/
def passSteps : List Act :=
  [.handler, .client 1, .handler, .main, .handler, .handler, .handler, .client 1, .handler]

theorem pass_sweeps_passBegins : ∃ s₀ s, run step init passBegins = some s₀ ∧
    run step s₀ passSteps = some s ∧ s₀.books.list = [1, 0] ∧ s.books.list = [1] ∧
    Swept s₀.books s.books := by
  have hrun : (run step init passBegins).map (fun s₀ => (s₀.handler, s₀.books.list,
      decide (Meets step (fun s _ => s.handler ≠ .back false) s₀ passSteps),
      (run step s₀ passSteps).map fun s => (s.handler, s.books.list))) =
        some (.visit false [1, 0], [1, 0], true, some (.back false, [1])) := by decide
  obtain ⟨s₀, hr, he⟩ := Option.map_eq_some_iff.mp hrun
  simp only [Prod.mk.injEq, decide_eq_true_eq, Option.map_eq_some_iff] at he
  obtain ⟨hp, hl, hm, s, hs, hend, hleft⟩ := he
  exact ⟨s₀, s, hr, hs, hl, hleft, (pass_sweeps _ hr (hl ▸ hp) _ hm hs hend).1⟩

end Aesd.Threads.Pass
