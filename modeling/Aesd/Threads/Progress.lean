import Aesd.Lib.Progress
import Aesd.Threads.Wakeup
import Mathlib.Data.Prod.Lex

/-!
# The server stops

After `process_running` is reset, whatever the threads do brings the end of the main thread nearer. Its
own steps and those of the client threads are counted (`potential`); the handler makes the list shorter,
or goes on in a round that ends where a node is joined or where it waits (`handlerWork`), and is woken by
one of the steps counted. Somebody can always go on: who holds the mutex does, or waits for a client
thread that is exiting (`holder_step`); and no wake-up is lost.
-/

namespace Aesd.Threads.Progress

open Aesd.Lib.Lts Aesd.Lib.Progress
open Aesd.Threads.Model Aesd.Threads.Steps Aesd.Threads.Exclusion Aesd.Threads.Nodes
open Aesd.Threads.Accounting Aesd.Threads.Bookkeeping Aesd.Threads.Wakeup

/-! ### What is left to do -/

/-- The steps the main thread makes at most, with `process_running` reset. -/
def mainWork : MainPc → ℕ
  | .done => 0
  | .join => 1
  | .wakeUnlock => 2
  | .broadcast => 3
  | .wakeLock => 4
  | .stop => 5
  | .close _ | .test => 6
  | .unlock _ => 7
  | .setId .. | .release .. => 8
  | .undo .. => 9
  | .spawn .. => 10
  | .add _ => 11
  | .create _ => 12
  | .accept => 13

/-- The steps a client thread makes. -/
def clientWork : Option ClientPc → ℕ
  | none | some .exited => 0
  | some .exiting => 1
  | some .unlock => 2
  | some .signal => 3
  | some .complete => 4
  | some .close => 5
  | some .lock => 6
  | some .run => 7
  | some .start => 8

/-- The main thread may still create client threads. -/
def potential (s : State) : ℕ :=
  5 * mainWork s.main + ∑ n ∈ Finset.range s.books.next, clientWork (s.books.client n)

open Classical in
/-- How far the thread handler is from joining a node or waiting, in a list of `len` nodes: in the forced
join it goes round once without finding a completed node, and then waits or finds one. -/
noncomputable def handlerWork (completed : ℕ → Prop) (len : ℕ) : HandlerPc → ℕ
  | .exit | .wait _ false => 0
  | .forceUnlock | .sleep _ | .remove .. => 1
  | .join .. => 2
  | .visit true rest =>
    if ∃ n ∈ rest, completed n then 3 + rest.length else 8 + len + rest.length
  | .forcedScan => 4 + len
  | .forcedInner => if len = 0 then 9 else 5 + len
  | .forcedOuter => 7 + len
  | .wait true true => 10 + len
  | .free true _ rest => 9 + len + rest.length
  | .close rest => 8 + len + rest.length
  | .forceLock => 9 + 2 * len
  | .unlock => 10 + 2 * len
  | .outer => 11 + 2 * len
  | .test | .lock => 12 + 2 * len
  | .inner | .scan => 13 + 2 * len
  | .wait false true => 14 + 2 * len
  | .visit false rest => 12 + 2 * len + rest.length
  | .free false _ rest => 13 + 2 * len + rest.length

theorem handlerWork_visit_le (completed : ℕ → Prop) (len : ℕ) (rest : List ℕ) :
    handlerWork completed len (.visit true rest) ≤ 8 + len + rest.length := by
  simp only [handlerWork]
  split_ifs <;> omega

noncomputable def remaining (s : State) : ℕ ×ₗ ℕ ×ₗ ℕ :=
  toLex (potential s, toLex (s.books.list.length,
    handlerWork s.books.Completed s.books.list.length s.handler))

variable {s s' : State} {act : Act} {as : List Act} {n : ℕ}

theorem remaining_of_potential (h : potential s' < potential s) : remaining s' < remaining s :=
  Prod.Lex.toLex_lt_toLex.mpr (.inl h)

theorem remaining_of_length (hp : potential s' = potential s)
    (h : s'.books.list.length < s.books.list.length) : remaining s' < remaining s :=
  Prod.Lex.toLex_lt_toLex.mpr (.inr ⟨hp, Prod.Lex.toLex_lt_toLex.mpr (.inl h)⟩)

theorem remaining_of_handler (hp : potential s' = potential s)
    (hl : s'.books.list.length = s.books.list.length)
    (h : handlerWork s'.books.Completed s'.books.list.length s'.handler <
      handlerWork s.books.Completed s.books.list.length s.handler) : remaining s' < remaining s :=
  Prod.Lex.toLex_lt_toLex.mpr (.inr ⟨hp, Prod.Lex.toLex_lt_toLex.mpr (.inr ⟨hl, h⟩)⟩)

/-! ### Every step leaves less to do -/

theorem potential_of_main (hm : mainWork s'.main < mainWork s.main)
    (hn : s'.books.next = s.books.next) (hc : s'.books.client = s.books.client) :
    potential s' < potential s := by
  unfold potential
  rw [hn, hc]
  omega

theorem potential_of_client {pc pc' : ClientPc} (hm : s'.main = s.main)
    (hn : s'.books.next = s.books.next) (hlt : n < s.books.next) (hpc : s.books.client n = some pc)
    (hc : s'.books.client = Function.update s.books.client n (some pc'))
    (hw : clientWork (some pc') < clientWork (some pc)) : potential s' < potential s := by
  have hsum := sum_update s.books.client clientWork (Finset.mem_range.mpr hlt) (some pc')
  rw [hpc] at hsum
  unfold potential
  rw [hm, hn, hc]
  omega

theorem potential_mainStep (hi : Inv s) (hr : s.running = false) (h : MainStep s act s') :
    potential s' < potential s := by
  cases h with
  | testOn hp hr' =>
    rw [hr] at hr'
    cases hr'
  | @add fd hp =>
    have hclient := (hi.kept.accounts.fresh s.books.next le_rfl).client
    simp only [potential, hp, Books.add, Finset.sum_range_succ, hclient, mainWork, clientWork]
    omega
  | @spawn fd n id hp hid =>
    have ha := hi.kept.main_account (n := n) (by rw [hp]; rfl)
    have hlt := hi.kept.accounts.lt_next_of_live ⟨_, ha.2.node⟩
    have hsum := sum_update s.books.client clientWork (Finset.mem_range.mpr hlt) (some .start)
    have hnone : clientWork none = 0 := rfl
    have hstart : clientWork (some .start) = 8 := rfl
    rw [ha.2.client, hnone, hstart] at hsum
    simp only [potential, hp, Books.spawn, mainWork]
    omega
  | testOff hp | acceptFailed hp | accepted hp | lock hp | addFailed hp | spawnFailed hp | undo hp
  | release hp | setId hp | unlock hp | unlockFailed hp | close hp | stop hp | wakeLock hp
  | broadcast hp | wakeUnlock hp | join hp =>
    exact potential_of_main (by rw [hp]; simp [mainWork]) rfl rfl

theorem potential_clientStep (hi : Inv s) (h : ClientStep s n s') : potential s' < potential s := by
  have hlt : ∀ {pc}, s.books.client n = some pc → n < s.books.next := by
    intro pc hc
    by_contra hge
    rw [(hi.kept.accounts.fresh n (not_lt.mp hge)).client] at hc
    cases hc
  cases h with
  | start hc | run hc | lock hc | closeNone hc | closeSome hc | complete hc | signal hc | unlock hc
  | exiting hc =>
    exact potential_of_client rfl rfl (hlt hc) hc rfl (by simp [clientWork])

theorem remaining_handlerStep (hi : Inv s) (hr : s.running = false) (h : HandlerStep s s') :
    remaining s' < remaining s := by
  have hon : ∀ {P : Prop}, s.running = true → P := fun h => by rw [hr] at h; cases h
  cases h with
  | outerOn _ h | innerOn _ h | testOn _ h => exact hon h
  | @remove forced n rest hp =>
    have ha := hi.kept.handler_account (n := n) (by rw [hp]; rfl)
    refine remaining_of_length rfl ?_
    have hlen := List.length_erase_of_mem ha.1
    have hpos := List.length_pos_of_mem ha.1
    dsimp only
    omega
  | lock hp | outerOff hp | innerOff hp | scanFound hp | scanNone hp | testOff hp | unlock hp
  | forceLock hp | closeEnd hp | closeNone hp | closeSome hp | forcedOuterEnd hp | forceUnlock hp =>
    refine remaining_of_handler rfl rfl ?_
    rw [hp]
    simp [handlerWork, Books.setNode] <;> omega
  | @sleep forced hp | @wake forced hp =>
    refine remaining_of_handler rfl rfl ?_
    rw [hp]
    cases forced <;> simp [handlerWork, HandlerPc.woken] <;> split_ifs <;> omega
  | @visitEnd forced hp =>
    refine remaining_of_handler rfl rfl ?_
    rw [hp]
    cases forced <;> simp [handlerWork, HandlerPc.back]
  | @visitCompleted forced n rest hp hc =>
    have hfound : ∃ m ∈ n :: rest, s.books.Completed m := ⟨n, List.mem_cons_self, hc⟩
    refine remaining_of_handler rfl rfl ?_
    rw [hp]
    cases forced <;> simp only [handlerWork, if_pos hfound, List.length_cons] <;> omega
  | @visitNext forced n rest hp hc =>
    -- whether the rest has a completed node does not change
    have hfound : (∃ m ∈ n :: rest, s.books.Completed m) ↔ ∃ m ∈ rest, s.books.Completed m := by
      simp [hc]
    refine remaining_of_handler rfl rfl ?_
    rw [hp]
    cases forced with
    | false =>
      simp only [handlerWork, List.length_cons]
      omega
    | true =>
      by_cases hrest : ∃ m ∈ rest, s.books.Completed m
      · simp only [handlerWork, if_pos hrest, if_pos (hfound.mpr hrest), List.length_cons]
        omega
      · simp only [handlerWork, if_neg hrest, if_neg (mt hfound.mp hrest), List.length_cons]
        omega
  | @join forced n rest nd hp =>
    refine remaining_of_handler rfl rfl ?_
    rw [hp]
    simp [handlerWork]
  | @free forced n rest hp =>
    refine remaining_of_handler rfl rfl ?_
    rw [hp]
    cases forced with
    | false =>
      simp only [handlerWork, Books.free]
      omega
    | true =>
      refine (handlerWork_visit_le _ _ rest).trans_lt ?_
      simp only [handlerWork, Books.free]
      omega
  | forcedOuter hp hl =>
    have hlen : s.books.list.length ≠ 0 := by simpa using hl
    refine remaining_of_handler rfl rfl ?_
    rw [hp]
    simp only [handlerWork, if_neg hlen]
    omega
  | forcedInnerEnd hp hl =>
    refine remaining_of_handler rfl rfl ?_
    rw [hp]
    simp [handlerWork, hl]
  | forcedInner hp hl =>
    have hlen : s.books.list.length ≠ 0 := by simpa using hl
    refine remaining_of_handler rfl rfl ?_
    rw [hp]
    simp only [handlerWork, if_neg hlen]
    omega
  | forcedScanFound hp hc =>
    refine remaining_of_handler rfl rfl ?_
    rw [hp]
    simp only [handlerWork, if_pos hc]
    omega
  | forcedScanNone hp hc =>
    refine remaining_of_handler rfl rfl ?_
    rw [hp]
    simp only [handlerWork]
    omega

/-- **Every step of a thread leaves less to do**, once `process_running` is reset. -/
theorem remaining_step (hi : Inv s) (hr : s.running = false) (hact : act ≠ .signal ∧ act ≠ .spurious)
    (h : Step s act s') : remaining s' < remaining s := by
  cases h with
  | signal => exact absurd rfl hact.1
  | spurious => exact absurd rfl hact.2
  | main h => exact remaining_of_potential (potential_mainStep hi hr h)
  | handler h => exact remaining_handlerStep hi hr h
  | client h => exact remaining_of_potential (potential_clientStep hi h)

theorem running_step (hr : s.running = false) (h : Step s act s') : s'.running = false := by
  cases h with
  | signal => rfl
  | spurious => exact hr
  | main h => cases h <;> first | exact hr | rfl
  | handler h => cases h <;> exact hr
  | client h => cases h <;> exact hr

/-! ### Somebody can go on -/

/-- A step for which a thread waits neither for a client nor for a call to succeed. -/
def own (s : State) : Act → Bool
  | .main | .handler | .accept none | .malloc false | .create none => true
  | .client n => decide (s.books.client n ≠ some .run)
  | _ => false

/-- Some thread can go on by itself. -/
def Enabled (s : State) : Prop := ∃ act s', own s act = true ∧ step s act = some s'

/-- All the others wait for the client thread `n`, which is receiving and sending. -/
structure Awaits (s : State) (n : ℕ) : Prop where
  list : n ∈ s.books.list
  run : s.books.client n = some .run
  main : s.main = .join
  handler : s.handler = .wait true false
  mutex : s.mutex = none

theorem closeNode_of_live (h : s.books.Live n) : ∃ s', s.closeNode n = some s' := by
  obtain ⟨nd, hnd⟩ := h
  unfold State.closeNode
  rw [deref_of_live hnd]
  split <;> exact ⟨_, rfl⟩

theorem client_step (hi : Inv s) {pc : ClientPc} (hc : s.books.client n = some pc)
    (hx : pc ≠ .exited) (hm : pc = .lock → s.mutex = none) : ∃ s', step s (.client n) = some s' := by
  obtain ⟨nd, hnd⟩ := hi.safe.client n pc hc hx
  have hstep : ∃ s', clientStep s n = some s' := by
    unfold clientStep
    rw [hc]
    cases pc with
    | lock => exact ⟨_, by simp only [State.lock, hm rfl]; rfl⟩
    | exited => exact absurd rfl hx
    | close =>
      obtain ⟨t, ht⟩ := closeNode_of_live ⟨nd, hnd⟩
      simp [ht]
    | start | run | complete | signal | unlock | exiting => simp [State.deref, hnd]
  obtain ⟨s', hs'⟩ := hstep
  exact ⟨s', by simp [step, hi.fault, hs']⟩

theorem enabled_of_client (hi : Inv s) {pc : ClientPc} (hc : s.books.client n = some pc)
    (hx : pc ≠ .exited) (hrun : pc ≠ .run) (hm : pc = .lock → s.mutex = none) : Enabled s := by
  obtain ⟨s', hs'⟩ := client_step hi hc hx hm
  exact ⟨.client n, s', by simpa [own, hc] using hrun, hs'⟩

/-- The handler with the mutex waits only for a client thread that is exiting. -/
theorem handler_step (hi : Inv s) (hin : s.handler.inside = true) : Enabled s := by
  have hstep : (∃ s', handlerStep s = some s') → Enabled s := fun ⟨s', hs'⟩ =>
    ⟨.handler, s', rfl, by simp [step, hi.fault, hs']⟩
  have hlive := hi.safe.handler
  unfold handlerStep at hstep
  cases hp : s.handler with
  | lock | wait | forceLock | exit =>
    rw [hp] at hin
    cases hin
  | join forced n rest =>
    obtain ⟨-, hexit, nd, hnd, ht⟩ := hi.inOrder.join forced n rest hp
    rcases hexit with hexit | hexit
    · exact enabled_of_client hi hexit (by simp) (by simp) fun he => by cases he
    · exact hstep (by simp [hp, State.deref, hnd, ht, hexit])
  | scan | forcedScan =>
    rcases oneCompleted_of_live hi.safe.listed with ⟨he, -⟩ | ⟨he, -⟩ <;>
      exact hstep (by simp [hp, he])
  | visit forced rest =>
    cases rest with
    | nil => exact hstep (by simp [hp])
    | cons n rest =>
      obtain ⟨nd, hnd⟩ := hlive n (by rw [hp]; rfl)
      exact hstep (by simp [hp, State.deref, hnd])
  | close rest =>
    cases rest with
    | nil => exact hstep (by simp [hp])
    | cons n rest =>
      obtain ⟨t, ht⟩ := closeNode_of_live (hlive n (by rw [hp]; rfl))
      exact hstep (by simp [hp, ht])
  | remove forced n rest => exact hstep (by simp [hp, hi.safe.remove forced n rest hp])
  | free forced n rest =>
    exact hstep (by simp [hp, freeNode_of_live (hlive n (by rw [hp]; rfl))])
  | outer | inner | sleep | test | unlock | forcedOuter | forcedInner | forceUnlock =>
    exact hstep (by simp [hp])

theorem main_step (hi : Inv s) (hd : s.main ≠ .done) (hj : s.main ≠ .join)
    (hm : s.main.inside = false → s.mutex = none) : Enabled s := by
  have hstep : ∀ act, own s act = true → (∀ n, act ≠ .client n) → act ≠ .handler →
      (∃ s', mainStep s act = some s') → Enabled s := by
    rintro act hact hc hh ⟨s', hs'⟩
    refine ⟨act, s', hact, ?_⟩
    unfold step
    rw [if_neg (by simp [hi.fault])]
    cases act with
    | signal | spurious => cases hact
    | handler => exact absurd rfl hh
    | client n => exact absurd rfl (hc n)
    | _ => exact hs'
  have hlive := hi.safe.main
  cases hp : s.main with
  | done => exact absurd hp hd
  | join => exact absurd hp hj
  | accept => exact hstep (.accept none) rfl nofun nofun (by simp [mainStep, hp])
  | add fd => exact hstep (.malloc false) rfl nofun nofun (by simp [mainStep, hp])
  | spawn fd n => exact hstep (.create none) rfl nofun nofun (by simp [mainStep, hp])
  | undo fd n =>
    obtain ⟨l, hl⟩ := List.head?_eq_some_iff.mp (hi.safe.undo fd n hp)
    obtain ⟨nd, hnd⟩ := hlive n (by rw [hp]; rfl)
    exact hstep .main rfl nofun nofun (by simp [mainStep, hp, hl, State.deref, hnd])
  | release fd n =>
    have hfree := freeNode_of_live (hlive n (by rw [hp]; rfl))
    exact hstep .main rfl nofun nofun (by simp [mainStep, hp, hfree])
  | setId n id =>
    obtain ⟨nd, hnd⟩ := hlive n (by rw [hp]; rfl)
    exact hstep .main rfl nofun nofun (by simp [mainStep, hp, State.deref, hnd])
  | create fd | wakeLock =>
    have hfree := hm (by rw [hp]; rfl)
    exact hstep .main rfl nofun nofun (by simp [mainStep, hp, State.lock, hfree])
  | unlock failed =>
    cases failed <;> exact hstep .main rfl nofun nofun (by simp [mainStep, hp])
  | test | close | stop | broadcast | wakeUnlock =>
    exact hstep .main rfl nofun nofun (by simp [mainStep, hp])

/-- **Who holds the mutex goes on**, or waits for a client thread that does. -/
theorem holder_step (hi : Inv s) {t : Thread} (hm : s.mutex = some t) : Enabled s := by
  have hin := (hi.kept.locked t).mpr hm
  cases t with
  | main =>
    have hin' : s.main.inside = true := hin
    refine main_step hi ?_ ?_ (fun hout => ?_)
    · intro hp
      rw [hp] at hin'
      cases hin'
    · intro hp
      rw [hp] at hin'
      cases hin'
    · rw [hout] at hin'
      cases hin'
  | handler => exact handler_step hi hin
  | client n =>
    obtain ⟨pc, hc, hpc⟩ := hin
    refine enabled_of_client hi hc ?_ ?_ ?_ <;> rintro rfl <;> cases hpc

/-- The handler while the main thread waits for it, and nobody has the mutex. -/
theorem joined_step (hi : Inv s) (ha : Alert s) (hj : s.main = .join) (hm : s.mutex = none)
    (hx : s.handler ≠ .exit) : Enabled s ∨ ∃ n, Awaits s n := by
  have hlock : ∀ pc, s.handler = pc → (pc = .lock ∨ pc = .forceLock ∨ ∃ forced, pc = .wait forced true) →
      Enabled s := by
    rintro pc rfl hpc
    refine ⟨.handler, ?_⟩
    simp only [own, true_and]
    rcases hpc with hp | hp | ⟨forced, hp⟩ <;> simp [step, hi.fault, handlerStep, hp, State.lock, hm]
  have hout := hi.kept.locked.handler_outside hm
  cases hp : s.handler with
  | lock => exact .inl (hlock _ hp (.inl rfl))
  | forceLock => exact .inl (hlock _ hp (.inr (.inl rfl)))
  | exit => exact absurd hp hx
  | wait forced notified =>
    cases notified with
    | true => exact .inl (hlock _ hp (.inr (.inr ⟨forced, rfl⟩)))
    | false =>
      cases forced with
      | false =>
        -- after the broadcast the handler does not wait in its loop
        have hidle := ha.woken (by rw [hj]; rfl)
        rw [hp] at hidle
        cases hidle
      | true =>
        -- in the forced join it waits for a client thread that is not through
        obtain ⟨n, hn, -⟩ := ha.awaited (by rw [hp]; rfl)
        have hacc := hi.kept.accounts.account n
        rw [hi.kept.focus_of_free hm] at hacc
        rcases hacc with ⟨-, nd, pc, hr, -⟩ | ⟨hout, -⟩
        swap
        · exact absurd hn hout
        have hnot : ¬ s.books.Completed n := fun hcomp => by
          have hsig := ha.completed (by rw [hp]; rfl) n hn hcomp
          exact (hi.kept.locked.free hm).outside (.client n) ⟨.signal, hsig, rfl⟩
        by_cases hrun : pc = .run
        · exact .inr ⟨n, hn, hrun ▸ hr.client, hj, hp, hm⟩
        · refine .inl (enabled_of_client hi hr.client ?_ hrun fun _ => hm)
          rintro rfl
          exact hnot ⟨nd, hr.node, hr.completed⟩
  | _ =>
    rw [hp] at hout
    cases hout

/-- **No deadlock**: until the main thread is through, some thread can go on, or a client is served. -/
theorem enabled (hi : Inv s) (ha : Alert s) (hd : s.main ≠ .done) : Enabled s ∨ ∃ n, Awaits s n := by
  rcases hm : s.mutex with _ | t
  swap
  · exact .inl (holder_step hi hm)
  by_cases hj : s.main = .join
  · by_cases hx : s.handler = .exit
    · exact .inl ⟨.main, _, rfl, by simp [step, hi.fault, mainStep, hj, hx]; rfl⟩
    · exact joined_step hi ha hj hm hx
  · exact .inl (main_step hi hd hj fun _ => hm)

/-- **The server stops.** From every state in which `process_running` is reset, whichever threads are let
run, the main thread comes to the end of `run_server`, if every call of `accept`, `recv` and `send` returns.
Left out are further signals, and wake-ups of `pthread_cond_wait` for no reason. -/
theorem server_stops (as : List Act) (hr : run step init as = some s) (hs : s.running = false) :
    Inevitable step (fun a => a ≠ .signal ∧ a ≠ .spurious) (fun a => a ≠ .signal ∧ a ≠ .spurious)
      (fun s => s.main = .done) s := by
  refine inevitable_of_measure (P := fun s => Inv s ∧ Alert s ∧ s.running = false) remaining ?_ ?_ ?_
    ⟨inv_of_run hr, alert_of_run hr, hs⟩
  · rintro s act s' ⟨hi, ha, hr⟩ - hs
    have hl := Step.of_step hi.safe hs
    exact ⟨hi.step hs, ha.step hi hl, running_step hr hl⟩
  · rintro s act s' ⟨hi, -, hr⟩ hact hs
    exact remaining_step hi hr hact (.of_step hi.safe hs)
  · rintro s ⟨hi, ha, -⟩ hd
    rcases enabled hi ha hd with ⟨act, s', hown, hs'⟩ | ⟨n, hn⟩
    · exact ⟨act, s', ⟨fun he => by simp [he, own] at hown, fun he => by simp [he, own] at hown⟩, hs'⟩
    · obtain ⟨s', hs'⟩ := client_step hi hn.run (by simp) fun _ => hn.mutex
      exact ⟨.client n, s', by simp, hs'⟩

/-- A signal comes while a client is served. -/
theorem server_stops_oneClient : ∃ s, run step init (connect ++ [.client 0, .handler, .signal]) = some s ∧
    s.main = .test ∧ s.books.client 0 = some .run ∧
    Inevitable step (fun a => a ≠ .signal ∧ a ≠ .spurious) (fun a => a ≠ .signal ∧ a ≠ .spurious)
      (fun s => s.main = .done) s := by
  have hrun : (run step init (connect ++ [.client 0, .handler, .signal])).map
      (fun s => (s.main, s.books.client 0, s.running)) = some (.test, some .run, false) := by decide
  obtain ⟨s, hr, he⟩ := Option.map_eq_some_iff.mp hrun
  obtain ⟨hm, hc, hs⟩ : s.main = .test ∧ s.books.client 0 = some .run ∧ s.running = false := by
    simpa using he
  exact ⟨s, hr, hm, hc, server_stops _ hr hs⟩

end Aesd.Threads.Progress
