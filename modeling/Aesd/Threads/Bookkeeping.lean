import Aesd.Lib.Lts
import Aesd.Threads.Sockets

/-!
# The bookkeeping of the client threads

The accounts and the sockets together make every reachable state safe, and safe states are what the list
of steps is about; so both are kept by every step. What a node's account says is then what is claimed of
it: `InOrder`.
-/

namespace Aesd.Threads.Bookkeeping

open Aesd.Lib.Lts
open Aesd.Threads.Model Aesd.Threads.Steps Aesd.Threads.Exclusion Aesd.Threads.Nodes
open Aesd.Threads.Accounting Aesd.Threads.Sockets

/-- The invariant of the server. -/
structure Inv (s : State) : Prop where
  fault : s.fault = false
  kept : Kept s
  owning : Owning s

variable {s s' : State} {act : Act} {as : List Act} {n : ℕ}

theorem inv_init : Inv init := by
  refine ⟨rfl, ⟨locked_init, ?_, List.nil_suffix⟩, .empty, .empty ?_⟩
  · constructor
    · exact List.nodup_nil
    · intro n _
      exact ⟨List.not_mem_nil, rfl, rfl, rfl, rfl⟩
    · intro n fd h
      cases h
    · intro n
      exact Or.inr ⟨List.not_mem_nil, rfl, Or.inl ⟨rfl, rfl⟩, Nat.zero_le 1⟩
  · rintro (_ | n) <;> rfl

/-! ### No thread is about to make a mistake -/

theorem live_of_mem {b : Books} {st : Option Stage} (h : Account b n st) (hn : n ∈ b.list) :
    b.Live n := by
  rcases st with _ | st
  · rcases h with ⟨-, nd, pc, hr, -⟩ | ⟨hout, -⟩
    · exact ⟨nd, hr.node⟩
    · exact absurd hn hout
  · cases st with
    | unborn fd => exact ⟨_, h.2.node⟩
    | scrapped fd => exact absurd hn h.1
    | unnamed id =>
      obtain ⟨-, nd, pc, hr, -⟩ := h
      exact ⟨nd, hr.node⟩
    | due =>
      obtain ⟨-, nd, pc, hr, -⟩ := h
      exact ⟨nd, hr.node⟩
    | joined =>
      obtain ⟨nd, hn, -⟩ := h.2.node
      exact ⟨nd, hn⟩
    | removed => exact absurd hn h.1

theorem Inv.listed (h : Inv s) (hn : n ∈ s.books.list) : s.books.Live n :=
  live_of_mem (h.kept.accounts.account n) hn

theorem Inv.main_live (h : Inv s) (hn : s.main.node = some n) : s.books.Live n := by
  cases hp : s.main with
  | undo fd m =>
    rw [hp] at hn
    cases hn
    have ha := h.kept.main_account (n := n) (by rw [hp]; rfl)
    exact ⟨_, ha.2.node⟩
  | release fd m =>
    rw [hp] at hn
    cases hn
    have ha := h.kept.main_account (n := n) (by rw [hp]; rfl)
    exact ⟨_, ha.2.node⟩
  | setId m id =>
    rw [hp] at hn
    cases hn
    obtain ⟨-, nd, pc, hr, -⟩ := h.kept.main_account (n := n) (by rw [hp]; rfl)
    exact ⟨nd, hr.node⟩
  | _ => simp [hp, MainPc.node] at hn

theorem Inv.handler_live (h : Inv s) (hn : s.handler.node = some n) : s.books.Live n := by
  have hrest : ∀ l, handlerRest s.handler = n :: l → s.books.Live n := fun l hl =>
    h.listed (h.kept.rest_mem hl)
  cases hp : s.handler with
  | visit forced l =>
    cases l with
    | nil => simp [hp, HandlerPc.node] at hn
    | cons m l =>
      obtain rfl : m = n := by simpa [hp, HandlerPc.node] using hn
      exact hrest l (by rw [hp]; rfl)
  | close l =>
    cases l with
    | nil => simp [hp, HandlerPc.node] at hn
    | cons m l =>
      obtain rfl : m = n := by simpa [hp, HandlerPc.node] using hn
      exact hrest l (by rw [hp]; rfl)
  | join forced m l =>
    obtain rfl : m = n := by simpa [hp, HandlerPc.node] using hn
    exact hrest l (by rw [hp]; rfl)
  | free forced m l =>
    obtain rfl : m = n := by simpa [hp, HandlerPc.node] using hn
    have ha := h.kept.handler_account (n := m) (by rw [hp]; rfl)
    obtain ⟨nd, hn, -⟩ := ha.2.node
    exact ⟨nd, hn⟩
  | _ => simp [hp, HandlerPc.node] at hn

/-- The node about to be joined is completed, and its `thread_id` names its own thread. -/
theorem Inv.due (h : Inv s) {forced : Bool} {rest : List ℕ} (hp : s.handler = .join forced n rest) :
    ∃ nd pc, Runs s.books n nd pc ∧ s.books.threads nd.threadId = some n ∧ pc.completed = true := by
  obtain ⟨-, nd, pc, hr, ht, hc⟩ := h.kept.handler_account (n := n) (by rw [hp]; rfl)
  exact ⟨nd, pc, hr, ht, hr.completed ▸ hc⟩

theorem Inv.safe (h : Inv s) : Safe s where
  fault := h.fault
  listed := fun n hn => h.listed hn
  main := fun n hn => h.main_live hn
  undo := by
    intro fd n hp
    have ha := h.kept.accounts_of_main (f := some (n, .unborn fd)) (by rw [hp]; rfl) (by rw [hp]; rfl)
    exact ha.head n fd rfl
  mainFd := fun fd hf => h.owning.owned.live (k := .main) hf
  handler := fun n hn => h.handler_live hn
  join := by
    intro forced n rest nd hp hn
    obtain ⟨nd', pc, hr, ht, -⟩ := h.due hp
    obtain rfl : nd' = nd := Option.some.inj (hr.node.symm.trans hn)
    exact ht
  remove := by
    intro forced n rest hp
    have ha := h.kept.handler_account (n := n) (by rw [hp]; rfl)
    exact ha.1
  client := by
    intro n pc hc hp
    obtain ⟨-, nd, hr⟩ := (h.kept.accounts.account n).runs hc hp
    exact ⟨nd, hr.node⟩
  nodeFd := fun n nd fd hn hf => h.owning.nodeFd h.kept hn hf

theorem Inv.list_step (h : Inv s) (hs : Step s act s') : Inv s' := by
  have hl := h.kept.locked.step hs
  cases hs with
  | signal =>
    exact ⟨h.fault, h.kept.of_quiet hl rfl rfl h.kept.rest, h.owning.of_same rfl (holds_congr rfl rfl)⟩
  | spurious hp =>
    exact ⟨h.fault, h.kept.of_quiet hl rfl (by simp [focus, hp, handlerFocus]) List.nil_suffix,
      h.owning.of_same rfl (holds_congr rfl rfl)⟩
  | main hm =>
    refine ⟨?_, h.kept.mainStep hm, h.owning.mainStep h.kept hm⟩
    cases hm <;> exact h.fault
  | handler hh =>
    refine ⟨?_, h.kept.handlerStep hh, h.owning.handlerStep h.kept hh⟩
    cases hh <;> exact h.fault
  | client hc =>
    refine ⟨?_, h.kept.clientStep hc, h.owning.clientStep h.kept hc⟩
    cases hc <;> exact h.fault

/-- **Every step keeps the invariant.** -/
theorem Inv.step (h : Inv s) (hs : step s act = some s') : Inv s' :=
  h.list_step (.of_step h.safe hs)

theorem inv_of_run (hr : run step init as = some s) : Inv s :=
  run_invariant (fun _ _ _ h hs => h.step hs) inv_init hr

/-! ### What is claimed -/

/-- What holds in a state: no thread has used a node that is not live, closed a descriptor that is not
open or joined an id that names no thread; nothing is closed, joined or freed twice; a freed node is
gone; the handler joins a thread that needs neither its node nor the mutex any more, by the id it has
from `pthread_create`; and the nodes in the list have threads that are not joined. -/
structure InOrder (s : State) : Prop where
  fault : s.fault = false
  closes : ∀ m, s.files.closes m ≤ 1
  joins : ∀ n, s.books.joins n ≤ 1
  frees : ∀ n, s.books.frees n ≤ 1
  freed : ∀ n, 0 < s.books.frees n → s.books.node n = none ∧ n ∉ s.books.list
  join : ∀ forced n rest, s.handler = .join forced n rest →
    s.mutex = some .handler ∧ (s.books.client n = some .exiting ∨ s.books.client n = some .exited) ∧
      ∃ nd, s.books.node n = some nd ∧ s.books.threads nd.threadId = some n
  listed : s.mutex = none → ∀ n ∈ s.books.list, s.books.joins n = 0 ∧
    ∃ nd pc, s.books.node n = some nd ∧ s.books.client n = some pc ∧
      s.books.threads nd.threadId = some n

/-- What a step may do: it joins a thread that has exited, by the id it has from `pthread_create`, and
frees a live node that is out of the list. -/
structure Orderly (s s' : State) : Prop where
  join : ∀ n, s'.books.joins n ≠ s.books.joins n → s.books.client n = some .exited ∧
    ∃ nd, s.books.node n = some nd ∧ s.books.threads nd.threadId = some n
  free : ∀ n, s'.books.frees n ≠ s.books.frees n → n ∉ s.books.list ∧ s.books.Live n

theorem account_joins {b : Books} {st : Option Stage} (h : Account b n st) : b.joins n ≤ 1 := by
  rcases st with _ | st
  · rcases h with ⟨-, nd, pc, hr, -⟩ | ⟨-, hg⟩
    · exact hr.joins.trans_le (Nat.zero_le 1)
    · rcases hg.thread with ⟨-, hj⟩ | ⟨-, hj⟩ <;> omega
  · cases st with
    | unborn fd | scrapped fd => exact h.2.joins.trans_le (Nat.zero_le 1)
    | unnamed id | due =>
      obtain ⟨-, nd, pc, hr, -⟩ := h
      exact hr.joins.trans_le (Nat.zero_le 1)
    | joined | removed => exact h.2.joins.le

/-- A node that was freed is gone. -/
theorem account_frees {b : Books} {st : Option Stage} (h : Account b n st) :
    b.frees n = 0 ∨ n ∉ b.list ∧ Gone b n := by
  rcases st with _ | st
  · rcases h with ⟨-, nd, pc, hr, -⟩ | hg
    · exact Or.inl hr.frees
    · exact Or.inr hg
  · cases st with
    | unborn fd | scrapped fd => exact Or.inl h.2.frees
    | unnamed id | due =>
      obtain ⟨-, nd, pc, hr, -⟩ := h
      exact Or.inl hr.frees
    | joined | removed => exact Or.inl h.2.frees

/-- A completed thread that is not inside has only to exit. -/
theorem exiting_of_completed {pc : ClientPc} (hc : pc.completed = true) (hi : pc.inside = false) :
    pc = .exiting ∨ pc = .exited := by
  cases pc <;> simp_all [ClientPc.completed, ClientPc.inside]

theorem Inv.inOrder (h : Inv s) : InOrder s where
  fault := h.fault
  closes := h.owning.counted.closes_le_one
  joins := fun n => account_joins (h.kept.accounts.account n)
  frees := by
    intro n
    rcases account_frees (h.kept.accounts.account n) with h0 | ⟨-, hg⟩
    · omega
    · exact hg.frees
  freed := by
    intro n hn
    rcases account_frees (h.kept.accounts.account n) with h0 | ⟨hout, hg⟩
    · omega
    · exact ⟨hg.node, hout⟩
  join := by
    intro forced n rest hp
    obtain ⟨nd, pc, hr, ht, hc⟩ := h.due hp
    have hin : Inside s .handler := by simp [Inside, hp, HandlerPc.inside]
    have hout : pc.inside = false := by
      by_contra hpi
      have : Thread.client n = .handler :=
        h.kept.locked.unique ⟨pc, hr.client, by simpa using hpi⟩ hin
      cases this
    refine ⟨(h.kept.locked .handler).mp hin, ?_, nd, hr.node, ht⟩
    rw [hr.client, Option.some.injEq, Option.some.injEq]
    exact exiting_of_completed hc hout
  listed := by
    intro hm n hn
    have ha := h.kept.accounts.account n
    rw [h.kept.focus_of_free hm] at ha
    rcases ha with ⟨-, nd, pc, hr, ht⟩ | ⟨hout, -⟩
    · exact ⟨hr.joins, nd, pc, hr.node, hr.client, ht⟩
    · exact absurd hn hout

theorem Inv.orderly (h : Inv s) (hs : Step s act s') : Orderly s s' := by
  have hother : ∀ {b : Books}, s'.books = b → b.joins = s.books.joins → b.frees = s.books.frees →
      Orderly s s' := by
    rintro _ rfl hj hf
    exact ⟨fun n hn => absurd (congrFun hj n) hn, fun n hn => absurd (congrFun hf n) hn⟩
  cases hs with
  | signal | spurious => exact hother rfl rfl rfl
  | client hc => cases hc <;> exact hother rfl rfl rfl
  | main hm =>
    cases hm with
    | @release fd m hp =>
      have ha := h.kept.main_account (n := m) (by rw [hp]; rfl)
      refine ⟨fun n hn => absurd rfl hn, fun n hn => ?_⟩
      obtain rfl : n = m := by
        by_contra hnm
        simp [Books.free, hnm] at hn
      exact ⟨ha.1, _, ha.2.node⟩
    | _ => exact hother rfl rfl rfl
  | handler hh =>
    cases hh with
    | @join forced m rest nd hp hn hc =>
      obtain ⟨nd', pc, hr, ht, -⟩ := h.due hp
      refine ⟨fun n hj => ?_, fun n hf => absurd rfl hf⟩
      obtain rfl : n = m := by
        by_contra hnm
        simp [Books.join, hnm] at hj
      exact ⟨hc, nd', hr.node, ht⟩
    | @free forced m rest hp =>
      have ha := h.kept.handler_account (n := m) (by rw [hp]; rfl)
      obtain ⟨nd, hnd, -⟩ := ha.2.node
      refine ⟨fun n hn => absurd rfl hn, fun n hn => ?_⟩
      obtain rfl : n = m := by
        by_contra hnm
        simp [Books.free, hnm] at hn
      exact ⟨ha.1, nd, hnd⟩
    | _ => exact hother rfl rfl rfl

/-- **The bookkeeping is in order**, whatever the system decides and in whatever order the threads take
their steps. -/
theorem bookkeeping (as : List Act) (hr : run step init as = some s) :
    InOrder s ∧ ∀ act s', step s act = some s' → Orderly s s' :=
  ⟨(inv_of_run hr).inOrder, fun _ _ hs => (inv_of_run hr).orderly (.of_step (inv_of_run hr).safe hs)⟩

/-- The main thread accepts a connection and creates its thread. -/
def connect : List Act :=
  [.main, .accept (some 5), .main, .malloc true, .create (some 7), .main, .main]

/-- One client connects, is served and goes; the handler joins its thread. -/
def oneClient : List Act :=
  connect ++ List.replicate 8 (Act.client 0) ++ List.replicate 10 Act.handler

theorem bookkeeping_oneClient : ∃ s, run step init oneClient = some s ∧
    (InOrder s ∧ ∀ act s', step s act = some s' → Orderly s s') ∧
      s.files.closes 0 = 1 ∧ s.books.joins 0 = 1 ∧ s.books.frees 0 = 1 := by
  have hrun : (run step init oneClient).map
      (fun s => (s.files.closes 0, s.books.joins 0, s.books.frees 0)) = some (1, 1, 1) := by decide
  obtain ⟨s, hr, he⟩ := Option.map_eq_some_iff.mp hrun
  exact ⟨s, hr, bookkeeping oneClient hr, by simpa using he⟩

end Aesd.Threads.Bookkeeping
