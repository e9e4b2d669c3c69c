import Aesd.Threads.Accounting

/-!
# Who closes a socket

An accepted socket belongs to the main thread until the thread of its node is created, and from then
on to the node, whose `client_sock_fd` is `-1` once it is closed. A node that is in the list before
its thread exists only repeats the descriptor of the main thread.
-/

namespace Aesd.Threads.Sockets

open Aesd.Lib.Handles
open Aesd.Threads.Model Aesd.Threads.Steps Aesd.Threads.Exclusion Aesd.Threads.Nodes
open Aesd.Threads.Accounting

/-- Whose task it is to close a socket. -/
inductive Holder
  | main
  | node (n : ℕ)

/-- The node of the main thread that has no thread. -/
def single : MainPc → Option ℕ
  | .spawn _ n => some n
  | .undo _ n => some n
  | .release _ n => some n
  | _ => none

/-- The descriptor each holder has to close. -/
def holds (s : State) : Holder → Option ℕ
  | .main => s.main.fd
  | .node n => if single s.main = some n then none else (s.books.node n).bind ThreadNode.clientSockFd

/-- **Every open descriptor has one holder, and what has none was closed once.** -/
structure Owning (s : State) : Prop where
  counted : Counted s.files
  owned : Owned s.files (holds s)

variable {s s' : State} {act : Act} {n : ℕ}

theorem single_of_outside {pc : MainPc} (h : pc.inside = false) : single pc = none := by
  cases pc <;> first | rfl | cases h

theorem holds_node {nd : ThreadNode} (hs : single s.main ≠ some n) (hn : s.books.node n = some nd) :
    holds s (.node n) = nd.clientSockFd := by
  simp [holds, hs, hn]

/-- The node of the main thread has no client thread, and the descriptor of the main thread. -/
theorem single_account (h : Kept s) (hs : single s.main = some n) :
    ∃ fd, s.main.fd = some fd ∧ Single s.books n fd := by
  cases hp : s.main with
  | spawn fd m | undo fd m | release fd m =>
    rw [hp] at hs
    cases hs
    have ha := h.main_account (by rw [hp]; rfl)
    exact ⟨fd, rfl, ha.2⟩
  | _ => simp [hp, single] at hs

theorem single_ne_of_client (h : Kept s) {pc : ClientPc} (hc : s.books.client n = some pc) :
    single s.main ≠ some n := by
  intro hs
  obtain ⟨fd, -, hs⟩ := single_account h hs
  simp [hs.client] at hc

/-- The descriptor of a node is open. -/
theorem Owning.nodeFd (h : Owning s) (hk : Kept s) {nd : ThreadNode} {fd : ℕ}
    (hn : s.books.node n = some nd) (hf : nd.clientSockFd = some fd) :
    ∃ m, s.files.object fd = some m := by
  by_cases hs : single s.main = some n
  · obtain ⟨fd', hm, ha⟩ := single_account hk hs
    obtain rfl : nd = ⟨0, false, some fd'⟩ := Option.some.inj (hn.symm.trans ha.node)
    cases hf
    exact h.owned.live (k := .main) hm
  · exact h.owned.live ((holds_node hs hn).trans hf)

/-! ### The steps -/

theorem holds_congr (hm : s'.main = s.main) (hn : s'.books.node = s.books.node) (k : Holder) :
    holds s' k = holds s k := by
  cases k <;> simp [holds, hm, hn]

/-- A step that changes the node `n` alone. -/
theorem holds_of_ne {nd : Option ThreadNode} (hm : single s'.main = single s.main ∨
      single s.main = some n ∧ single s'.main = none ∨ single s.main = none ∧ single s'.main = some n)
    (hn : s'.books.node = Function.update s.books.node n nd) {m : ℕ} (hmn : m ≠ n) :
    holds s' (.node m) = holds s (.node m) := by
  have hnm : n ≠ m := Ne.symm hmn
  rcases hm with hm | ⟨hm, hm'⟩ | ⟨hm, hm'⟩ <;> simp [holds, *]

namespace Owning

/-- A step that opens and closes nothing. -/
theorem of_same (h : Owning s) (hf : s'.files = s.files) (hh : ∀ k, holds s' k = holds s k) :
    Owning s' := by
  constructor
  · rw [hf]
    exact h.counted
  · rw [hf]
    exact h.owned.congr hh

theorem mainStep (h : Owning s) (hk : Kept s) (hm : MainStep s act s') : Owning s' := by
  cases hm with
  | testOn hp | testOff hp | acceptFailed hp | stop hp | lock hp | wakeLock hp | broadcast hp
  | wakeUnlock hp | join hp | addFailed hp | unlock hp | unlockFailed hp | spawnFailed hp | undo hp =>
    refine h.of_same rfl fun k => ?_
    cases k <;> simp [holds, hp, MainPc.fd, single]
  | @accepted fd hp hf =>
    refine ⟨h.counted.give hf, h.owned.give (k := .main) hf (by simp [holds, hp, MainPc.fd]) rfl ?_⟩
    rintro (_ | m) hne
    · exact absurd rfl hne
    · simp [holds, hp, single]
  | @add fd hp =>
    refine h.of_same rfl ?_
    rintro (_ | m)
    · simp [holds, hp, MainPc.fd]
    · by_cases hm : m = s.books.next
      · have hn := (hk.accounts.fresh m hm.ge).node
        simp [holds, hm, single, hp, hm ▸ hn]
      · exact holds_of_ne (Or.inr (Or.inr ⟨by rw [hp]; rfl, rfl⟩)) rfl hm
  | @spawn fd m id hp hi =>
    have ha := hk.main_account (n := m) (by rw [hp]; rfl)
    refine ⟨h.counted, h.owned.move (k := .main) (l := .node m) (a := fd)
      (by simp [holds, hp, MainPc.fd]) (by simp [holds, hp, single]) rfl ?_ ?_⟩
    · simp [holds, single, Books.spawn, ha.2.node]
    · rintro (_ | j) hj hjm
      · exact absurd rfl hj
      · have hne : m ≠ j := fun e => hjm (e ▸ rfl)
        simp [holds, hp, single, hne, Books.spawn]
  | @release fd m hp =>
    refine h.of_same rfl ?_
    rintro (_ | j)
    · simp [holds, hp, MainPc.fd]
    · by_cases hj : j = m
      · simp [holds, hp, single, hj, Books.free]
      · exact holds_of_ne (Or.inr (Or.inl ⟨by rw [hp]; rfl, rfl⟩)) rfl hj
  | @setId m id nd hp hn =>
    refine h.of_same rfl ?_
    rintro (_ | j)
    · simp [holds, hp, MainPc.fd]
    · by_cases hj : j = m
      · simp [holds, hp, single, hj, Books.setNode, hn]
      · exact holds_of_ne (Or.inl (by rw [hp]; rfl)) rfl hj
  | @close fd m hp hf =>
    refine ⟨h.counted.close hf, h.owned.close (k := .main) (by simp [holds, hp, MainPc.fd]) rfl ?_⟩
    rintro (_ | j) hne
    · exact absurd rfl hne
    · simp [holds, hp, single]

/-- A thread that is not the main thread closes the socket of the node `n`. -/
theorem closeNode (h : Owning s) {nd : ThreadNode} {fd m : ℕ} (hs : single s.main ≠ some n)
    (hn : s.books.node n = some nd) (hf : nd.clientSockFd = some fd) (hm : s.files.object fd = some m)
    (hfiles : s'.files = s.files.close fd m) (hmain : s'.main = s.main)
    (hbooks : s'.books.node =
      Function.update s.books.node n (some { nd with clientSockFd := none })) : Owning s' := by
  refine ⟨by rw [hfiles]; exact h.counted.close hm, ?_⟩
  rw [hfiles]
  refine h.owned.close (k := .node n) ((holds_node hs hn).trans hf) ?_ ?_
  · simp [holds, hmain, hbooks]
  · rintro (_ | j) hne
    · simp [holds, hmain]
    · exact holds_of_ne (Or.inl (by rw [hmain])) hbooks fun e => hne (e ▸ rfl)

theorem handlerStep (h : Owning s) (hk : Kept s) (hh : HandlerStep s s') : Owning s' := by
  cases hh with
  | lock | outerOn | outerOff | innerOn | innerOff | scanFound | scanNone | sleep | testOff | unlock
  | closeEnd | forcedOuterEnd | forcedOuter | forcedInner | forcedScanNone | forceUnlock | wake
  | visitEnd | testOn | forceLock | forcedInnerEnd | forcedScanFound | visitNext | closeNone
  | visitCompleted | join | remove => exact h.of_same rfl (holds_congr rfl rfl)
  | @free forced m rest hp =>
    have ha := hk.handler_account (n := m) (by rw [hp]; rfl)
    obtain ⟨nd, hn, hf⟩ := ha.2.node
    refine h.of_same rfl ?_
    rintro (_ | j)
    · rfl
    · by_cases hj : j = m
      · simp [holds, hj, Books.free, hn, hf]
      · exact holds_of_ne (Or.inl (by rfl)) (by rfl) hj
  | @closeSome m fd k rest nd hp hn hf hm =>
    have hs : single s.main = none :=
      single_of_outside (hk.locked.main_of_handler (by rw [hp]; rfl))
    exact h.closeNode (by simp [hs]) hn hf hm rfl rfl rfl

theorem clientStep (h : Owning s) (hk : Kept s) (hc : ClientStep s n s') : Owning s' := by
  cases hc with
  | start | run | lock | closeNone | signal | unlock | exiting =>
    exact h.of_same rfl (holds_congr rfl rfl)
  | closeSome hp hn hf hm => exact h.closeNode (single_ne_of_client hk hp) hn hf hm rfl rfl rfl
  | complete hp hn =>
    refine h.of_same rfl ?_
    rintro (_ | j)
    · rfl
    · by_cases hj : j = n
      · simp [holds, hj, Books.setNode, Books.setClient, hn]
      · exact holds_of_ne (Or.inl (by rfl)) (by rfl) hj

end Owning

end Aesd.Threads.Sockets
